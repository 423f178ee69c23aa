import Sortie.Mission.Fault

/-! The rules that a mission graph keeps. -/
namespace Sortie.Mission

/-- Names that no task may have. -/
def reservedIds : List String := [terminateName, "default"]

/-- No task has a reserved name. -/
def checkIds (m : Mission) : Except (Located Fault) Unit :=
  match m.tasks.values.find? fun t => reservedIds.contains t.id with
  | some t => .error ⟨.reservedId t.id, t.position⟩
  | none => .ok ()

/-- The start task is declared. -/
def checkStart (m : Mission) : Except (Located Fault) Unit :=
  if m.tasks.contains m.start then .ok () else .error ⟨.undeclaredStart m.start, m.startPosition⟩

/-- A transition leaves the task that lists it and leads to a declared task or to the end. -/
def checkTransition (m : Mission) (key : String) (t : Transition) : Except (Located Fault) Unit :=
  if t.source ≠ key then
    .error ⟨.misplaced t.condition t.source t.destination.name key, t.position⟩
  else match t.destination with
    | .terminate => .ok ()
    | .task id =>
      if m.tasks.contains id then .ok ()
      else .error ⟨.unknownDestination t.condition t.source id, t.position⟩

/-- Reports the first rule that is broken. -/
def validate (m : Mission) : Except (Located Fault) Unit := do
  m.checkIds
  m.checkStart
  m.tasks.entries.forM fun (key, task) => task.transitions.forM (m.checkTransition key)

end Sortie.Mission
