import Sortie.Mission.Attributes
import Sortie.Mission.Validity

/-! The mission that a script describes. -/
namespace Sortie.Mission

/-- Enters one declared task; its name must be new. -/
def declare (areas : Waypoints) (tasks : Catalog Task) (d : TaskDecl) :
    Traced (Located Fault) (Catalog Task) :=
  match tasks.get? d.name with
  | some earlier => .fail ⟨.duplicateTask d.name earlier.position, d.position⟩
  | none => do
    let task ← d.resolve areas
    .emit (.debug "resolved task" [("task", task.id), ("kind", task.work.kind.word)])
    return tasks.insert task.id task

/-- Lists one written transition under its source. -/
def connect (tasks : Catalog Task) (d : TransitionDecl) : Except (Located Fault) (Catalog Task) :=
  if tasks.contains d.source then
    .ok (tasks.modify d.source fun t => { t with transitions := t.transitions ++ [.ofDecl d] })
  else .error ⟨.unknownSource d.condition d.source d.destination, d.position⟩

/-- Resolves the tasks in order, connects them in order, adds the missing `done` edges and checks
the graph. -/
def ofScript (script : Script) (areas : Waypoints) : Traced (Located Fault) Mission := do
  let declared ← script.tasks.foldlM (declare areas) Catalog.empty
  let connected ← .ofExcept (script.transitions.foldlM connect declared)
  let mission : Mission :=
    ⟨script.start, script.startPosition, connected.map fun _ t => t.withDefault⟩
  .ofExcept mission.validate
  .emit (.debug "mission analyzed" [("start", mission.start),
    ("tasks", toString mission.tasks.size), ("transitions", toString mission.transitionCount)])
  return mission

end Sortie.Mission
