import Sortie.Program.Generation
import Sortie.Proofs.Mission.Description

/-! Where events lead, from the transitions of a script to the table of its program. The first
transition written for a task and an event decides in all of them. -/
namespace Sortie

/-- Where an event leads by the text of a script. -/
def Script.response (s : Script) (task event : String) : Dispatch :=
  match s.transitions.find? fun d => d.source = task ∧ d.condition = event with
  | some d => if d.destination = "terminate" then .terminate else .next d.destination
  | none => if event = "done" then .terminate else .unhandled

/-- The answer that the machine reads off a destination. -/
def Dispatch.ofDestination? : Option Destination → Dispatch
  | some (.task id) => .next id
  | some .terminate => .terminate
  | none => .unhandled

lemma Dispatch.ofDestination?_ofName (name : String) :
    ofDestination? (some (.ofName name)) = if name = "terminate" then .terminate else .next name := by
  unfold Destination.ofName terminateName
  split <;> rfl

lemma Program.dispatch_eq (p : Program) (id event : String) :
    p.dispatch id event = .ofDestination? ((p.entry? id).bind fun e => e.dispatch event) := by
  unfold Program.dispatch
  rcases (p.entry? id).bind fun e => e.dispatch event with _ | _ | _ <;> rfl

@[simp] lemma Task.entry_dispatch (t : Task) (event : String) :
    t.entry.dispatch event = t.dispatch event := by
  unfold Task.entry Entry.dispatch Task.dispatch
  rw [List.find?_map, Option.map_map]
  rfl

namespace Task

lemma explicit_eq {t : Task} (h : ∀ x ∈ t.transitions, x.implicit = false) :
    t.explicit = t.transitions := by
  unfold explicit
  rw [List.filter_eq_self]
  intro x hx
  rw [h x hx]
  rfl

/-- The default edge answers `done` where no written transition does. -/
lemma dispatch_withDefault {t : Task} (h : ∀ x ∈ t.transitions, x.implicit = false)
    (event : String) :
    t.withDefault.dispatch event =
      (t.dispatch event).or (if event = doneEvent then some .terminate else none) := by
  unfold withDefault hasExplicitDone
  rw [explicit_eq h]
  by_cases hdone : (t.transitions.any fun x => x.condition = doneEvent) = true
  · rw [if_pos hdone]
    by_cases he : event = doneEvent
    · subst he
      have hsome : (t.dispatch doneEvent).isSome := by
        unfold dispatch
        rw [Option.isSome_map, List.find?_isSome]
        simpa using hdone
      rw [Option.or_eq_left_of_isSome hsome]
    · simp [he]
  · rw [if_neg hdone]
    unfold dispatch
    rw [List.find?_append, Option.map_or]
    congr 1
    by_cases he : event = doneEvent
    · simp [he, Transition.doneDefault]
    · simp [he, Transition.doneDefault, Ne.symm he]

end Task

namespace Mission
variable {areas : Waypoints} {script : Script} {mission : Mission}

lemma taskOf_dispatch (script : Script) (d : TaskDecl) (work : Work) (event : String) :
    .ofDestination? ((taskOf script d work).dispatch event) = script.response d.name event := by
  have hwritten : ∀ x ∈ (script.leaving d.name).map Transition.ofDecl, x.implicit = false := by
    intro x hx
    obtain ⟨y, -, rfl⟩ := List.mem_map.1 hx
    rfl
  have hfind : Task.dispatch ⟨d.name, work, (script.leaving d.name).map .ofDecl, d.position⟩ event =
      (script.transitions.find? fun x => x.source = d.name ∧ x.condition = event).map
        fun x => .ofName x.destination := by
    unfold Task.dispatch Script.leaving
    rw [List.find?_map, List.find?_filter, Option.map_map]
    congr 2
    funext x
    by_cases hs : x.source = d.name <;> by_cases hc : x.condition = event <;>
      simp [Transition.ofDecl, hs, hc]
  unfold taskOf Script.response
  rw [Task.dispatch_withDefault hwritten, hfind]
  cases script.transitions.find? fun x => x.source = d.name ∧ x.condition = event with
  | some x => exact Dispatch.ofDestination?_ofName x.destination
  | none =>
    change Dispatch.ofDestination? (if event = "done" then some .terminate else none) =
      if event = "done" then .terminate else .unhandled
    split <;> rfl

end Mission

namespace Program
variable {mission : Mission}

/-- Tasks that are listed under their own ids are found by id among what is made from them. -/
lemma find?_values {β : Type} (f : Task → β) (key : β → String) (hkey : ∀ t, key (f t) = t.id)
    {entries : List (String × Task)} (hid : ∀ e ∈ entries, e.2.id = e.1) (id : String) :
    ((entries.map Prod.snd).map f).find? (fun x => key x = id) = (entries.lookup id).map f := by
  induction entries with
  | nil => rfl
  | cons e rest ih =>
    obtain ⟨n, t⟩ := e
    have hn : t.id = n := hid (n, t) List.mem_cons_self
    have hrest := ih fun e he => hid e (List.mem_cons_of_mem _ he)
    rw [List.map_cons, List.map_cons, List.find?_cons, List.lookup_cons, hrest, hkey, hn]
    by_cases h : n = id
    · simp [h]
    · simp [h, beq_eq_false_iff_ne.2 (Ne.symm h)]

lemma entry?_ofMission (hid : ∀ e ∈ mission.tasks.entries, e.2.id = e.1) (id : String) :
    entry? (ofMission mission) id = (mission.tasks.get? id).map Task.entry :=
  find?_values Task.entry Entry.taskId (fun _ => rfl) hid id

lemma definition?_ofMission (hid : ∀ e ∈ mission.tasks.entries, e.2.id = e.1) (id : String) :
    (ofMission mission).definition? id = (mission.tasks.get? id).map Task.definition :=
  find?_values Task.definition Definition.taskId (fun _ => rfl) hid id

lemma dispatch_ofMission (hid : ∀ e ∈ mission.tasks.entries, e.2.id = e.1) (id event : String) :
    (ofMission mission).dispatch id event =
      .ofDestination? ((mission.tasks.get? id).bind fun t => t.dispatch event) := by
  rw [dispatch_eq, entry?_ofMission hid]
  cases mission.tasks.get? id with
  | none => rfl
  | some t => simp

end Program

/-- An event leads where the first transition written for its task says, in the mission of a script
and in the table of its program; other tasks answer nothing. -/
theorem Mission.dispatch_ofScript {script : Script} {areas : Waypoints} {mission : Mission}
    (h : (Mission.ofScript script areas).result = .ok mission) (task event : String) :
    (task ∈ script.tasks.map TaskDecl.name →
      (Program.ofMission mission).dispatch task event = script.response task event ∧
      ∃ t, mission.tasks.get? task = some t ∧
        .ofDestination? (t.dispatch event) = script.response task event) ∧
    (task ∉ script.tasks.map TaskDecl.name →
      (Program.ofMission mission).dispatch task event = .unhandled ∧
      mission.tasks.get? task = none) := by
  have his := isOf_of_ofScript h
  have hprogram := Program.dispatch_ofMission (fun e he => his.id_eq he) task event
  constructor
  · intro hmem
    obtain ⟨d, -, rfl, work, -, hget⟩ := his.get?_of_mem hmem
    have htask := taskOf_dispatch script d work event
    refine ⟨?_, _, hget, htask⟩
    rw [hprogram, hget]
    exact htask
  · intro hmem
    have hget : mission.tasks.get? task = none := by
      rw [Catalog.get?_eq_none_iff, his.keys_eq]
      exact hmem
    refine ⟨?_, hget⟩
    rw [hprogram, hget]
    rfl

/-- Two tasks with interleaved transitions, one of them shadowed. -/
def Script.relay : Script where
  tasks := [⟨.test, "A", [], ⟨1, 8⟩⟩, ⟨.test, "B", [], ⟨1, 19⟩⟩]
  start := "A"
  startPosition := ⟨2, 18⟩
  transitions :=
    [⟨"seen", none, "A", "B", ⟨3, 1⟩⟩, ⟨"done", none, "B", "A", ⟨4, 1⟩⟩,
      ⟨"seen", none, "B", "terminate", ⟨5, 1⟩⟩, ⟨"seen", none, "A", "terminate", ⟨6, 1⟩⟩]

theorem Mission.dispatch_relay :
    ∃ mission, (Mission.ofScript Script.relay Catalog.empty).result = .ok mission ∧
      (Program.ofMission mission).dispatch "A" "seen" = .next "B" ∧
      (Program.ofMission mission).dispatch "A" "done" = .terminate ∧
      (Program.ofMission mission).dispatch "B" "done" = .next "A" ∧
      (Program.ofMission mission).dispatch "C" "done" = .unhandled := by
  obtain ⟨mission, h⟩ : ∃ mission, (ofScript Script.relay Catalog.empty).result = .ok mission :=
    ⟨_, rfl⟩
  have hA : "A" ∈ Script.relay.tasks.map TaskDecl.name := by decide
  have hB : "B" ∈ Script.relay.tasks.map TaskDecl.name := by decide
  have hC : "C" ∉ Script.relay.tasks.map TaskDecl.name := by decide
  exact ⟨mission, h, ((dispatch_ofScript h "A" "seen").1 hA).1,
    ((dispatch_ofScript h "A" "done").1 hA).1, ((dispatch_ofScript h "B" "done").1 hB).1,
    ((dispatch_ofScript h "C" "done").2 hC).1⟩

end Sortie
