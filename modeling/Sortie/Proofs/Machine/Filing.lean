import Sortie.Proofs.Machine.Itinerary

/-! Missions that list a task under another name than its id. The rules of a mission graph are about
the names that are listed, a program finds its tasks by id: a checked mission has a program that can
be run exactly where every name listed is the id of some task. -/
namespace Sortie

namespace Program
variable {mission : Mission}

/-- A program that can be written out and run: the keys of its table have an entry and a definition,
reserved names are neither ids nor keys, and no run asks for a task without a definition. -/
structure Runnable (p : Program) : Prop where
  entries : ∀ key ∈ p.tableKeys, (p.entry? key).isSome
  definitions : ∀ key ∈ p.tableKeys, (p.definition? key).isSome
  ids : ∀ e ∈ p.entries, e.taskId ≠ "terminate" ∧ e.taskId ≠ "default"
  keys : "default" ∉ p.tableKeys
  known : ∀ inputs, ∀ turn ∈ Machine.run p .idle inputs, ∀ id,
    turn.outcome ≠ .error (.unknownTask id)

lemma isSome_entry?_ofMission_iff {id : String} :
    ( entry? (ofMission mission) id).isSome ↔ ∃ t ∈ mission.tasks.values, t.id = id := by
  unfold entry? ofMission
  rw [List.find?_isSome]
  simp [Task.entry]

/-- The ids of a checked mission are not reserved. -/
lemma id_ne_of_sound (hsound : mission.Sound) {t : Task} (ht : t ∈ mission.tasks.values) :
    t.id ≠ "terminate" ∧ t.id ≠ "default" := by
  obtain ⟨e, he, rfl⟩ := List.mem_map.1 ht
  simpa [Mission.reservedIds, terminateName] using hsound.ids e he

lemma runnable_of_keys (hsound : mission.Sound)
    (hkeys : ∀ key ∈ mission.tasks.keys, ∃ t ∈ mission.tasks.values, t.id = key) :
    (ofMission mission).Runnable where
  entries key hkey := isSome_entry?_ofMission_iff.2 (hkeys key hkey)
  definitions key hkey := isSome_definition?_ofMission_iff.2 (hkeys key hkey)
  ids e he := by
    obtain ⟨t, ht, rfl⟩ := List.mem_map.1 he
    exact id_ne_of_sound hsound ht
  keys hdefault := by
    obtain ⟨t, ht, hid⟩ := hkeys "default" hdefault
    exact (id_ne_of_sound hsound ht).2 hid
  known inputs := (Machine.Logged.idle.run (closed_of_keys hsound hkeys) inputs).2

end Program

/-- A mission that passes the check has a program that can be run if and only if every name under
which it lists a task is the id of one of its tasks. -/
theorem Program.runnable_iff_of_validate {mission : Mission} (h : mission.validate = .ok ()) :
    (ofMission mission).Runnable ↔
      ∀ key ∈ mission.tasks.keys, ∃ t ∈ mission.tasks.values, t.id = key := by
  constructor
  · intro hrun key hkey
    exact isSome_definition?_ofMission_iff.1 (hrun.definitions key hkey)
  · intro hkeys
    exact runnable_of_keys (mission.validate_eq_ok_iff.1 h) hkeys

namespace Mission

/-- Two tasks that are listed under each other's ids. -/
def crossed : Mission where
  start := "A"
  startPosition := ⟨2, 18⟩
  tasks := .ofList
    [("A", ⟨"B", .test, [⟨"seen", none, "A", .task "B", false, ⟨3, 1⟩⟩], ⟨1, 8⟩⟩),
      ("B", ⟨"A", .test, [⟨"seen", none, "B", .task "B", false, ⟨4, 1⟩⟩], ⟨1, 19⟩⟩)]

theorem runnable_crossed : crossed.validate = .ok () ∧ (Program.ofMission crossed).Runnable := by
  have hvalid : crossed.validate = .ok () := rfl
  refine ⟨hvalid, (Program.runnable_iff_of_validate hvalid).2 ?_⟩
  decide

/-- The only task is listed under a reserved name. -/
def misnamed : Mission where
  start := "default"
  startPosition := ⟨2, 18⟩
  tasks := .ofList [("default", ⟨"A", .test, [], ⟨1, 8⟩⟩)]

/-- A task leads to a name under which a task with another id is listed. -/
def misfiled : Mission where
  start := "A"
  startPosition := ⟨2, 18⟩
  tasks := .ofList
    [("A", ⟨"A", .test, [⟨"done", none, "A", .task "B", false, ⟨3, 1⟩⟩], ⟨1, 8⟩⟩),
      ("B", ⟨"C", .test, [], ⟨1, 19⟩⟩)]

/-- The check passes missions whose programs cannot be run. -/
theorem valid_not_runnable :
    (misnamed.validate = .ok () ∧ ¬ (Program.ofMission misnamed).Runnable ∧
      "default" ∈ (Program.ofMission misnamed).tableKeys ∧
      Program.entry? (.ofMission misnamed) "default" = none ∧
      (Machine.run (.ofMission misnamed) .idle [.start]).map Machine.Turn.outcome =
        [.error (.unknownTask "default")]) ∧
    (misfiled.validate = .ok () ∧ ¬ (Program.ofMission misfiled).Runnable ∧
      (Machine.run (.ofMission misfiled) .idle [.start, .deliver "A" "done"]).map
        Machine.Turn.outcome = [.ok .started, .error (.unknownTask "B")]) := by
  refine ⟨⟨rfl, ?_, ?_, rfl, rfl⟩, rfl, ?_, rfl⟩
  · intro hrun
    exact hrun.keys (by decide)
  · decide
  · intro hrun
    exact absurd (hrun.definitions "B" (by decide)) (by decide)

end Mission
end Sortie
