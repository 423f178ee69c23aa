import Sortie.Proofs.Mission.Dispatch

/-! The arguments that a program lists for the conditions of a task. They belong to the transitions
by which the table of the program answers these conditions. -/
namespace Sortie

/-- The literal of an argument, if there is one. -/
def Value.ofArgument? : Option Argument → Value
  | some (.text s) => .str s
  | some (.number v) => .float v
  | none => .null

lemma Transition.argumentValue_ofDecl (t : TransitionDecl) :
    (Transition.ofDecl t).argumentValue = .ofArgument? t.argument := by
  obtain ⟨condition, _ | _ | _, source, destination, position⟩ := t <;> rfl

lemma exists_findIdx?_of_find? {α : Type} {p : α → Bool} {l : List α} {a : α}
    (h : l.find? p = some a) : ∃ i, l.findIdx? p = some i ∧ l[i]? = some a := by
  obtain ⟨ha, i, hi, rfl, hearlier⟩ := List.find?_eq_some_iff_getElem.1 h
  refine ⟨i, List.findIdx?_eq_some_iff_getElem.2 ⟨hi, ha, ?_⟩, List.getElem?_eq_getElem hi⟩
  simpa using hearlier

section Listing
variable {listed : List String} {ts : List Transition} {c : String} {value : Value}

/-- Conditions are listed as they occur first, but for those that are listed already. -/
lemma map_fst_conditionArgs (listed : List String) (ts : List Transition) :
    (conditionArgs listed ts).map Prod.fst =
      ((ts.map Transition.condition).filter fun c => c ∉ listed).eraseDups := by
  induction ts generalizing listed with
  | nil => rfl
  | cons t ts ih =>
    unfold conditionArgs
    rw [List.map_cons]
    by_cases ht : t.condition ∈ listed
    · rw [if_pos (by simpa using ht), List.filter_cons_of_neg (by simpa using ht), ih]
    · rw [if_neg (by simpa using ht), List.filter_cons_of_pos (by simpa using ht), List.map_cons, ih,
        List.eraseDups_cons, List.filter_filter]
      congr 3
      funext c
      by_cases hc : c = t.condition
      · simp [hc]
      · simp [hc]

/-- A condition is listed with the argument of the first transition on it. -/
lemma mem_conditionArgs_iff : (c, value) ∈ conditionArgs listed ts ↔
    c ∉ listed ∧ ∃ t, ts.find? (fun t => t.condition = c) = some t ∧ t.argumentValue = value := by
  induction ts generalizing listed with
  | nil => simp [conditionArgs]
  | cons t ts ih =>
    unfold conditionArgs
    by_cases ht : t.condition ∈ listed
    · rw [if_pos (by simpa using ht), ih, List.find?_cons]
      refine and_congr_right fun hc => ?_
      have hne : t.condition ≠ c := fun heq => hc (heq ▸ ht)
      simp [hne]
    · rw [if_neg (by simpa using ht), List.mem_cons, ih, List.find?_cons]
      by_cases heq : t.condition = c
      · subst heq
        simp [ht, eq_comm]
      · simp [heq, Ne.symm heq]

lemma nodup_conditionArgs (listed : List String) (ts : List Transition) :
    ((conditionArgs listed ts).map Prod.fst).Nodup := by
  induction ts generalizing listed with
  | nil => exact List.nodup_nil
  | cons t ts ih =>
    unfold conditionArgs
    split
    · exact ih listed
    · refine List.nodup_cons.2 ⟨?_, ih _⟩
      intro hmem
      obtain ⟨⟨c, value⟩, hlisted, rfl⟩ := List.mem_map.1 hmem
      exact (mem_conditionArgs_iff.1 hlisted).1 (by simp)

end Listing

lemma Task.transitionArgs_eq_none_iff (t : Task) :
    t.transitionArgs = none ↔ ∀ x ∈ t.explicit, x.condition = doneEvent := by
  unfold Task.transitionArgs
  split <;> rename_i hany <;> simpa using hany

lemma Task.transitionArgs_eq_some {t : Task} {args : List (String × Value)}
    (h : t.transitionArgs = some args) : args = conditionArgs [] t.explicit := by
  unfold Task.transitionArgs at h
  split at h
  · exact (Option.some.inj h).symm
  · cases h

namespace Mission
variable {areas : Waypoints} {script : Script} {mission : Mission} {id c : String}

/-- The transitions of a task are the written ones and what was added behind them. -/
lemma exists_transitions_taskOf (script : Script) (d : TaskDecl) (work : Work) :
    ∃ added, (taskOf script d work).transitions =
        (script.leaving d.name).map Transition.ofDecl ++ added ∧
      ∀ x ∈ added, x.implicit = true := by
  unfold taskOf Task.withDefault
  split
  · exact ⟨[], by simp, by simp⟩
  · exact ⟨_, rfl, by simp [Transition.doneDefault]⟩

lemma explicit_taskOf (script : Script) (d : TaskDecl) (work : Work) :
    (taskOf script d work).explicit = (script.leaving d.name).map Transition.ofDecl := by
  obtain ⟨added, htransitions, hadded⟩ := exists_transitions_taskOf script d work
  have hnone : added.filter (fun x => !x.implicit) = [] := by simpa using hadded
  have hall : ((script.leaving d.name).map Transition.ofDecl).filter (fun x => !x.implicit) =
      (script.leaving d.name).map Transition.ofDecl := by
    rw [List.filter_eq_self]
    intro x hx
    obtain ⟨t, -, rfl⟩ := List.mem_map.1 hx
    rfl
  unfold Task.explicit
  rw [htransitions, List.filter_append, hnone, hall, List.append_nil]

/-- The rule by which a task answers a written condition stands where the first transition on it is
written. -/
lemma findIdx?_rules_taskOf {d : TaskDecl} {i : ℕ} (work : Work)
    (h : (script.leaving d.name).findIdx? (fun t => t.condition = c) = some i) :
    (taskOf script d work).entry.rules.findIdx? (fun r => r.event = c) = some i := by
  obtain ⟨added, htransitions, -⟩ := exists_transitions_taskOf script d work
  unfold Task.entry
  rw [List.findIdx?_map, htransitions, List.findIdx?_append, List.findIdx?_map]
  change ((script.leaving d.name).findIdx? fun t => t.condition = c).or _ = _
  rw [h, Option.some_or]

/-- The arguments of the conditions of a task: each written condition once, in the order in which
they occur first. Its argument is that of the transition at the place of the rule by which the table
answers it, and the answer is the destination of this transition. -/
structure ListsArguments (written : List TransitionDecl) (rules : List Rule)
    (answer : String → Dispatch) (args : List (String × Value)) : Prop where
  conditions : args.map Prod.fst = (written.map TransitionDecl.condition).eraseDups
  nodup : (args.map Prod.fst).Nodup
  arguments : ∀ c value, (c, value) ∈ args → ∃ i t, rules.findIdx? (fun r => r.event = c) = some i ∧
    written[i]? = some t ∧ t.condition = c ∧ value = .ofArgument? t.argument ∧
    answer c = if t.destination = "terminate" then .terminate else .next t.destination
  done : "done" ∈ args.map Prod.fst → ∃ t ∈ written, t.condition = "done"

lemma response_of_find? {t : TransitionDecl}
    (h : (script.leaving id).find? (fun t => t.condition = c) = some t) : script.response id c =
      if t.destination = "terminate" then .terminate else .next t.destination := by
  have hboth : (fun d : TransitionDecl => decide (d.source = id ∧ d.condition = c)) =
      fun d => decide (decide (d.source = id) = true ∧ decide (d.condition = c) = true) := by
    funext d
    simp
  unfold Script.leaving at h
  unfold Script.response
  rw [hboth, ← List.find?_filter, h]

lemma listsArguments_taskOf (his : mission.IsOf script areas) {d : TaskDecl} {work : Work}
    (hget : mission.tasks.get? d.name = some (taskOf script d work)) :
    ListsArguments (script.leaving d.name) (taskOf script d work).entry.rules
      (fun c => (Program.ofMission mission).dispatch d.name c)
      (conditionArgs [] (taskOf script d work).explicit) where
  conditions := by
    rw [map_fst_conditionArgs, explicit_taskOf, List.map_map]
    simp [Function.comp_def, Transition.ofDecl]
  nodup := nodup_conditionArgs _ _
  arguments c value hmem := by
    obtain ⟨-, x, hfind, hvalue⟩ := mem_conditionArgs_iff.1 hmem
    rw [explicit_taskOf, List.find?_map, Option.map_eq_some_iff] at hfind
    obtain ⟨t, hfind, rfl⟩ := hfind
    change (script.leaving d.name).find? (fun t => t.condition = c) = some t at hfind
    obtain ⟨i, hindex, hwritten⟩ := exists_findIdx?_of_find? hfind
    refine ⟨i, t, findIdx?_rules_taskOf work hindex, hwritten, ?_, ?_, ?_⟩
    · simpa using List.find?_some hfind
    · rw [← hvalue, Transition.argumentValue_ofDecl]
    · rw [Program.dispatch_ofMission (fun e he => his.id_eq he), hget]
      exact (taskOf_dispatch script d work c).trans (response_of_find? hfind)
  done hmem := by
    rw [map_fst_conditionArgs, List.mem_eraseDups, explicit_taskOf] at hmem
    simpa [Transition.ofDecl] using hmem

/-- The program of a script lists arguments for the conditions of a task unless all that is written
for it is `done`, and it lists those of the transitions by which it answers. -/
theorem transitionArgs_agree_with_dispatch (h : (ofScript script areas).result = .ok mission)
    (hid : id ∈ mission.tasks.keys) :
    ∃ e d, Program.entry? (.ofMission mission) id = some e ∧
      (Program.ofMission mission).definition? id = some d ∧
      (d.transitionArgs = none ↔ ∀ t ∈ script.leaving id, t.condition = "done") ∧
      ∀ args, d.transitionArgs = some args →
        ListsArguments (script.leaving id) e.rules
          (fun c => (Program.ofMission mission).dispatch id c) args := by
  have his := isOf_of_ofScript h
  rw [his.keys_eq] at hid
  obtain ⟨d, -, rfl, work, -, hget⟩ := his.get?_of_mem hid
  refine ⟨(taskOf script d work).entry, (taskOf script d work).definition, ?_, ?_, ?_, ?_⟩
  · rw [Program.entry?_ofMission fun e he => his.id_eq he, hget]
    rfl
  · rw [Program.definition?_ofMission fun e he => his.id_eq he, hget]
    rfl
  · change (taskOf script d work).transitionArgs = none ↔ _
    rw [Task.transitionArgs_eq_none_iff, explicit_taskOf, List.forall_mem_map]
    rfl
  · intro args hargs
    cases Task.transitionArgs_eq_some hargs
    exact listsArguments_taskOf his hget

end Mission

/-- A task with a shadowed condition and a written `done`, and one without transitions. -/
def Script.patrol : Script where
  tasks := [⟨.test, "A", [], ⟨1, 8⟩⟩, ⟨.test, "B", [], ⟨1, 19⟩⟩]
  start := "A"
  startPosition := ⟨2, 18⟩
  transitions :=
    [⟨"timeout", some (.number 20), "A", "B", ⟨3, 1⟩⟩,
      ⟨"detected", some (.text "person"), "A", "B", ⟨4, 1⟩⟩,
      ⟨"timeout", some (.number 99), "A", "terminate", ⟨5, 1⟩⟩, ⟨"done", none, "A", "B", ⟨6, 1⟩⟩]

theorem Mission.transitionArgs_patrol :
    ∃ mission e d args, (Mission.ofScript Script.patrol Catalog.empty).result = .ok mission ∧
      "A" ∈ mission.tasks.keys ∧ Program.entry? (.ofMission mission) "A" = some e ∧
      (Program.ofMission mission).definition? "A" = some d ∧ d.transitionArgs = some args ∧
      args.map Prod.fst = ["timeout", "detected", "done"] ∧
      ListsArguments (Script.patrol.leaving "A") e.rules
        (fun c => (Program.ofMission mission).dispatch "A" c) args := by
  obtain ⟨mission, h, hid⟩ : ∃ mission, (ofScript Script.patrol Catalog.empty).result = .ok mission ∧
      "A" ∈ mission.tasks.keys := ⟨_, rfl, by decide⟩
  obtain ⟨e, d, he, hd, hnone, hsome⟩ := transitionArgs_agree_with_dispatch h hid
  cases hargs : d.transitionArgs with
  | none => exact absurd (hnone.1 hargs) (by decide)
  | some args =>
    have hlists := hsome args hargs
    exact ⟨mission, e, d, args, h, hid, he, hd, hargs, hlists.conditions, hlists⟩

end Sortie
