import Sortie.Proofs.Machine.Itinerary

/-! The machine and its host over a run. The task that the machine takes to be active runs on the
host, and only running tasks are stopped, as long as no event leads to a task without a definition.
Such an event makes the host stop a task that the machine goes on to take as active. -/
namespace Sortie.Machine

/-- The tasks that run on the host after a call. -/
def HostCall.onto (running : List String) : HostCall → List String
  | start _ id => id :: running
  | stop id => running.filter (· ≠ id)
  | finish => running

/-- The tasks that were started and not stopped since. -/
def running (calls : List HostCall) : List String := calls.foldl HostCall.onto []

/-- The last call that started or stopped a task. -/
def lastMove? (calls : List HostCall) : Option HostCall := (calls.filter (· ≠ .finish)).getLast?

/-- A task is stopped only while it runs. -/
def StopsRunning (calls : List HostCall) : Prop :=
  ∀ before id later, calls = before ++ .stop id :: later → id ∈ running before

/-- The task that the machine takes to be active was the last to be started and has not been stopped,
and no task was stopped that did not run. -/
structure Consistent (calls : List HostCall) (state : State) : Prop where
  last : ∀ id, state.active? = some id → ∃ taskClass, lastMove? calls = some (.start taskClass id)
  active : ∀ id, state.active? = some id → id ∈ running calls
  stops : StopsRunning calls

/-- Some event among the inputs leads to a task without a definition. -/
def LosesTarget (p : Program) (state : State) (inputs : List Input) : Prop :=
  ∃ before task event later id, inputs = before ++ .deliver task event :: later ∧
    (step p (after p state before) (.deliver task event)).outcome = .error (.unknownTask id)

variable {p : Program} {calls : List HostCall} {state : State} {inputs : List Input}

/-! What single calls do. -/

@[simp] lemma running_append_start (taskClass : TaskClass) (id : String) :
    running (calls ++ [.start taskClass id]) = id :: running calls := List.foldl_append

@[simp] lemma lastMove?_append_start (taskClass : TaskClass) (id : String) :
    lastMove? (calls ++ [.start taskClass id]) = some (.start taskClass id) := by
  simp [lastMove?]

@[simp] lemma lastMove?_append_stop (id : String) :
    lastMove? (calls ++ [.stop id]) = some (.stop id) := by
  simp [lastMove?]

lemma StopsRunning.append_singleton (h : StopsRunning calls) {call : HostCall}
    (hcall : ∀ id, call = .stop id → id ∈ running calls) : StopsRunning (calls ++ [call]) := by
  intro before id later hsplit
  rcases List.eq_nil_or_concat later with rfl | ⟨later, last, rfl⟩
  · obtain ⟨rfl, hlast⟩ := List.append_inj' hsplit rfl
    exact hcall id (List.head_eq_of_cons_eq hlast)
  · have hsplit : calls ++ [call] = (before ++ .stop id :: later) ++ [last] := by simpa using hsplit
    obtain ⟨rfl, -⟩ := List.append_inj' hsplit rfl
    exact h before id later rfl

lemma StopsRunning.append_start (h : StopsRunning calls) (taskClass : TaskClass) (id : String) :
    Consistent (calls ++ [.start taskClass id]) (.running id) where
  last := by simp [State.active?]
  active := by simp [State.active?]
  stops := h.append_singleton (by simp)

lemma Consistent.append_stop {id : String} (h : Consistent calls (.running id)) :
    StopsRunning (calls ++ [.stop id]) := by
  apply h.stops.append_singleton
  intro other hother
  cases hother
  exact h.active id rfl

/-- A machine that is not running has to be consistent with its calls only. -/
lemma StopsRunning.consistent (h : StopsRunning calls) (hstate : state.active? = none) :
    Consistent calls state where
  last := by simp [hstate]
  active := by simp [hstate]
  stops := h

/-! What inputs do. -/

/-- An input keeps machine and host consistent unless it leads to a task without a definition. -/
lemma Consistent.step (h : Consistent calls state) (input : Input)
    (hfound : ∀ task event id, input = .deliver task event →
      (Machine.step p state input).outcome ≠ .error (.unknownTask id)) :
    Consistent (calls ++ (Machine.step p state input).calls) (Machine.step p state input).state := by
  have heffect := step_effect p state input
  generalize Machine.step p state input = turn at heffect hfound
  cases heffect with
  | refused _ | startLost _ _ | ignored _ | unhandled _ _ => simpa using h
  | began _ found =>
    rw [← taskId_of_definition? found]
    exact h.stops.append_start _ _
  | moved active _ found =>
    subst active
    rw [← taskId_of_definition? found, List.append_cons]
    exact h.append_stop.append_start _ _
  | targetLost _ _ _ => exact absurd rfl (hfound _ _ _ rfl)
  | ended active _ =>
    subst active
    rw [List.append_cons]
    exact (h.append_stop.append_singleton (by simp)).consistent rfl

lemma losesTarget_cons_iff {input : Input} :
    LosesTarget p state (input :: inputs) ↔
      (∃ task event id, input = .deliver task event ∧
        (step p state input).outcome = .error (.unknownTask id)) ∨
      LosesTarget p (step p state input).state inputs := by
  constructor
  · rintro ⟨before, task, event, later, id, hsplit, hlost⟩
    cases before with
    | nil =>
      cases hsplit
      exact .inl ⟨task, event, id, rfl, hlost⟩
    | cons first before =>
      cases hsplit
      exact .inr ⟨before, task, event, later, id, rfl, hlost⟩
  · rintro (⟨task, event, id, rfl, hlost⟩ | ⟨before, task, event, later, id, rfl, hlost⟩)
    · exact ⟨[], task, event, inputs, id, rfl, hlost⟩
    · exact ⟨input :: before, task, event, later, id, rfl, hlost⟩

lemma Consistent.run (h : Consistent calls state) (hfound : ¬ LosesTarget p state inputs) :
    Consistent (calls ++ callsOf p state inputs) (after p state inputs) := by
  induction inputs generalizing calls state with
  | nil =>
    have hnone : callsOf p state [] = [] := rfl
    rw [hnone, List.append_nil]
    exact h
  | cons input inputs ih =>
    rw [losesTarget_cons_iff, not_or] at hfound
    rw [callsOf_cons, ← List.append_assoc]
    refine ih (h.step input ?_) hfound.2
    intro task event id hinput hlost
    exact hfound.1 ⟨task, event, id, hinput, hlost⟩

lemma LosesTarget.mono {more : List Input} (h : LosesTarget p state inputs) :
    LosesTarget p state (inputs ++ more) := by
  obtain ⟨before, task, event, later, id, rfl, hlost⟩ := h
  exact ⟨before, task, event, later ++ more, id, by simp, hlost⟩

/-- An event is lost where the task that it leads to has no definition. -/
lemma target_of_lost {task event id : String}
    (hlost : (step p state (.deliver task event)).outcome = .error (.unknownTask id)) :
    p.dispatch task event = .next id ∧ p.definition? id = none ∧
      (step p state (.deliver task event)).calls = [.stop task] ∧
      (step p state (.deliver task event)).state = .running task := by
  have heffect := step_effect p state (.deliver task event)
  generalize step p state (.deliver task event) = turn at heffect hlost
  cases heffect with
  | targetLost active leads lost =>
    cases hlost
    exact ⟨leads, lost, rfl, active⟩
  | ignored _ | unhandled _ _ | moved _ _ _ | ended _ _ => cases hlost

/-- The host has stopped the task that the machine goes on to take as active. -/
lemma not_consistent_of_lost {task event id : String}
    (hlost : (step p state (.deliver task event)).outcome = .error (.unknownTask id)) :
    ¬ Consistent (calls ++ (step p state (.deliver task event)).calls)
      (step p state (.deliver task event)).state := by
  obtain ⟨-, -, hcalls, hstate⟩ := target_of_lost hlost
  rw [hcalls, hstate]
  intro h
  obtain ⟨taskClass, hlast⟩ := h.last task rfl
  simp at hlast

/-- At all times of a run, the task that the machine takes to be active was the last to be started and
runs on the host, and only running tasks have been stopped, if and only if no event of the run leads
to a task without a definition. In a program that defines every target this never happens. -/
theorem consistent_iff_not_losesTarget (p : Program) (inputs : List Input) :
    ((∀ before later, inputs = before ++ later →
      Consistent (callsOf p .idle before) (after p .idle before)) ↔
      ¬ LosesTarget p .idle inputs) ∧
    ((∀ id event target, p.dispatch id event = .next target → (p.definition? target).isSome) →
      ¬ LosesTarget p .idle inputs) := by
  refine ⟨⟨?_, ?_⟩, ?_⟩
  · rintro h ⟨before, task, event, later, id, rfl, hlost⟩
    have hthen := h (before ++ [.deliver task event]) later (by simp)
    rw [callsOf_append, after_append, callsOf_cons] at hthen
    have hnone : callsOf p (step p (after p .idle before) (.deliver task event)).state [] = [] := rfl
    rw [hnone, List.append_nil] at hthen
    exact not_consistent_of_lost hlost hthen
  · rintro hfound before later rfl
    have hstart : Consistent [] .idle := by
      apply StopsRunning.consistent
      · intro before id later hsplit
        simp at hsplit
      · rfl
    simpa using hstart.run fun hlost => hfound hlost.mono
  · rintro hdefined ⟨before, task, event, later, id, -, hlost⟩
    obtain ⟨hleads, hnone, -, -⟩ := target_of_lost hlost
    have hsome := hdefined task event id hleads
    rw [hnone] at hsome
    cases hsome

/-- A task whose only rule leads to a task that is not defined. -/
def dangling : Program where
  entries := [⟨"A", [⟨"seen", .task "B", false⟩]⟩]
  definitions := [⟨"A", .test, [], none⟩]
  start := "A"
  tableKeys := ["A"]

/-- The machine takes a task to be active that the host has stopped, and has it stopped again. -/
theorem stopped_while_active_dangling :
    (after dangling .idle [.start, .deliver "A" "seen"]).active? = some "A" ∧
    lastMove? (callsOf dangling .idle [.start, .deliver "A" "seen"]) = some (.stop "A") ∧
    running (callsOf dangling .idle [.start, .deliver "A" "seen"]) = [] ∧
    ¬ StopsRunning (callsOf dangling .idle
      [.start, .deliver "A" "seen", .deliver "A" "seen"]) := by
  refine ⟨by decide, by decide, by decide, ?_⟩
  intro h
  have hrunning := h [.start .test "A", .stop "A"] "A" [] (by decide)
  exact absurd hrunning (by decide)

end Sortie.Machine
