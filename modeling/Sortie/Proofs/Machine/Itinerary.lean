import Sortie.Machine
import Sortie.Proofs.Compilation
import Sortie.Proofs.Mission.Dispatch
import Sortie.Proofs.Mission.Validity

/-! The calls that a machine makes over a whole run. A program without dangling targets makes its
host enter and leave one task after the other along its dispatch table, until an event ends the
mission. -/
namespace Sortie

/-- Every task that the machine can be sent to has a definition. -/
structure Program.Closed (p : Program) : Prop where
  start : (p.definition? p.start).isSome
  next : ∀ {id event target}, p.dispatch id event = .next target → (p.definition? target).isSome

namespace Machine
variable {p : Program}

/-- The state that a sequence of inputs leads to. -/
def after (p : Program) (state : State) (inputs : List Input) : State :=
  inputs.foldl (fun s input => (step p s input).state) state

/-- All calls made on a sequence of inputs, in order. -/
def callsOf (p : Program) (state : State) (inputs : List Input) : List HostCall :=
  (run p state inputs).flatMap Turn.calls

/-- The delivery that an input was, if it ended the stay in a task. -/
def departure (input : Input) (turn : Turn) : List (String × String) :=
  match input, turn.outcome with
  | .deliver task event, .ok (.transitioned _ _) => [(task, event)]
  | .deliver task event, .ok .terminated => [(task, event)]
  | _, _ => []

/-- The deliveries that ended a stay, in order. -/
def departures (p : Program) (state : State) : List Input → List (String × String)
  | [] => []
  | input :: rest =>
    departure input (step p state input) ++ departures p (step p state input).state rest

/-- A way through the dispatch table: the tasks that were left, each with the event that led from
it to the next, and the task that was reached. -/
inductive Itinerary (p : Program) : String → List (Definition × String) → Definition → Prop
  | reached {id d} (found : p.definition? id = some d) : Itinerary p id [] d
  | left {id d event next stays last} (found : p.definition? id = some d)
      (leads : p.dispatch id event = .next next) (onward : Itinerary p next stays last) :
      Itinerary p id ((d, event) :: stays) last

def startCall (d : Definition) : HostCall := .start d.taskClass d.taskId

/-- Start and stop for every task that was left, and a start for the one that was reached. -/
def visits (stays : List (Definition × String)) (last : Definition) : List HostCall :=
  stays.flatMap (fun s => [startCall s.1, .stop s.1.taskId]) ++ [startCall last]

def stayDepartures (stays : List (Definition × String)) : List (String × String) :=
  stays.map fun s => (s.1.taskId, s.2)

/-- Departures, calls and state after some inputs: nothing yet, an itinerary, or an itinerary that
an event has ended. -/
inductive Logged (p : Program) : List (String × String) → List HostCall → State → Prop
  | idle : Logged p [] [] .idle
  | running {stays last} (way : Itinerary p p.start stays last) :
      Logged p (stayDepartures stays) (visits stays last) (.running last.taskId)
  | halted {stays last event} (way : Itinerary p p.start stays last)
      (ends : p.dispatch last.taskId event = .terminate) :
      Logged p (stayDepartures stays ++ [(last.taskId, event)])
        (visits stays last ++ [.stop last.taskId, .finish]) .halted

/-- What one input can do to the machine. -/
inductive Effect (p : Program) (state : State) : Input → Turn → Prop
  | refused {events} (begun : state ≠ .idle) :
      Effect p state .start ⟨[], state, events, .error .alreadyStarted⟩
  | began {events d} (fresh : state = .idle) (found : p.definition? p.start = some d) :
      Effect p state .start ⟨[startCall d], .running p.start, events, .ok .started⟩
  | startLost {events} (fresh : state = .idle) (lost : p.definition? p.start = none) :
      Effect p state .start ⟨[], state, events, .error (.unknownTask p.start)⟩
  | ignored {events task event} (inactive : state ≠ .running task) :
      Effect p state (.deliver task event) ⟨[], state, events, .ok .ignored⟩
  | unhandled {events task event} (active : state = .running task)
      (leads : p.dispatch task event = .unhandled) :
      Effect p state (.deliver task event) ⟨[], state, events, .ok .unhandled⟩
  | moved {events task event next d} (active : state = .running task)
      (leads : p.dispatch task event = .next next) (found : p.definition? next = some d) :
      Effect p state (.deliver task event)
        ⟨[.stop task, startCall d], .running next, events, .ok (.transitioned task next)⟩
  | targetLost {events task event next} (active : state = .running task)
      (leads : p.dispatch task event = .next next) (lost : p.definition? next = none) :
      Effect p state (.deliver task event) ⟨[.stop task], state, events, .error (.unknownTask next)⟩
  | ended {events task event} (active : state = .running task)
      (leads : p.dispatch task event = .terminate) :
      Effect p state (.deliver task event) ⟨[.stop task, .finish], .halted, events, .ok .terminated⟩

theorem step_effect (p : Program) (state : State) (input : Input) :
    Effect p state input (step p state input) := by
  cases input with
  | start =>
    change Effect p state .start (start p state)
    cases state with
    | idle =>
      unfold start enter
      cases h : p.definition? p.start with
      | none => exact .startLost rfl h
      | some d => exact .began rfl h
    | running id => exact .refused (by simp)
    | halted => exact .refused (by simp)
  | deliver task event =>
    change Effect p state (.deliver task event) (deliver p state task event)
    unfold deliver
    by_cases hactive : state = .running task
    · rw [if_pos hactive]
      cases hleads : p.dispatch task event with
      | next target =>
        change Effect p state (.deliver task event) (enter p state [.stop task] target _ _)
        unfold enter
        cases h : p.definition? target with
        | none => exact .targetLost hactive hleads h
        | some d => exact .moved hactive hleads h
      | terminate => exact .ended hactive hleads
      | unhandled => exact .unhandled hactive hleads
    · rw [if_neg hactive]
      exact .ignored hactive

lemma taskId_of_definition? {id : String} {d : Definition} (h : p.definition? id = some d) :
    d.taskId = id := by
  have := List.find?_some h
  simpa using this

lemma Itinerary.extend {id : String} {stays : List (Definition × String)} {last d : Definition}
    (h : Itinerary p id stays last) {event next : String}
    (leads : p.dispatch last.taskId event = .next next) (found : p.definition? next = some d) :
    Itinerary p id (stays ++ [(last, event)]) d := by
  induction h with
  | reached hid =>
    rw [taskId_of_definition? hid] at leads
    exact .left hid leads (.reached found)
  | left hid hleads _ ih => exact .left hid hleads (ih leads)

lemma visits_append (stays : List (Definition × String)) (last d : Definition) (event : String) :
    visits (stays ++ [(last, event)]) d = visits stays last ++ [.stop last.taskId, startCall d] := by
  simp [visits]

/-- One input extends the log, and never leads to a task without a definition. -/
lemma Logged.step (hp : p.Closed) {departed : List (String × String)} {calls : List HostCall}
    {state : State} (h : Logged p departed calls state) (input : Input) :
    Logged p (departed ++ departure input (Machine.step p state input))
      (calls ++ (Machine.step p state input).calls) (Machine.step p state input).state ∧
    ∀ id, (Machine.step p state input).outcome ≠ .error (.unknownTask id) := by
  have heffect := step_effect p state input
  generalize Machine.step p state input = turn at heffect
  cases heffect with
  | refused begun => simpa [departure] using h
  | began fresh found =>
    subst fresh
    cases h
    refine ⟨?_, by simp⟩
    have hid := taskId_of_definition? found
    simpa [departure, hid, stayDepartures, visits] using Logged.running (.reached found)
  | startLost fresh lost =>
    have := hp.start
    simp [lost] at this
  | ignored inactive => simpa [departure] using h
  | unhandled active leads => simpa [departure] using h
  | @moved _ task event next d active leads found =>
    subst active
    cases h with
    | @running stays last way =>
      refine ⟨?_, by simp⟩
      have hid := taskId_of_definition? found
      have hlog := Logged.running (way.extend leads found)
      rw [visits_append, hid] at hlog
      simpa [departure, stayDepartures] using hlog
  | targetLost active leads lost =>
    have := hp.next leads
    simp [lost] at this
  | ended active leads =>
    subst active
    cases h with
    | running way => exact ⟨.halted way leads, by simp⟩

lemma callsOf_cons (p : Program) (state : State) (input : Input) (rest : List Input) :
    callsOf p state (input :: rest) =
      (step p state input).calls ++ callsOf p (step p state input).state rest := rfl

lemma Logged.run (hp : p.Closed) {departed : List (String × String)} {calls : List HostCall}
    {state : State} (h : Logged p departed calls state) (inputs : List Input) :
    Logged p (departed ++ departures p state inputs) (calls ++ callsOf p state inputs)
      (after p state inputs) ∧
    ∀ turn ∈ Machine.run p state inputs, ∀ id, turn.outcome ≠ .error (.unknownTask id) := by
  induction inputs generalizing departed calls state with
  | nil =>
    refine ⟨?_, by simp [Machine.run]⟩
    simpa [departures, callsOf, after, Machine.run] using h
  | cons input rest ih =>
    obtain ⟨hstep, hknown⟩ := h.step hp input
    obtain ⟨hlog, hrest⟩ := ih hstep
    refine ⟨?_, ?_⟩
    · rw [departures, callsOf_cons, ← List.append_assoc, ← List.append_assoc]
      exact hlog
    · intro turn hturn
      rcases List.mem_cons.1 hturn with rfl | hturn
      · exact hknown
      · exact hrest turn hturn

lemma after_append (p : Program) (state : State) (inputs more : List Input) :
    after p state (inputs ++ more) = after p (after p state inputs) more := List.foldl_append

lemma callsOf_append (p : Program) (state : State) (inputs more : List Input) :
    callsOf p state (inputs ++ more) =
      callsOf p state inputs ++ callsOf p (after p state inputs) more := by
  induction inputs generalizing state with
  | nil => rfl
  | cons input rest ih =>
    rw [List.cons_append, callsOf_cons, callsOf_cons, ih, List.append_assoc]
    rfl

/-- A halted machine stays as it is. -/
lemma after_halted (p : Program) (inputs : List Input) :
    after p .halted inputs = .halted ∧ callsOf p .halted inputs = [] := by
  induction inputs with
  | nil => exact ⟨rfl, rfl⟩
  | cons input rest ih =>
    have hquiet : (step p .halted input).state = .halted ∧ (step p .halted input).calls = [] := by
      have heffect := step_effect p .halted input
      generalize step p .halted input = turn at heffect
      cases heffect with
      | refused _ => exact ⟨rfl, rfl⟩
      | ignored _ => exact ⟨rfl, rfl⟩
      | began fresh _ | startLost fresh _ => cases fresh
      | unhandled active _ | moved active _ _ | targetLost active _ _ | ended active _ => cases active
    refine ⟨?_, ?_⟩
    · change after p (step p .halted input).state rest = .halted
      rw [hquiet.1, ih.1]
    · rw [callsOf_cons, hquiet.1, hquiet.2, ih.2]
      rfl

lemma after_snoc (p : Program) (state : State) (inputs : List Input) (input : Input) :
    after p state (inputs ++ [input]) = (step p (after p state inputs) input).state :=
  after_append p state inputs [input]

lemma callsOf_snoc (p : Program) (state : State) (inputs : List Input) (input : Input) :
    callsOf p state (inputs ++ [input]) =
      callsOf p state inputs ++ (step p (after p state inputs) input).calls := by
  rw [callsOf_append, callsOf_cons]
  simp [callsOf, run]

lemma State.active?_eq_some_iff {state : State} {task : String} :
    state.active? = some task ↔ state = .running task := by
  cases state <;> simp [State.active?]

/-- An idle machine enters its start task. -/
lemma start_idle (hp : p.Closed) :
    ∃ d, p.definition? p.start = some d ∧ (step p .idle .start).state = .running p.start ∧
      (step p .idle .start).calls = [startCall d] := by
  have heffect := step_effect p .idle .start
  generalize step p .idle .start = turn at heffect
  cases heffect with
  | refused begun => exact absurd rfl begun
  | began _ found => exact ⟨_, found, rfl, rfl⟩
  | startLost _ lost =>
    have := hp.start
    simp [lost] at this

/-- A machine is started only once. -/
lemma start_quiet {state : State} (h : state ≠ .idle) :
    (step p state .start).state = state ∧ (step p state .start).calls = [] := by
  have heffect := step_effect p state .start
  generalize step p state .start = turn at heffect
  cases heffect with
  | refused _ => exact ⟨rfl, rfl⟩
  | began fresh _ | startLost fresh _ => exact absurd fresh h

/-- An event of the active task that leads to another one ends the stay there. -/
lemma deliver_next (hp : p.Closed) {task event next : String}
    (hleads : p.dispatch task event = .next next) :
    ∃ d, p.definition? next = some d ∧
      (step p (.running task) (.deliver task event)).state = .running next ∧
      (step p (.running task) (.deliver task event)).calls = [.stop task, startCall d] := by
  have heffect := step_effect p (.running task) (.deliver task event)
  generalize step p (.running task) (.deliver task event) = turn at heffect
  cases heffect with
  | ignored inactive => exact absurd rfl inactive
  | unhandled _ leads | ended _ leads =>
    rw [hleads] at leads
    cases leads
  | moved _ leads found =>
    cases hleads.symm.trans leads
    exact ⟨_, found, rfl, rfl⟩
  | targetLost _ leads lost =>
    have := hp.next leads
    simp [lost] at this

/-- An event of the active task that ends the mission. -/
lemma deliver_terminate {task event : String} (hleads : p.dispatch task event = .terminate) :
    (step p (.running task) (.deliver task event)).state = .halted ∧
      (step p (.running task) (.deliver task event)).calls = [.stop task, .finish] := by
  have heffect := step_effect p (.running task) (.deliver task event)
  generalize step p (.running task) (.deliver task event) = turn at heffect
  cases heffect with
  | ignored inactive => exact absurd rfl inactive
  | ended _ _ => exact ⟨rfl, rfl⟩
  | unhandled _ leads | moved _ leads _ | targetLost _ leads _ =>
    rw [hleads] at leads
    cases leads

/-- An event of a task that is not active, or without a rule, changes nothing. -/
lemma deliver_quiet {state : State} {task event : String}
    (h : state.active? ≠ some task ∨ p.dispatch task event = .unhandled) :
    (step p state (.deliver task event)).state = state ∧
      (step p state (.deliver task event)).calls = [] := by
  have heffect := step_effect p state (.deliver task event)
  generalize step p state (.deliver task event) = turn at heffect
  have hbusy : state = .running task → p.dispatch task event = .unhandled := by
    rintro rfl
    exact h.resolve_left fun hne => hne rfl
  cases heffect with
  | ignored _ => exact ⟨rfl, rfl⟩
  | unhandled _ _ => exact ⟨rfl, rfl⟩
  | moved active leads _ | targetLost active leads _ | ended active leads =>
    rw [hbusy active] at leads
    cases leads

end Machine

namespace Program
variable {mission : Mission}

lemma isSome_definition?_ofMission_iff {id : String} :
    ((ofMission mission).definition? id).isSome ↔ ∃ t ∈ mission.tasks.values, t.id = id := by
  unfold definition? ofMission
  rw [List.find?_isSome]
  simp [Task.definition]

/-- Where an event leads is read off a transition of some task. -/
lemma exists_transition_of_dispatch {id event target : String}
    (h : (ofMission mission).dispatch id event = .next target) :
    ∃ e ∈ mission.tasks.entries, ∃ x ∈ e.2.transitions, x.destination = .task target := by
  rw [dispatch_eq] at h
  cases hentry : entry? (ofMission mission) id with
  | none => simp [hentry, Dispatch.ofDestination?] at h
  | some entry =>
    obtain ⟨t, ht, rfl⟩ := List.mem_map.1 (List.mem_of_find?_eq_some hentry)
    obtain ⟨e, he, rfl⟩ := List.mem_map.1 ht
    rw [hentry, Option.bind_some, Task.entry_dispatch] at h
    cases hdest : e.2.dispatch event with
    | none => simp [hdest, Dispatch.ofDestination?] at h
    | some dest =>
      obtain ⟨x, hx, rfl⟩ := Option.map_eq_some_iff.1 hdest
      refine ⟨e, he, x, List.mem_of_find?_eq_some hx, ?_⟩
      cases hd : x.destination with
      | terminate => simp [hdest, hd, Dispatch.ofDestination?] at h
      | task next => simpa [hdest, hd, Dispatch.ofDestination?] using h

/-- A checked mission never leads to a task without a definition where each name that it lists is the
id of a task. -/
lemma closed_of_keys (hsound : mission.Sound)
    (hkeys : ∀ key ∈ mission.tasks.keys, ∃ t ∈ mission.tasks.values, t.id = key) :
    (ofMission mission).Closed := by
  refine ⟨isSome_definition?_ofMission_iff.2 (hkeys _ hsound.start), ?_⟩
  intro id event target hnext
  obtain ⟨e, he, x, hx, hdest⟩ := exists_transition_of_dispatch hnext
  have htarget : target ∈ mission.tasks.keys := (hsound.edges e he x hx).2 target hdest
  exact isSome_definition?_ofMission_iff.2 (hkeys target htarget)

lemma closed_ofMission (hsound : mission.Sound)
    (hid : ∀ e ∈ mission.tasks.entries, e.2.id = e.1) : (ofMission mission).Closed := by
  apply closed_of_keys hsound
  intro key hkey
  obtain ⟨e, he, rfl⟩ := List.mem_map.1 hkey
  exact ⟨e.2, List.mem_map_of_mem he, hid e he⟩

end Program

namespace Machine

/-- The contract between a program and its host over the inputs of a whole run. -/
structure KeepsContract (p : Program) (begin : String) (inputs : List Input) : Prop where
  /-- No input asks for a task without a definition. -/
  known : ∀ turn ∈ run p .idle inputs, ∀ id, turn.outcome ≠ .error (.unknownTask id)
  /-- The calls are none, an itinerary, or an itinerary with its end. -/
  log : (callsOf p .idle inputs = [] ∧ departures p .idle inputs = [] ∧
      after p .idle inputs = .idle) ∨
    ∃ stays last, Itinerary p begin stays last ∧
      ((callsOf p .idle inputs = visits stays last ∧
          departures p .idle inputs = stayDepartures stays ∧
          after p .idle inputs = .running last.taskId) ∨
        ∃ event, p.dispatch last.taskId event = .terminate ∧
          callsOf p .idle inputs = visits stays last ++ [.stop last.taskId, .finish] ∧
          departures p .idle inputs = stayDepartures stays ++ [(last.taskId, event)] ∧
          after p .idle inputs = .halted)
  /-- A start takes an idle machine to its first task, and no other machine anywhere. -/
  starts : after p .idle inputs = .idle → ∃ d, p.definition? begin = some d ∧
    after p .idle (inputs ++ [.start]) = .running begin ∧
      callsOf p .idle (inputs ++ [.start]) = callsOf p .idle inputs ++ [startCall d]
  restarts : after p .idle inputs ≠ .idle →
    after p .idle (inputs ++ [.start]) = after p .idle inputs ∧
      callsOf p .idle (inputs ++ [.start]) = callsOf p .idle inputs
  /-- An event of the active task leads on as the dispatch table says. -/
  moves : ∀ task event next, (after p .idle inputs).active? = some task →
    p.dispatch task event = .next next → ∃ d, p.definition? next = some d ∧
      after p .idle (inputs ++ [.deliver task event]) = .running next ∧
        callsOf p .idle (inputs ++ [.deliver task event]) =
          callsOf p .idle inputs ++ [.stop task, startCall d]
  ends : ∀ task event, (after p .idle inputs).active? = some task →
    p.dispatch task event = .terminate →
      after p .idle (inputs ++ [.deliver task event]) = .halted ∧
        callsOf p .idle (inputs ++ [.deliver task event]) =
          callsOf p .idle inputs ++ [.stop task, .finish]
  settled : after p .idle inputs = .halted → ∀ more,
    after p .idle (inputs ++ more) = .halted ∧
      callsOf p .idle (inputs ++ more) = callsOf p .idle inputs
  unmoved : ∀ task event, (after p .idle inputs).active? ≠ some task ∨
      p.dispatch task event = .unhandled →
    after p .idle (inputs ++ [.deliver task event]) = after p .idle inputs ∧
      callsOf p .idle (inputs ++ [.deliver task event]) = callsOf p .idle inputs

lemma keepsContract_of_closed (hp : p.Closed) (inputs : List Input) :
    KeepsContract p p.start inputs where
  known := (Logged.idle.run hp inputs).2
  log := by
    obtain ⟨hlog, -⟩ := Logged.idle.run hp inputs
    rw [List.nil_append, List.nil_append] at hlog
    generalize departures p .idle inputs = departed, callsOf p .idle inputs = calls,
      after p .idle inputs = state at hlog
    cases hlog with
    | idle => exact .inl ⟨rfl, rfl, rfl⟩
    | running way => exact .inr ⟨_, _, way, .inl ⟨rfl, rfl, rfl⟩⟩
    | halted way ends => exact .inr ⟨_, _, way, .inr ⟨_, ends, rfl, rfl, rfl⟩⟩
  starts := by
    intro hidle
    rw [after_snoc, callsOf_snoc, hidle]
    obtain ⟨d, hd, hstate, hcalls⟩ := start_idle hp
    exact ⟨d, hd, hstate, by rw [hcalls]⟩
  restarts := by
    intro hbegun
    obtain ⟨hstate, hcalls⟩ := start_quiet (p := p) hbegun
    rw [after_snoc, callsOf_snoc, hstate, hcalls, List.append_nil]
    exact ⟨rfl, rfl⟩
  moves := by
    intro task event next hactive hleads
    rw [after_snoc, callsOf_snoc, State.active?_eq_some_iff.1 hactive]
    obtain ⟨d, hd, hstate, hcalls⟩ := deliver_next hp hleads
    exact ⟨d, hd, hstate, by rw [hcalls]⟩
  ends := by
    intro task event hactive hleads
    rw [after_snoc, callsOf_snoc, State.active?_eq_some_iff.1 hactive]
    obtain ⟨hstate, hcalls⟩ := deliver_terminate hleads
    exact ⟨hstate, by rw [hcalls]⟩
  settled := by
    intro hhalted more
    rw [after_append, callsOf_append, hhalted]
    obtain ⟨hstate, hcalls⟩ := after_halted p more
    exact ⟨hstate, by rw [hcalls, List.append_nil]⟩
  unmoved := by
    intro task event hidle
    obtain ⟨hstate, hcalls⟩ := deliver_quiet hidle
    rw [after_snoc, callsOf_snoc, hstate, hcalls, List.append_nil]
    exact ⟨rfl, rfl⟩

/-- Whatever inputs it is given, the program of a compiled script keeps the contract, beginning
with the start task of its mission. -/
theorem keepsContract_of_compile {source : String} {areas : Waypoints}
    {output : Compilation.Output} (h : (Compilation.compile source areas).result = .ok output)
    (inputs : List Input) : KeepsContract output.program output.mission.start inputs := by
  obtain ⟨tokens, script, mission, -, -, hm, rfl⟩ := Compilation.compile_eq_ok_iff.1 h
  have his := Mission.isOf_of_ofScript hm
  have hsound := mission.validate_eq_ok_iff.1 his.valid
  exact keepsContract_of_closed (Program.closed_ofMission hsound fun e he => his.id_eq he) inputs

/-- A relay of two tasks that ends when the second is done. -/
def relaySource : String :=
  "task \x7b test A \x7b \x7d test B \x7b \x7d \x7d mission \x7b start: A transition(seen) A -> B \x7d"

theorem keepsContract_relay :
    ∃ output, (Compilation.compile relaySource Catalog.empty).result = .ok output ∧
      KeepsContract output.program output.mission.start
        [.deliver "A" "seen", .start, .deliver "B" "done", .deliver "A" "seen", .deliver "B" "done",
          .start] := by
  have hcompiles : (Compilation.compile relaySource Catalog.empty).result.toOption.isSome = true := by
    decide +kernel
  cases h : (Compilation.compile relaySource Catalog.empty).result with
  | error e =>
    rw [h] at hcompiles
    cases hcompiles
  | ok output => exact ⟨output, rfl, keepsContract_of_compile h _⟩

end Machine
end Sortie
