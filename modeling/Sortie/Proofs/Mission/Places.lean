import Sortie.Proofs.Compilation
import Sortie.Proofs.Script.Places

/-! A mission does not depend on places. Scripts that differ only in where things are written have
missions with the same program, or the same fault. -/
namespace Sortie

def Transition.unplaced (t : Transition) : Transition := { t with position := .first }

def Task.unplaced (t : Task) : Task :=
  { t with transitions := t.transitions.map Transition.unplaced, position := .first }

def Catalog.unplaced (tasks : Catalog Task) : Catalog Task := tasks.map fun _ t => t.unplaced

namespace Mission

def unplaced (m : Mission) : Mission := ⟨m.start, .first, m.tasks.unplaced⟩

/-- Only the fault of a repeated name speaks of a place. -/
def Fault.unplaced : Fault → Fault
  | duplicateTask id _ => duplicateTask id .first
  | f => f

end Mission

def CompileFault.unplaced : CompileFault → CompileFault
  | semantic f => semantic f.unplaced
  | f => f

namespace Carries
variable {ε ε' φ φ' α β γ δ : Type} {g : ε → ε'}

lemma bind {f : α → β} {h : γ → δ} {x : Except ε α} {y : Except ε' β} {k : α → Except ε γ}
    {l : β → Except ε' δ} (hx : Carries g f x y) (hk : ∀ a, Carries g h (k a) (l (f a))) :
    Carries g h (x >>= k) (y >>= l) := by
  cases hx with
  | ok a => exact hk a
  | error e => exact .error e

lemma map {f : α → β} {h : γ → δ} {x : Except ε α} {y : Except ε' β} (hx : Carries g f x y)
    {i : α → γ} {j : β → δ} (hij : ∀ a, j (f a) = h (i a)) : Carries g h (i <$> x) (j <$> y) := by
  cases hx with
  | ok a =>
    change Carries g h (.ok (i a)) (.ok (j (f a)))
    rw [hij]
    exact .ok _
  | error e => exact .error e

lemma mapError {f : α → β} {x : Except ε α} {y : Except ε' β} (hx : Carries g f x y)
    {i : ε → φ} {j : ε' → φ'} {g' : φ → φ'} (hg : ∀ e, j (g e) = g' (i e)) :
    Carries g' f (x.mapError i) (y.mapError j) := by
  cases hx with
  | ok a => exact .ok a
  | error e =>
    change Carries g' f (.error (i e)) (.error (j (g e)))
    rw [hg]
    exact .error _

/-- A run over a list, from what one step does. -/
lemma foldlM {f : γ → δ} {h : α → β} {k : γ → α → Except ε γ} {l : δ → β → Except ε' δ}
    (hk : ∀ c a, Carries g f (k c a) (l (f c) (h a))) (as : List α) (c : γ) :
    Carries g f (as.foldlM k c) ((as.map h).foldlM l (f c)) := by
  induction as generalizing c with
  | nil => exact .ok c
  | cons a as ih =>
    rw [List.map_cons, List.foldlM_cons, List.foldlM_cons]
    exact (hk c a).bind ih

lemma forM {h : α → β} {k : α → Except ε Unit} {l : β → Except ε' Unit}
    (hk : ∀ a, Carries g id (k a) (l (h a))) (as : List α) :
    Carries g id (as.forM k) ((as.map h).forM l) := by
  induction as with
  | nil => exact .ok ()
  | cons a as ih => exact (hk a).bind fun _ => ih

end Carries

/-! The attributes of a task. -/

namespace TaskDecl
open Mission (Demand)

/-- A value that is read alike with and without places. -/
abbrev Alike {α : Type} (x y : Resolved α) : Prop :=
  Carries (Located.unplaced Mission.Fault.unplaced) id x y

lemma find?_unplaced (d : TaskDecl) (key : String) :
    d.unplaced.find? key = (d.find? key).map Attribute.unplaced := by
  unfold find? unplaced
  rw [List.find?_map]
  rfl

lemma carries_required (d : TaskDecl) (key : String) :
    Carries (Located.unplaced Mission.Fault.unplaced) Attribute.unplaced (d.required key)
      (d.unplaced.required key) := by
  unfold required
  rw [find?_unplaced]
  cases d.find? key with
  | some a => exact .ok a
  | none => exact .error (⟨.missing d.kind d.name key, d.position⟩ : Located Mission.Fault)

lemma alike_mismatch {α : Type} (d : TaskDecl) (a : Attribute) (demand : Demand) :
    Alike (α := α) (.error (d.mismatch a demand)) (.error (d.unplaced.mismatch a.unplaced demand)) :=
  .error (d.mismatch a demand)

lemma alike_demand {α : Type} (d : TaskDecl) (a : Attribute) (demand : Demand) (value : Option α) :
    Alike (d.demand a demand value) (d.unplaced.demand a.unplaced demand value) := by
  cases value with
  | some v => exact .ok v
  | none => exact d.alike_mismatch a demand

lemma alike_number (d : TaskDecl) (key : String) : Alike (d.number key) (d.unplaced.number key) :=
  (d.carries_required key).bind fun a => d.alike_demand a .number a.value.number?

lemma alike_count (d : TaskDecl) (key : String) : Alike (d.count key) (d.unplaced.count key) :=
  (d.carries_required key).bind fun a => d.alike_demand a .count a.value.count?

lemma alike_word (d : TaskDecl) (key : String) : Alike (d.word key) (d.unplaced.word key) :=
  (d.carries_required key).bind fun a => d.alike_demand a .word a.value.word?

lemma alike_bounds (d : TaskDecl) (key : String) : Alike (d.bounds key) (d.unplaced.bounds key) := by
  unfold bounds
  rw [find?_unplaced]
  cases d.find? key with
  | none => exact .ok none
  | some a => exact (d.alike_demand a .bounds a.value.colour?).map fun _ => rfl

lemma alike_areaPoints (a : Attribute) (area : String) (index : Nat) (ws : List Waypoint) :
    Alike (areaPoints a area index ws) (areaPoints a.unplaced area index ws) := by
  induction ws generalizing index with
  | nil => exact .ok []
  | cons w ws ih =>
    unfold areaPoints
    cases w.toPoint with
    | error reason => exact .error (⟨.badPoint area index reason, a.position⟩ : Located Mission.Fault)
    | ok p => exact (ih (index + 1)).bind fun ps => .ok (p :: ps)

lemma alike_area (d : TaskDecl) (a : Attribute) (name : String) (areas : Waypoints) :
    Alike (d.area a name areas) (d.unplaced.area a.unplaced name areas) := by
  unfold area
  cases areas.get? name with
  | none => exact .error (⟨.unknownArea d.name name, a.position⟩ : Located Mission.Fault)
  | some ws =>
    cases ws with
    | nil => exact .error (⟨.emptyArea name d.name, a.position⟩ : Located Mission.Fault)
    | cons w ws => exact alike_areaPoints a name 0 (w :: ws)

lemma alike_path (d : TaskDecl) (areas : Waypoints) :
    Alike (d.path areas) (d.unplaced.path areas) := by
  refine (d.carries_required "way_points").bind fun a => ?_
  have hvalue : a.unplaced.value = a.value := rfl
  rw [hvalue]
  cases a.value with
  | tuples ts => exact d.alike_demand a .pointList (ts.mapM Expr.point?)
  | triple longitude latitude altitude => exact .ok _
  | area name => exact d.alike_area a name areas
  | _ => exact d.alike_mismatch a .path

lemma alike_survey (d : TaskDecl) (areas : Waypoints) :
    Alike (d.survey areas) (d.unplaced.survey areas) := by
  refine (d.alike_path areas).bind fun _ => ?_
  refine (d.alike_number "gimbal_pitch").bind fun _ => ?_
  refine (d.alike_number "drone_rotation").bind fun _ => ?_
  refine (d.alike_count "sample_rate").bind fun _ => ?_
  refine (d.alike_count "hover_delay").bind fun _ => ?_
  exact (d.alike_word "model").bind fun _ => .ok _

lemma alike_tracking (d : TaskDecl) : Alike d.tracking d.unplaced.tracking := by
  refine (d.alike_number "gimbal_pitch").bind fun _ => ?_
  refine (d.alike_word "class").bind fun _ => ?_
  refine (d.alike_word "model").bind fun _ => ?_
  refine (d.alike_bounds "lower_bound").bind fun _ => ?_
  exact (d.alike_bounds "upper_bound").bind fun _ => .ok _

lemma alike_work (d : TaskDecl) (areas : Waypoints) :
    Alike (d.work areas) (d.unplaced.work areas) := by
  unfold work
  have hkind : d.unplaced.kind = d.kind := rfl
  rw [hkind]
  cases d.kind with
  | detect => exact (d.alike_survey areas).bind fun _ => .ok _
  | track => exact d.alike_tracking.bind fun _ => .ok _
  | avoid =>
    refine (d.alike_survey areas).bind fun _ => ?_
    exact (d.alike_number "speed").bind fun _ => .ok _
  | test => exact .ok _

lemma carries_resolve (d : TaskDecl) (areas : Waypoints) :
    Carries (Located.unplaced Mission.Fault.unplaced) Task.unplaced (d.resolve areas).result
      (d.unplaced.resolve areas).result := by
  unfold resolve
  simp only [Traced.result_bind, Traced.result_emitAll, Traced.result_ofExcept]
  exact (d.alike_work areas).bind fun work => .ok (⟨d.name, work, [], d.position⟩ : Task)

end TaskDecl

/-! The graph of a mission. -/

lemma Task.explicit_unplaced (t : Task) :
    t.unplaced.explicit = t.explicit.map Transition.unplaced := by
  change (t.transitions.map Transition.unplaced).filter _ = _
  rw [List.filter_map]
  rfl

lemma Task.withDefault_unplaced (t : Task) : t.unplaced.withDefault = t.withDefault.unplaced := by
  have hdone : t.unplaced.hasExplicitDone = t.hasExplicitDone := by
    unfold hasExplicitDone
    rw [t.explicit_unplaced, List.any_map]
    rfl
  unfold withDefault
  rw [hdone]
  split
  · rfl
  · simp [unplaced, Transition.doneDefault, Transition.unplaced]

lemma Catalog.values_unplaced (tasks : Catalog Task) :
    tasks.unplaced.values = tasks.values.map Task.unplaced := by
  change (tasks.entries.map _).map _ = (tasks.entries.map _).map _
  rw [List.map_map, List.map_map]
  rfl

namespace Mission

lemma carries_declare (areas : Waypoints) (tasks : Catalog Task) (d : TaskDecl) :
    Carries (Located.unplaced Fault.unplaced) Catalog.unplaced (declare areas tasks d).result
      (declare areas tasks.unplaced d.unplaced).result := by
  have hget : tasks.unplaced.get? d.name = (tasks.get? d.name).map Task.unplaced :=
    tasks.get?_map _ d.name
  have hname : d.unplaced.name = d.name := rfl
  unfold declare
  rw [hname, hget]
  cases tasks.get? d.name with
  | some earlier =>
    exact .error (⟨.duplicateTask d.name earlier.position, d.position⟩ : Located Fault)
  | none =>
    simp only [Option.map_none, Traced.result_bind, Traced.result_emit]
    refine (d.carries_resolve areas).bind fun task => ?_
    have hinsert : (tasks.insert task.id task).unplaced =
        tasks.unplaced.insert task.unplaced.id task.unplaced := tasks.map_insert _ task.id task
    change Carries _ _ (.ok (tasks.insert task.id task))
      (.ok (tasks.unplaced.insert task.unplaced.id task.unplaced))
    rw [← hinsert]
    exact .ok _

lemma carries_connect (tasks : Catalog Task) (d : TransitionDecl) :
    Carries (Located.unplaced Fault.unplaced) Catalog.unplaced (connect tasks d)
      (connect tasks.unplaced d.unplaced) := by
  have hcontains : tasks.unplaced.contains d.unplaced.source = tasks.contains d.source :=
    tasks.contains_map _ d.source
  unfold connect
  rw [hcontains]
  split
  · have hmodify := tasks.map_modify (fun _ t => t.unplaced) d.source
      (u := fun t => { t with transitions := t.transitions ++ [.ofDecl d] })
      (v := fun t => { t with transitions := t.transitions ++ [.ofDecl d.unplaced] })
      (fun _ t => by simp [Task.unplaced, Transition.ofDecl, Transition.unplaced,
        TransitionDecl.unplaced])
    change Carries _ _ (.ok _) (.ok ((tasks.map fun _ t => t.unplaced).modify d.source _))
    rw [← hmodify]
    exact .ok _
  · exact .error (⟨.unknownSource d.condition d.source d.destination, d.position⟩ : Located Fault)

lemma carries_checkIds (m : Mission) :
    Carries (Located.unplaced Fault.unplaced) id m.checkIds m.unplaced.checkIds := by
  have hfind : (m.unplaced.tasks.values.find? fun t => reservedIds.contains t.id) =
      (m.tasks.values.find? fun t => reservedIds.contains t.id).map Task.unplaced := by
    change m.tasks.unplaced.values.find? _ = _
    rw [Catalog.values_unplaced, List.find?_map]
    rfl
  unfold checkIds
  rw [hfind]
  cases m.tasks.values.find? fun t => reservedIds.contains t.id with
  | some t => exact .error (⟨.reservedId t.id, t.position⟩ : Located Fault)
  | none => exact .ok ()

lemma carries_checkStart (m : Mission) :
    Carries (Located.unplaced Fault.unplaced) id m.checkStart m.unplaced.checkStart := by
  have hcontains : m.unplaced.tasks.contains m.unplaced.start = m.tasks.contains m.start :=
    m.tasks.contains_map _ m.start
  unfold checkStart
  rw [hcontains]
  split
  · exact .ok ()
  · exact .error (⟨.undeclaredStart m.start, m.startPosition⟩ : Located Fault)

lemma carries_checkTransition (m : Mission) (key : String) (t : Transition) :
    Carries (Located.unplaced Fault.unplaced) id (m.checkTransition key t)
      (m.unplaced.checkTransition key t.unplaced) := by
  unfold checkTransition
  have hsource : t.unplaced.source = t.source := rfl
  have hdestination : t.unplaced.destination = t.destination := rfl
  rw [hsource, hdestination]
  split
  · exact .error (⟨.misplaced t.condition t.source t.destination.name key, t.position⟩ :
      Located Fault)
  · cases t.destination with
    | terminate => exact .ok ()
    | task id =>
      have hcontains : m.unplaced.tasks.contains id = m.tasks.contains id :=
        m.tasks.contains_map _ id
      simp only [hcontains]
      split
      · exact .ok ()
      · exact .error (⟨.unknownDestination t.condition t.source id, t.position⟩ : Located Fault)

lemma carries_validate (m : Mission) :
    Carries (Located.unplaced Fault.unplaced) id m.validate m.unplaced.validate := by
  refine m.carries_checkIds.bind fun _ => ?_
  refine m.carries_checkStart.bind fun _ => ?_
  refine Carries.forM (fun e => ?_) m.tasks.entries
  exact Carries.forM (m.carries_checkTransition e.1) e.2.transitions

/-- The mission of a script is found alike with and without places. -/
theorem carries_ofScript (s : Script) (areas : Waypoints) :
    Carries (Located.unplaced Fault.unplaced) unplaced (ofScript s areas).result
      (ofScript s.unplaced areas).result := by
  unfold ofScript
  simp only [Traced.result_bind, Traced.result_ofExcept, Traced.result_emit, Traced.result_foldlM]
  have hdeclare : Carries (Located.unplaced Fault.unplaced) Catalog.unplaced
      (s.tasks.foldlM (fun tasks d => (declare areas tasks d).result) Catalog.empty)
      (s.unplaced.tasks.foldlM (fun tasks d => (declare areas tasks d).result) Catalog.empty) :=
    Carries.foldlM (carries_declare areas) s.tasks Catalog.empty
  refine hdeclare.bind fun declared => ?_
  refine (Carries.foldlM carries_connect s.transitions declared).bind fun connected => ?_
  generalize hm : (⟨s.start, s.startPosition, connected.map fun _ t => t.withDefault⟩ : Mission) = m
  have hm' : (⟨s.unplaced.start, s.unplaced.startPosition,
      connected.unplaced.map fun _ t => t.withDefault⟩ : Mission) = m.unplaced := by
    rw [← hm]
    unfold unplaced
    congr 1
    apply Catalog.ext_entries
    simp [Catalog.unplaced, Task.withDefault_unplaced]
  rw [hm']
  exact m.carries_validate.bind fun _ => .ok m

end Mission

/-! The program of a mission. -/

lemma conditionArgs_unplaced (listed : List String) (ts : List Transition) :
    conditionArgs listed (ts.map Transition.unplaced) = conditionArgs listed ts := by
  induction ts generalizing listed with
  | nil => rfl
  | cons t ts ih =>
    rw [List.map_cons, conditionArgs, conditionArgs, ih, ih]
    rfl

lemma Task.definition_unplaced (t : Task) : t.unplaced.definition = t.definition := by
  have hargs : t.unplaced.transitionArgs = t.transitionArgs := by
    unfold transitionArgs
    rw [t.explicit_unplaced, List.any_map, conditionArgs_unplaced]
    rfl
  unfold definition
  rw [hargs]
  rfl

lemma Task.entry_unplaced (t : Task) : t.unplaced.entry = t.entry := by
  unfold entry unplaced
  rw [List.map_map]
  rfl

/-- The program of a mission has no place in it. -/
lemma Program.ofMission_unplaced (m : Mission) : ofMission m.unplaced = ofMission m := by
  have hkeys : m.tasks.unplaced.keys = m.tasks.keys := m.tasks.keys_map_eq _
  change Program.mk (m.tasks.unplaced.values.map Task.entry)
    (m.tasks.unplaced.values.map Task.definition) m.start m.tasks.unplaced.keys = _
  rw [Catalog.values_unplaced, List.map_map, List.map_map, hkeys]
  simp [Function.comp_def, Task.entry_unplaced, Task.definition_unplaced, ofMission]

/-! Both runs. -/

namespace Carries
variable {ε ε' α β : Type} {g : ε → ε'} {f : α → β} {x x' : Except ε α} {y : Except ε' β}

/-- Results with one image are alike. -/
lemma cases_of_common (h : Carries g f x y) (h' : Carries g f x' y) :
    (∃ a a', x = .ok a ∧ x' = .ok a' ∧ f a = f a') ∨
      ∃ e e', x = .error e ∧ x' = .error e' ∧ g e = g e' := by
  cases h with
  | ok a =>
    generalize hy : Except.ok (f a) = y at h'
    cases h' with
    | ok a' => exact .inl ⟨a, a', rfl, rfl, Except.ok.inj hy⟩
    | error e' => cases hy
  | error e =>
    generalize hy : Except.error (g e) = y at h'
    cases h' with
    | ok a' => cases hy
    | error e' => exact .inr ⟨e, e', rfl, rfl, Except.error.inj hy⟩

end Carries

lemma Mission.Fault.unplaced_cases (f : Mission.Fault) :
    f.unplaced = f ∨ ∃ id p, f = .duplicateTask id p := by
  cases f <;> simp [unplaced]

lemma Mission.Fault.eq_or_duplicate {f f' : Mission.Fault} (h : f.unplaced = f'.unplaced) :
    f = f' ∨ ∃ id p p', f = .duplicateTask id p ∧ f' = .duplicateTask id p' := by
  rcases f.unplaced_cases with hf | ⟨id, p, rfl⟩
  · rcases f'.unplaced_cases with hf' | ⟨id', p', rfl⟩
    · exact .inl (hf.symm.trans (h.trans hf'))
    · exact .inr ⟨id', .first, p', hf.symm.trans h, rfl⟩
  · rcases f'.unplaced_cases with hf' | ⟨id', p', rfl⟩
    · exact .inr ⟨id, p, .first, rfl, hf'.symm.trans h.symm⟩
    · cases h
      exact .inr ⟨id, p, p', rfl, rfl⟩

/-- Faults that differ in places at most have one label and one message, unless a name is
repeated. -/
lemma CompileFault.label_and_message_eq {f f' : CompileFault} (h : f.unplaced = f'.unplaced) :
    f.label = f'.label ∧ (f.message = f'.message ∨
      ∃ id p p', f = .semantic (.duplicateTask id p) ∧ f' = .semantic (.duplicateTask id p')) := by
  cases f with
  | lexical f =>
    cases f' <;> cases h
    exact ⟨rfl, .inl rfl⟩
  | grammatical f =>
    cases f' <;> cases h
    exact ⟨rfl, .inl rfl⟩
  | semantic f =>
    cases f' with
    | semantic f' =>
      rcases Mission.Fault.eq_or_duplicate (CompileFault.semantic.inj h) with
        rfl | ⟨id, p, p', rfl, rfl⟩
      · exact ⟨rfl, .inl rfl⟩
      · exact ⟨rfl, .inr ⟨id, p, p', rfl, rfl⟩⟩
    | _ => cases h

namespace Compilation

lemma carries_analyze (ts : List Token) (areas : Waypoints) :
    Carries (Located.unplaced CompileFault.unplaced) Mission.unplaced (analyze ts areas).result
      (analyze (ts.map Token.unplaced) areas).result := by
  unfold analyze parse
  simp only [Traced.result_bind, Traced.result_ofExcept, Traced.result_mapError]
  have hparse : Carries (Located.unplaced CompileFault.unplaced) Script.unplaced
      ((Script.parse ts).mapError (Located.map .grammatical))
      ((Script.parse (ts.map Token.unplaced)).mapError (Located.map .grammatical)) :=
    (Script.carries_parse ts).mapError fun _ => rfl
  refine hparse.bind fun script => ?_
  exact (Mission.carries_ofScript script areas).mapError fun _ => rfl

/-- The layout of a script has no part in its program: token lists of the same kinds have the same
program with the same text, or faults with the same label and message. Only the message about a
repeated name quotes a place. -/
theorem analyze_of_kinds_eq {ts us : List Token} (h : ts.map Token.kind = us.map Token.kind)
    (areas : Waypoints) :
    (∃ m m', (analyze ts areas).result = .ok m ∧ (analyze us areas).result = .ok m' ∧
      (ofMission m).program = (ofMission m').program ∧
      (ofMission m).python = (ofMission m').python) ∨
    ∃ e e', (analyze ts areas).result = .error e ∧ (analyze us areas).result = .error e' ∧
      e.fault.label = e'.fault.label ∧ (e.fault.message = e'.fault.message ∨
        ∃ id p p', e.fault = .semantic (.duplicateTask id p) ∧
          e'.fault = .semantic (.duplicateTask id p')) := by
  have hts := carries_analyze ts areas
  have hus := carries_analyze us areas
  rw [← Token.map_unplaced_eq_iff.2 h] at hus
  rcases hts.cases_of_common hus with ⟨m, m', hm, hm', heq⟩ | ⟨e, e', he, he', heq⟩
  · have hprogram : Program.ofMission m = Program.ofMission m' := by
      rw [← Program.ofMission_unplaced m, heq, Program.ofMission_unplaced]
    have hpython : (ofMission m).python = (ofMission m').python := by
      change (Program.ofMission m).python = (Program.ofMission m').python
      rw [hprogram]
    exact .inl ⟨m, m', hm, hm', hprogram, hpython⟩
  · exact .inr ⟨e, e', he, he', CompileFault.label_and_message_eq (congrArg Located.fault heq)⟩

/-- A script in which a name is repeated, all of it at one place. -/
def repeatedName (p : Position) : List Token :=
  [.keyword .task, .mark .openBrace, .keyword .test, .name "hold", .mark .openBrace,
    .mark .closeBrace, .keyword .test, .name "hold", .mark .openBrace, .mark .closeBrace,
    .mark .closeBrace, .keyword .mission, .mark .openBrace, .keyword .start, .mark .colon,
    .name "hold", .mark .closeBrace, .finish].map fun k => ⟨k, p⟩

theorem analyze_repeatedName :
    ∃ e e', (analyze (repeatedName ⟨1, 1⟩) .empty).result = .error e ∧
      (analyze (repeatedName ⟨7, 3⟩) .empty).result = .error e' ∧
      e.fault.label = e'.fault.label ∧ (e.fault.message = e'.fault.message ∨
        ∃ id p p', e.fault = .semantic (.duplicateTask id p) ∧
          e'.fault = .semantic (.duplicateTask id p')) := by
  have hkinds : (repeatedName ⟨1, 1⟩).map Token.kind = (repeatedName ⟨7, 3⟩).map Token.kind := rfl
  have hfails : (analyze (repeatedName ⟨1, 1⟩) .empty).result.toOption.isSome = false := by
    decide +kernel
  rcases analyze_of_kinds_eq hkinds .empty with ⟨m, _, hm, _⟩ | herror
  · rw [hm] at hfails
    cases hfails
  · exact herror

end Compilation
end Sortie
