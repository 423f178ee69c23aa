import Sortie.Proofs.Mission.Description
import Sortie.Proofs.Mission.Schema

/-! The scripts that describe a mission. The analysis of a script reports the first requirement that
the script does not meet. -/
namespace Sortie
open Mission (Demand)
open Requirement (Decides FirstUnmet)

namespace Script
variable (s : Script) (areas : Waypoints)

/-- The names of the declared tasks. -/
def names : List String := s.tasks.map TaskDecl.name

/-- Every declared task has a name that no earlier one has, and attributes that fit its kind. -/
def declarationRequirements (earlier : List TaskDecl) :
    List TaskDecl → List (Requirement (Located Mission.Fault))
  | [] => []
  | d :: ds =>
    (earlier.map fun e => ⟨e.name ≠ d.name, ⟨.duplicateTask d.name e.position, d.position⟩⟩) ++
      d.requirements areas ++ declarationRequirements (earlier ++ [d]) ds

def sourceRequirement (t : TransitionDecl) : Requirement (Located Mission.Fault) :=
  ⟨t.source ∈ s.names, ⟨.unknownSource t.condition t.source t.destination, t.position⟩⟩

def nameRequirement (d : TaskDecl) : Requirement (Located Mission.Fault) :=
  ⟨d.name ∉ Mission.reservedIds, ⟨.reservedId d.name, d.position⟩⟩

def startRequirement : Requirement (Located Mission.Fault) :=
  ⟨s.start ∈ s.names, ⟨.undeclaredStart s.start, s.startPosition⟩⟩

def destinationRequirement (t : TransitionDecl) : Requirement (Located Mission.Fault) :=
  ⟨t.destination = terminateName ∨ t.destination ∈ s.names,
    ⟨.unknownDestination t.condition t.source t.destination, t.position⟩⟩

/-- What a script has to meet, in the order in which it is looked at: the declarations, the sources
of the transitions, the names, the start and, task by task, the destinations. -/
def requirements : List (Requirement (Located Mission.Fault)) :=
  declarationRequirements areas [] s.tasks ++ (s.transitions.map s.sourceRequirement ++
    (s.tasks.map nameRequirement ++ s.startRequirement ::
      s.tasks.flatMap fun d => (s.leaving d.name).map s.destinationRequirement))

end Script

namespace Mission
variable {areas : Waypoints} {script : Script}

/-- A new name differs from all earlier ones; the fault names the place of the one it repeats. -/
lemma decides_lookup (d : TaskDecl) {earlier : List TaskDecl} {entries : List (String × Task)}
    (h : List.Forall₂ (Enters areas) earlier entries) :
    Decides (earlier.map fun e => ⟨e.name ≠ d.name, ⟨.duplicateTask d.name e.position, d.position⟩⟩)
      (match entries.lookup d.name with
        | some t => .error (⟨.duplicateTask d.name t.position, d.position⟩ : Located Mission.Fault)
        | none => .ok ()) := by
  induction h with
  | nil => exact .ok ()
  | @cons e entry earlier entries he _ ih =>
    obtain ⟨work, -, rfl⟩ := he
    rw [List.lookup_cons, List.map_cons]
    by_cases hname : d.name = e.name
    · simp only [hname, beq_self_eq_true]
      exact .failed (.here (by simp))
    · simp only [beq_eq_false_iff_ne.2 hname]
      exact .cons_met (Ne.symm hname) ih

lemma decides_declare (d : TaskDecl) {earlier : List TaskDecl} {tasks : Catalog Task}
    (h : List.Forall₂ (Enters areas) earlier tasks.entries) :
    Decides ((earlier.map fun e => ⟨e.name ≠ d.name, ⟨.duplicateTask d.name e.position, d.position⟩⟩)
      ++ d.requirements areas) (declare areas tasks d).result := by
  have hdeclare : (declare areas tasks d).result =
      (match tasks.entries.lookup d.name with
        | some t => .error (⟨.duplicateTask d.name t.position, d.position⟩ : Located Mission.Fault)
        | none => .ok ()) >>= fun _ =>
      (fun work => tasks.insert d.name ⟨d.name, work, [], d.position⟩) <$> d.work areas := by
    unfold declare Catalog.get?
    cases tasks.entries.lookup d.name with
    | some t => rfl
    | none =>
      unfold TaskDecl.resolve
      cases d.work areas <;> rfl
  rw [hdeclare]
  exact (decides_lookup d h).bind fun _ _ => d.decides_work.map _

lemma decides_declarations {ds earlier : List TaskDecl} {tasks : Catalog Task}
    (h : List.Forall₂ (Enters areas) earlier tasks.entries) :
    Decides (Script.declarationRequirements areas earlier ds)
      (ds.foldlM (declare areas) tasks).result := by
  rw [Traced.result_foldlM]
  induction ds generalizing earlier tasks with
  | nil => exact .ok tasks
  | cons d ds ih =>
    rw [List.foldlM_cons]
    refine (decides_declare d h).bind ?_
    intro tasks' htasks'
    obtain ⟨hnew, e, he, rfl⟩ := declare_eq_ok_iff.1 htasks'
    apply ih
    rw [Catalog.entries_insert_of_new _ _ (fst_of_enters d e he ▸ hnew)]
    exact List.rel_append h (.cons he .nil)

lemma decides_sources {ds : List TransitionDecl} {tasks : Catalog Task}
    (h : tasks.keys = script.names) :
    Decides (ds.map script.sourceRequirement) (ds.foldlM connect tasks) := by
  induction ds generalizing tasks with
  | nil => exact .ok tasks
  | cons d ds ih =>
    rw [List.foldlM_cons, List.map_cons]
    apply Decides.cons_bind
    · unfold connect Script.sourceRequirement
      rw [← h]
      by_cases hsource : d.source ∈ tasks.keys
      · rw [if_pos ((tasks.contains_iff _).2 hsource)]
        exact .passed (by simpa using hsource)
      · rw [if_neg (by simpa [Catalog.contains_iff] using hsource)]
        exact .failed (.here hsource)
    · intro tasks' htasks'
      obtain ⟨-, rfl⟩ := connect_eq_ok_iff.1 htasks'
      exact ih (by rw [Catalog.keys_map_eq, h])

lemma taskOf_position (d : TaskDecl) (work : Work) :
    (taskOf script d work).position = d.position := by
  unfold taskOf Task.withDefault
  split <;> rfl

lemma decides_checkIds {m : Mission}
    (h : List.Forall₂ (Lists script areas) script.tasks m.tasks.entries) :
    Decides (script.tasks.map Script.nameRequirement) m.checkIds := by
  have hvalues : m.tasks.values.map (fun t =>
      (⟨t.id ∉ reservedIds, ⟨.reservedId t.id, t.position⟩⟩ :
        Requirement (Located Mission.Fault))) =
      script.tasks.map Script.nameRequirement := by
    unfold Catalog.values
    rw [List.map_map]
    apply map_eq_of_forall₂ _ h
    rintro d e ⟨work, -, rfl⟩
    simp [Script.nameRequirement, taskOf_id, taskOf_position]
  rw [← hvalues]
  unfold checkIds
  induction m.tasks.values with
  | nil => exact .ok ()
  | cons t ts ih =>
    rw [List.find?_cons, List.map_cons]
    by_cases ht : t.id ∈ reservedIds
    · rw [List.contains_iff_mem.2 ht]
      exact .failed (.here (by simpa using ht))
    · have hfree : reservedIds.contains t.id = false := by simpa using ht
      rw [hfree]
      exact .cons_met ht ih

lemma decides_checkStart {m : Mission} (hstart : m.start = script.start)
    (hposition : m.startPosition = script.startPosition) (hkeys : m.tasks.keys = script.names) :
    Decides [script.startRequirement] m.checkStart := by
  unfold checkStart Script.startRequirement
  rw [hstart, hposition, ← hkeys]
  by_cases h : script.start ∈ m.tasks.keys
  · rw [if_pos ((m.tasks.contains_iff _).2 h)]
    exact .passed (by simpa using h)
  · rw [if_neg (by simpa [Catalog.contains_iff] using h)]
    exact .failed (.here h)

lemma decides_checkTransition {m : Mission} (hkeys : m.tasks.keys = script.names)
    (t : TransitionDecl) :
    Decides [script.destinationRequirement t] (m.checkTransition t.source (.ofDecl t)) := by
  unfold checkTransition Script.destinationRequirement
  rw [← hkeys]
  by_cases hend : t.destination = terminateName
  · simp only [Transition.ofDecl, Destination.ofName, hend, ne_eq, not_true_eq_false, if_true,
      if_false]
    exact .passed (by simp)
  · simp only [Transition.ofDecl, Destination.ofName, hend, ne_eq, not_true_eq_false, if_false]
    by_cases hknown : t.destination ∈ m.tasks.keys
    · rw [if_pos ((m.tasks.contains_iff _).2 hknown)]
      exact .passed (by simpa using hknown)
    · rw [if_neg (by simpa [Catalog.contains_iff] using hknown)]
      exact .failed (.here (by simpa using hknown))

/-- Of the transitions of a task only the written ones can lead astray. -/
lemma decides_transitions {m : Mission} (hkeys : m.tasks.keys = script.names) (d : TaskDecl)
    (work : Work) :
    Decides ((script.leaving d.name).map script.destinationRequirement)
      ((taskOf script d work).transitions.forM (m.checkTransition d.name)) := by
  have hwritten : Decides ((script.leaving d.name).map script.destinationRequirement)
      (((script.leaving d.name).map Transition.ofDecl).forM (m.checkTransition d.name)) := by
    rw [List.map_eq_flatMap]
    apply Decides.forM
    rw [List.forall₂_map_right_iff, List.forall₂_same]
    intro t ht
    have hsource : t.source = d.name := by simpa using (List.mem_filter.1 ht).2
    rw [← hsource]
    exact decides_checkTransition hkeys t
  unfold taskOf Task.withDefault
  split
  · exact hwritten
  · have hdefault : m.checkTransition d.name (.doneDefault d.name d.position) = .ok () := by
      simp [checkTransition, Transition.doneDefault]
    rw [← List.append_nil (List.map _ _)]
    apply hwritten.forM_append
    change Decides []
      (m.checkTransition d.name (.doneDefault d.name d.position) >>= fun _ => pure ())
    rw [hdefault]
    exact .ok ()

lemma decides_validate {m : Mission} (hstart : m.start = script.start)
    (hposition : m.startPosition = script.startPosition)
    (h : List.Forall₂ (Lists script areas) script.tasks m.tasks.entries) :
    Decides (script.tasks.map Script.nameRequirement ++ script.startRequirement ::
      script.tasks.flatMap fun d => (script.leaving d.name).map script.destinationRequirement)
      m.validate := by
  have hkeys : m.tasks.keys = script.names := map_eq_of_forall₂ fst_of_lists h
  unfold validate
  refine (decides_checkIds h).bind fun _ _ => ?_
  refine (decides_checkStart hstart hposition hkeys).cons_bind fun _ _ => ?_
  apply Decides.forM
  refine h.imp ?_
  rintro d e ⟨work, -, rfl⟩
  exact decides_transitions hkeys d work

lemma keys_of_declare {declared : Catalog Task}
    (h : (script.tasks.foldlM (declare areas) Catalog.empty).result = .ok declared) :
    declared.keys = script.names := by
  obtain ⟨new, hnew, henters⟩ := foldlM_declare_entries h
  unfold Catalog.keys
  rw [hnew]
  exact map_eq_of_forall₂ fst_of_enters henters

/-- The analysis of a script succeeds where all requirements are met, and otherwise reports the
first that is not. -/
lemma decides_ofScript (script : Script) (areas : Waypoints) :
    Decides (script.requirements areas) (ofScript script areas).result := by
  unfold ofScript Script.requirements
  simp only [Traced.result_bind, Traced.result_ofExcept]
  have hempty : List.Forall₂ (Enters areas) [] (Catalog.empty : Catalog Task).entries := .nil
  refine (decides_declarations hempty).bind ?_
  intro declared hdeclared
  have hkeys : declared.keys = script.names := keys_of_declare hdeclared
  refine (decides_sources hkeys).bind ?_
  intro tasks hconnect
  have hvalid := decides_validate (m := ⟨script.start, script.startPosition, _⟩) rfl rfl
    (lists_of_connect hdeclared hconnect).1
  exact hvalid.map fun _ => _

end Mission

namespace Expr

/-- The values that a survey can follow: a list of triples, a triple, or an area that is known, has
points and is written in numbers. -/
def IsPath (areas : Waypoints) (e : Expr) : Prop :=
  (∃ ts, e = tuples ts ∧ ∀ t ∈ ts, t.length = 3) ∨ (∃ a b c, e = triple a b c) ∨
    ∃ name ws, e = area name ∧ areas.get? name = some ws ∧ ws ≠ [] ∧
      ∀ w ∈ ws, ∀ axis : Axis, w.ReadsOn axis

/-- The values that fit a demand. -/
def Fits (areas : Waypoints) (e : Expr) : Demand → Prop
  | .path => e.IsPath areas
  | demand => e.Meets demand

end Expr

/-- The first attribute with the key of a slot fits it; only an optional one may be left out. -/
structure TaskDecl.Fills (areas : Waypoints) (d : TaskDecl) (slot : Slot) : Prop where
  present : slot.optional = true ∨ ∃ a ∈ d.attributes, a.key = slot.key
  fits : ∀ a, d.Writes slot.key a → a.value.Fits areas slot.demand

/-- The scripts that describe a mission. -/
structure Script.WellFormed (s : Script) (areas : Waypoints) : Prop where
  distinct : s.names.Nodup
  unreserved : ∀ name ∈ s.names, name ≠ "terminate" ∧ name ≠ "default"
  attributes : ∀ d ∈ s.tasks, ∀ slot ∈ d.kind.schema, d.Fills areas slot
  sources : ∀ t ∈ s.transitions, t.source ∈ s.names
  destinations : ∀ t ∈ s.transitions, t.destination = "terminate" ∨ t.destination ∈ s.names
  start : s.start ∈ s.names

namespace TaskDecl
variable {areas : Waypoints} {d : TaskDecl}

lemma waypoint_met_iff {area : String} {a : Attribute} {w : Waypoint} {i : ℕ} :
    (∀ r ∈ w.requirements.map (Requirement.mapFault fun reason =>
      (⟨.badPoint area i reason, a.position⟩ : Located Mission.Fault)), r.met) ↔
      ∀ axis : Axis, w.ReadsOn axis := by
  simp only [Waypoint.requirements, Axis.all, List.map_cons, List.map_nil, List.forall_mem_cons,
    Requirement.mapFault, List.not_mem_nil, false_imp_iff, implies_true, and_true]
  constructor
  · rintro ⟨hlongitude, hlatitude, haltitude⟩ axis
    cases axis with
    | longitude => exact hlongitude
    | latitude => exact hlatitude
    | altitude => exact haltitude
  · intro h
    exact ⟨h .longitude, h .latitude, h .altitude⟩

lemma areaRequirements_met_iff {a : Attribute} {area : String} :
    (∀ r ∈ d.areaRequirements areas a area, r.met) ↔
      ∃ ws, areas.get? area = some ws ∧ ws ≠ [] ∧ ∀ w ∈ ws, ∀ axis : Axis, w.ReadsOn axis := by
  have hkeys := areas.get?_eq_none_iff area
  unfold areaRequirements
  cases hget : areas.get? area with
  | none => simpa [hget] using hkeys
  | some ws =>
    have hpoints : (∀ x ∈ ws.zipIdx, ∀ axis, x.1.ReadsOn axis) ↔
        ∀ w ∈ ws, ∀ axis, w.ReadsOn axis := by
      conv_rhs => rw [← List.zipIdx_map_fst 0 ws]
      rw [List.forall_mem_map]
    have hknown : area ∈ areas.keys := by simpa [hget] using hkeys
    simp only [List.forall_mem_cons, List.forall_mem_flatMap, waypoint_met_iff, hknown,
      Option.getD_some, Option.some.injEq, true_and, ne_eq, exists_eq_left', hpoints]

lemma valueRequirements_met_iff {a : Attribute} {demand : Demand} :
    (∀ r ∈ d.valueRequirements areas a demand, r.met) ↔ a.value.Fits areas demand := by
  cases demand with
  | path =>
    unfold valueRequirements Expr.Fits Expr.IsPath
    cases hvalue : a.value with
    | area name => simp [Expr.Meets, hvalue, areaRequirements_met_iff]
    | _ => simp [Expr.Meets, hvalue]
  | _ => simp [valueRequirements, Expr.Fits]

lemma slotRequirements_met_iff {slot : Slot} :
    (∀ r ∈ d.slotRequirements areas slot, r.met) ↔ d.Fills areas slot := by
  unfold slotRequirements
  simp only [List.forall_mem_cons, List.forall_mem_flatMap, List.forall_mem_map,
    Requirement.provided]
  constructor
  · rintro ⟨hpresent, hvalues⟩
    refine ⟨hpresent, ?_⟩
    intro a ha
    exact valueRequirements_met_iff.1 fun r hr => hvalues a ha.mem r hr ha
  · rintro ⟨hpresent, hfits⟩
    refine ⟨hpresent, ?_⟩
    intro a _ r hr ha
    exact valueRequirements_met_iff.2 (hfits a ha) r hr

lemma requirements_met_iff :
    (∀ r ∈ d.requirements areas, r.met) ↔ ∀ slot ∈ d.kind.schema, d.Fills areas slot := by
  simp only [requirements, List.forall_mem_flatMap, slotRequirements_met_iff]

lemma fault_of_mem_area {r : Requirement (Located Mission.Fault)} {a : Attribute}
    {area : String} (h : r ∈ d.areaRequirements areas a area) :
    r.fault.fault.isResolution = true ∧ r.fault.position = a.position := by
  rcases List.mem_cons.1 h with rfl | h
  · exact ⟨rfl, rfl⟩
  · rcases List.mem_cons.1 h with rfl | h
    · exact ⟨rfl, rfl⟩
    · obtain ⟨x, -, h⟩ := List.mem_flatMap.1 h
      obtain ⟨q, -, rfl⟩ := List.mem_map.1 h
      exact ⟨rfl, rfl⟩

lemma fault_of_mem_value {r : Requirement (Located Mission.Fault)} {a : Attribute}
    {demand : Demand} (h : r ∈ d.valueRequirements areas a demand) :
    r.fault.fault.isResolution = true ∧ r.fault.position = a.position := by
  cases demand with
  | path =>
    rcases List.mem_cons.1 h with rfl | h
    · exact ⟨rfl, rfl⟩
    · rcases List.mem_cons.1 h with rfl | h
      · exact ⟨rfl, rfl⟩
      · split at h
        · exact fault_of_mem_area h
        · cases h
  | _ =>
    obtain rfl := List.mem_singleton.1 h
    exact ⟨rfl, rfl⟩

/-- What is wrong with an attribute is a fault of resolution. It stands at the attribute, or at the
task if the attribute is missing. -/
lemma fault_of_mem {r : Requirement (Located Mission.Fault)} (h : r ∈ d.requirements areas) :
    r.fault.fault.isResolution = true ∧
      (r.fault.position = d.position ∨ ∃ a ∈ d.attributes, r.fault.position = a.position) := by
  obtain ⟨slot, -, h⟩ := List.mem_flatMap.1 h
  rcases List.mem_cons.1 h with rfl | h
  · exact ⟨rfl, .inl rfl⟩
  · obtain ⟨a, ha, h⟩ := List.mem_flatMap.1 h
    obtain ⟨q, hq, rfl⟩ := List.mem_map.1 h
    obtain ⟨hresolution, hposition⟩ := fault_of_mem_value hq
    exact ⟨hresolution, .inr ⟨a, ha, hposition⟩⟩

end TaskDecl

namespace Script
variable {s : Script} {areas : Waypoints}

lemma declarationRequirements_met_iff {earlier ds : List TaskDecl} :
    (∀ r ∈ declarationRequirements areas earlier ds, r.met) ↔
      (∀ d ∈ ds, ∀ e ∈ earlier, e.name ≠ d.name) ∧ (ds.map TaskDecl.name).Nodup ∧
        ∀ d ∈ ds, ∀ slot ∈ d.kind.schema, d.Fills areas slot := by
  induction ds generalizing earlier with
  | nil => simp [declarationRequirements]
  | cons d ds ih =>
    have hnew : d.name ∉ ds.map TaskDecl.name ↔ ∀ d' ∈ ds, d.name ≠ d'.name := by
      simp [eq_comm]
    simp only [declarationRequirements, List.forall_mem_append, List.forall_mem_map, ih,
      TaskDecl.requirements_met_iff, List.forall_mem_cons, List.map_cons, List.nodup_cons, hnew,
      List.not_mem_nil, false_imp_iff, implies_true, and_true]
    constructor
    · rintro ⟨⟨hfirst, hfills⟩, hlater, hnodup, hrest⟩
      exact ⟨⟨hfirst, fun d' hd' => (hlater d' hd').1⟩, ⟨fun d' hd' => (hlater d' hd').2, hnodup⟩,
        hfills, hrest⟩
    · rintro ⟨⟨hfirst, hlater⟩, ⟨hd, hnodup⟩, hfills, hrest⟩
      exact ⟨⟨hfirst, hfills⟩, fun d' hd' => ⟨hlater d' hd', hd d' hd'⟩, hnodup, hrest⟩

/-- A script meets all requirements exactly if it is well-formed. -/
theorem requirements_met_iff : (∀ r ∈ s.requirements areas, r.met) ↔ s.WellFormed areas := by
  simp only [requirements, List.forall_mem_append, List.forall_mem_cons, List.forall_mem_map,
    List.forall_mem_flatMap, declarationRequirements_met_iff, sourceRequirement, nameRequirement,
    startRequirement, destinationRequirement]
  constructor
  · rintro ⟨⟨-, hdistinct, hattributes⟩, hsources, hnames, hstart, hdestinations⟩
    refine ⟨hdistinct, ?_, hattributes, hsources, ?_, hstart⟩
    · intro name hname
      obtain ⟨d, hd, rfl⟩ := List.mem_map.1 hname
      simpa [Mission.reservedIds, terminateName] using hnames d hd
    · intro t ht
      obtain ⟨d, hd, hname⟩ := List.mem_map.1 (hsources t ht)
      exact hdestinations d hd t (List.mem_filter.2 ⟨ht, by simpa using hname.symm⟩)
  · rintro ⟨hdistinct, hunreserved, hattributes, hsources, hdestinations, hstart⟩
    refine ⟨⟨by simp, hdistinct, hattributes⟩, hsources, ?_, hstart, ?_⟩
    · intro d hd
      have hname : d.name ∈ s.names := List.mem_map.2 ⟨d, hd, rfl⟩
      simpa [Mission.reservedIds, terminateName] using hunreserved d.name hname
    · intro d _ t ht
      exact hdestinations t (List.mem_filter.1 ht).1

lemma mem_declarationRequirements {r : Requirement (Located Mission.Fault)}
    {earlier ds : List TaskDecl} (h : r ∈ declarationRequirements areas earlier ds) :
    ∃ d ∈ ds, (r.fault.fault.isResolution = false ∧ r.fault.position = d.position) ∨
      r ∈ d.requirements areas := by
  induction ds generalizing earlier with
  | nil => cases h
  | cons d ds ih =>
    rcases List.mem_append.1 h with h | h
    · rcases List.mem_append.1 h with h | h
      · obtain ⟨e, -, rfl⟩ := List.mem_map.1 h
        exact ⟨d, by simp, .inl ⟨rfl, rfl⟩⟩
      · exact ⟨d, by simp, .inr h⟩
    · obtain ⟨d', hd', hr⟩ := ih h
      exact ⟨d', by simp [hd'], hr⟩

/-- The faults of resolution are those of attributes; all others concern the graph. -/
lemma isResolution_iff {r : Requirement (Located Mission.Fault)} (h : r ∈ s.requirements areas)
    (hunmet : ¬ r.met) :
    r.fault.fault.isResolution = true ↔
      ∃ d ∈ s.tasks, ∃ q ∈ d.requirements areas, ¬ q.met ∧ q.fault = r.fault := by
  have hgraph : r.fault.fault.isResolution = false ∨ ∃ d ∈ s.tasks, r ∈ d.requirements areas := by
    simp only [requirements, List.mem_append, List.mem_cons, List.mem_map, List.mem_flatMap] at h
    rcases h with h | ⟨t, -, rfl⟩ | ⟨d, -, rfl⟩ | rfl | ⟨d, -, t, -, rfl⟩
    · obtain ⟨d, hd, hgraph | hr⟩ := mem_declarationRequirements h
      · exact .inl hgraph.1
      · exact .inr ⟨d, hd, hr⟩
    all_goals exact .inl rfl
  constructor
  · intro hresolution
    rcases hgraph with hgraph | ⟨d, hd, hr⟩
    · rw [hresolution] at hgraph
      cases hgraph
    · exact ⟨d, hd, r, hr, hunmet, rfl⟩
  · rintro ⟨d, -, q, hq, -, hfault⟩
    rw [← hfault]
    exact (TaskDecl.fault_of_mem hq).1

end Script

/-- A script describes a mission exactly if it is well-formed. Otherwise the first requirement that
it does not meet is reported, as a fault of resolution where an attribute does not fit. -/
theorem Mission.ofScript_reports_first (script : Script) (areas : Waypoints) :
    ((∃ mission, (ofScript script areas).result = .ok mission) ↔ script.WellFormed areas) ∧
      ∀ e, ((ofScript script areas).result = .error e ↔ FirstUnmet (script.requirements areas) e) ∧
        ((ofScript script areas).result = .error e → (e.fault.isResolution = true ↔
          ∃ d ∈ script.tasks, ∃ r ∈ d.requirements areas, ¬ r.met ∧ r.fault = e)) := by
  have hdecides := decides_ofScript script areas
  refine ⟨hdecides.exists_ok_iff.trans Script.requirements_met_iff, ?_⟩
  intro e
  refine ⟨hdecides.eq_error_iff, ?_⟩
  intro herror
  obtain ⟨r, hr, hunmet, rfl⟩ := (hdecides.eq_error_iff.1 herror).exists_unmet
  exact Script.isResolution_iff hr hunmet

/-- A tracking task whose model is written twice. -/
def Script.twoModels (first second : Expr) : Script where
  tasks := [⟨.track, "chase", [⟨"gimbal_pitch", .integer 4, ⟨2, 3⟩⟩, ⟨"class", .name "car", ⟨3, 3⟩⟩,
    ⟨"model", first, ⟨4, 3⟩⟩, ⟨"model", second, ⟨5, 3⟩⟩], ⟨1, 8⟩⟩]
  start := "chase"
  startPosition := ⟨7, 18⟩
  transitions := []

/-- Only the first of the two models counts. -/
theorem Mission.ofScript_reports_first_model :
    (Script.twoModels (.name "coco") (.integer 5)).WellFormed .empty ∧
    (∃ mission, (ofScript (.twoModels (.name "coco") (.integer 5)) .empty).result = .ok mission) ∧
    ¬ (Script.twoModels (.integer 5) (.name "coco")).WellFormed .empty ∧
    FirstUnmet ((Script.twoModels (.integer 5) (.name "coco")).requirements .empty)
      ⟨.mismatch "model" "chase" .word "a number", ⟨4, 3⟩⟩ := by
  have haccepted : ∃ mission,
      (ofScript (.twoModels (.name "coco") (.integer 5)) .empty).result = .ok mission :=
    ⟨_, rfl⟩
  have hrefused : (ofScript (.twoModels (.integer 5) (.name "coco")) .empty).result =
      .error ⟨.mismatch "model" "chase" .word "a number", ⟨4, 3⟩⟩ :=
    rfl
  obtain ⟨hfirst, -⟩ := ofScript_reports_first (.twoModels (.name "coco") (.integer 5)) .empty
  obtain ⟨hsecond, herror⟩ := ofScript_reports_first (.twoModels (.integer 5) (.name "coco")) .empty
  refine ⟨hfirst.1 haccepted, haccepted, ?_, (herror _).1.1 hrefused⟩
  rw [← hsecond, hrefused]
  simp

end Sortie
