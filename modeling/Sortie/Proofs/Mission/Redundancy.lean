import Mathlib.Data.List.Nodup
import Sortie.Proofs.Mission.Schema

/-! Attributes that do not count. A task is resolved from the first attribute with each key that its
kind knows; attributes with a warning can be left out, and the others put in any order. -/
namespace Sortie

namespace TaskDecl
variable {d : TaskDecl} {a : Attribute} {as : List Attribute} {key : String}

/-- The same declaration with other attributes. -/
def listing (d : TaskDecl) (as : List Attribute) : TaskDecl := { d with attributes := as }

/-! What is read of the attributes. -/

section Lookup
variable (areas : Waypoints)

lemma required_listing (h : (d.listing as).find? key = d.find? key) :
    (d.listing as).required key = d.required key := by
  unfold required
  rw [h]
  rfl

lemma number_listing (h : (d.listing as).find? key = d.find? key) :
    (d.listing as).number key = d.number key := by
  unfold number
  rw [required_listing h]
  rfl

lemma count_listing (h : (d.listing as).find? key = d.find? key) :
    (d.listing as).count key = d.count key := by
  unfold count
  rw [required_listing h]
  rfl

lemma word_listing (h : (d.listing as).find? key = d.find? key) :
    (d.listing as).word key = d.word key := by
  unfold word
  rw [required_listing h]
  rfl

lemma bounds_listing (h : (d.listing as).find? key = d.find? key) :
    (d.listing as).bounds key = d.bounds key := by
  unfold bounds
  rw [h]
  rfl

lemma path_listing (h : (d.listing as).find? "way_points" = d.find? "way_points") :
    (d.listing as).path areas = d.path areas := by
  unfold path
  rw [required_listing h]
  rfl

lemma survey_listing (h : ∀ key ∈ TaskKind.schema.survey.map Slot.key,
      (d.listing as).find? key = d.find? key) :
    (d.listing as).survey areas = d.survey areas := by
  unfold survey
  rw [path_listing areas (h _ (by decide)), number_listing (h "gimbal_pitch" (by decide)),
    number_listing (h "drone_rotation" (by decide)), count_listing (h "sample_rate" (by decide)),
    count_listing (h "hover_delay" (by decide)), word_listing (h "model" (by decide))]

lemma tracking_listing (h : ∀ key ∈ TaskKind.track.schema.map Slot.key,
      (d.listing as).find? key = d.find? key) :
    (d.listing as).tracking = d.tracking := by
  unfold tracking
  rw [number_listing (h "gimbal_pitch" (by decide)), word_listing (h "class" (by decide)),
    word_listing (h "model" (by decide)), bounds_listing (h "lower_bound" (by decide)),
    bounds_listing (h "upper_bound" (by decide))]

/-- A task depends on the first attributes with the keys of its kind, and on no others. -/
lemma work_listing (h : ∀ key ∈ d.kind.schema.map Slot.key,
      (d.listing as).find? key = d.find? key) :
    (d.listing as).work areas = d.work areas := by
  have hkind : (d.listing as).kind = d.kind := rfl
  unfold work
  rw [hkind]
  cases hk : d.kind with
  | detect =>
    rw [hk] at h
    rw [survey_listing areas h]
  | track =>
    rw [hk] at h
    rw [tracking_listing h]
  | avoid =>
    rw [hk] at h
    have hsurvey : ∀ key ∈ TaskKind.schema.survey.map Slot.key,
        (d.listing as).find? key = d.find? key :=
      fun key hkey => h key (List.mem_append_left _ hkey)
    rw [survey_listing areas hsurvey, number_listing (h "speed" (by decide))]
  | test => rfl

end Lookup

/-! Which attributes count. -/

/-- An attribute at a place repeats a key that stands before that place. -/
def repeatsAt (d : TaskDecl) (a : Attribute) (i : ℕ) : Bool :=
  (d.attributes.take i).any fun b => b.key = a.key

/-- The kind of the task has no slot with the key of an attribute. -/
def isUnknown (d : TaskDecl) (a : Attribute) : Bool :=
  !(d.kind.schema.map Slot.key).contains a.key

/-- The attributes that get no warning, neither as repeated nor as unknown. -/
def counted (d : TaskDecl) : List Attribute :=
  (d.attributes.zipIdx.filter fun (a, i) => !(d.repeatsAt a i || d.isUnknown a)).map Prod.fst

lemma repeatedAfter_eq {seen : List String} (before rest : List Attribute)
    (hseen : ∀ key, key ∈ seen ↔ key ∈ before.map Attribute.key) :
    repeatedAfter seen rest = ((rest.zipIdx before.length).filter fun (a, i) =>
      ((before ++ rest).take i).any fun b => b.key = a.key).map Prod.fst := by
  induction rest generalizing seen before with
  | nil => rfl
  | cons a rest ih =>
    have hfirst : ((before ++ a :: rest).take before.length).any (fun b => b.key = a.key) =
        seen.contains a.key := by
      rw [List.take_left, Bool.eq_iff_iff]
      simp [hseen]
    have hgrown : (before ++ [a]).length = before.length + 1 := by simp
    have hsplit : before ++ a :: rest = (before ++ [a]) ++ rest := by simp
    rw [repeatedAfter, List.zipIdx_cons, List.filter_cons]
    simp only [hfirst]
    by_cases ha : seen.contains a.key = true
    · have hstep : ∀ key, key ∈ seen ↔ key ∈ (before ++ [a]).map Attribute.key := by
        intro key
        rw [List.contains_iff_mem] at ha
        rw [List.map_append, List.mem_append, ← hseen, List.map_singleton, List.mem_singleton]
        exact ⟨.inl, fun h => h.elim id fun heq => heq ▸ ha⟩
      rw [if_pos ha, if_pos ha, List.map_cons, ih _ hstep, hgrown, hsplit]
    · have hstep : ∀ key, key ∈ seen ++ [a.key] ↔ key ∈ (before ++ [a]).map Attribute.key := by
        intro key
        rw [List.map_append, List.mem_append, List.mem_append, hseen, List.map_singleton]
      rw [if_neg ha, if_neg ha, ih _ hstep, hgrown, hsplit]

lemma repeated_eq (d : TaskDecl) :
    d.repeated = (d.attributes.zipIdx.filter fun (a, i) => d.repeatsAt a i).map Prod.fst :=
  repeatedAfter_eq [] d.attributes (by simp)

lemma unknown_eq (d : TaskDecl) :
    d.unknown = (d.attributes.zipIdx.filter fun (a, _) => d.isUnknown a).map Prod.fst := by
  have hfst : d.attributes = d.attributes.zipIdx.map Prod.fst := (List.zipIdx_map_fst 0 _).symm
  unfold unknown
  rw [d.kind.keys_eq]
  conv_lhs => rw [hfst, List.filter_map]
  rfl

def repeatedWarning (d : TaskDecl) (a : Attribute) : Event :=
  .warn "duplicate attribute ignored; first value is kept"
    [("task", d.name), ("key", a.key), ("line", toString a.position.line)]

def unknownWarning (d : TaskDecl) (a : Attribute) : Event :=
  .warn "unknown attribute ignored"
    [("task", d.name), ("kind", d.kind.word), ("key", a.key), ("line", toString a.position.line)]

lemma events_resolve_eq (d : TaskDecl) (areas : Waypoints) :
    (d.resolve areas).events = d.warnings := by
  unfold resolve
  cases d.work areas <;>
    simp [bind, Traced.bind, Traced.emitAll, Traced.ofExcept, pure, Traced.pure]

/-- What a task reports: a warning for each attribute that repeats a key, then one for each whose
key is unknown. -/
lemma events_resolve (d : TaskDecl) (areas : Waypoints) :
    (d.resolve areas).events =
      (d.attributes.zipIdx.filter fun (a, i) => d.repeatsAt a i).map
        (fun p => d.repeatedWarning p.1) ++
      (d.attributes.zipIdx.filter fun (a, _) => d.isUnknown a).map fun p => d.unknownWarning p.1 := by
  rw [events_resolve_eq, warnings, repeated_eq, unknown_eq, List.map_map, List.map_map]
  rfl

lemma writes_of_place {i : ℕ} (hi : d.attributes[i]? = some a) (hfirst : d.repeatsAt a i = false) :
    d.Writes a.key a := by
  obtain ⟨hlt, rfl⟩ := List.getElem?_eq_some_iff.1 hi
  refine ⟨rfl, d.attributes.take i, d.attributes.drop (i + 1), by simp, ?_⟩
  intro b hb
  simp only [repeatsAt, List.any_eq_false] at hfirst
  simpa using hfirst b hb

/-- An attribute counts where its kind has a slot with its key and it is the first with that key. -/
lemma mem_counted_iff :
    a ∈ d.counted ↔ a.key ∈ d.kind.schema.map Slot.key ∧ d.Writes a.key a := by
  unfold counted
  simp only [List.mem_map, List.mem_filter, Prod.exists, List.mem_zipIdx_iff_getElem?, Bool.not_or,
    Bool.and_eq_true, Bool.not_eq_true', isUnknown, Bool.not_eq_false', List.contains_iff_mem]
  constructor
  · rintro ⟨a, i, ⟨hi, hfirst, hknown⟩, rfl⟩
    exact ⟨hknown, writes_of_place hi hfirst⟩
  · rintro ⟨hknown, -, before, after, hsplit, hbefore⟩
    refine ⟨a, before.length, ⟨?_, ?_, hknown⟩, rfl⟩
    · simp [hsplit]
    · rw [repeatsAt, hsplit, List.take_left, List.any_eq_false]
      simpa using hbefore

lemma nodup_keys_counted (d : TaskDecl) : (d.counted.map Attribute.key).Nodup := by
  have hplaces : d.attributes.zipIdx.Pairwise fun p q => d.repeatsAt q.1 q.2 = false →
      p.1.key ≠ q.1.key := by
    rw [List.pairwise_iff_getElem]
    intro i j hi hj hij hfirst hkey
    simp only [List.getElem_zipIdx, Nat.zero_add, repeatsAt, List.any_eq_false] at hfirst hkey
    refine hfirst _ (List.mem_take_iff_getElem.2 ⟨i, ?_, rfl⟩) (by simpa using hkey)
    simp only [List.length_zipIdx] at hi hj
    omega
  unfold counted
  rw [List.map_map, List.Nodup, List.pairwise_map]
  refine (hplaces.filter _).imp_of_mem ?_
  rintro p ⟨b, j⟩ - hq hne
  have hmarked := (List.mem_filter.1 hq).2
  simp only [Bool.not_or, Bool.and_eq_true, Bool.not_eq_true'] at hmarked
  exact hne hmarked.1

/-- Where keys are distinct, every attribute is the first with its key. -/
lemma writes_iff_mem (hkeys : (d.attributes.map Attribute.key).Nodup) :
    d.Writes key a ↔ a ∈ d.attributes ∧ a.key = key := by
  constructor
  · intro h
    exact ⟨h.mem, h.1⟩
  · rintro ⟨hmem, rfl⟩
    obtain ⟨earlier, later, hsplit⟩ := List.append_of_mem hmem
    rw [hsplit, List.map_append, List.nodup_append] at hkeys
    refine ⟨rfl, earlier, later, hsplit, ?_⟩
    intro b hb
    exact hkeys.2.2 _ (List.mem_map_of_mem hb) _ (by simp)

section Rearranged
variable (h : as.Perm d.counted)
include h

lemma nodup_keys_of_perm : ((d.listing as).attributes.map Attribute.key).Nodup :=
  (h.map _).nodup_iff.2 d.nodup_keys_counted

lemma find?_of_perm (hknown : key ∈ d.kind.schema.map Slot.key) :
    (d.listing as).find? key = d.find? key := by
  ext a
  rw [find?_eq_some_iff, find?_eq_some_iff, writes_iff_mem (nodup_keys_of_perm h)]
  change a ∈ as ∧ a.key = key ↔ _
  rw [h.mem_iff, mem_counted_iff]
  constructor
  · rintro ⟨⟨-, hwrites⟩, rfl⟩
    exact hwrites
  · intro hwrites
    obtain rfl := hwrites.1
    exact ⟨⟨hknown, hwrites⟩, rfl⟩

lemma warnings_of_perm : (d.listing as).warnings = [] := by
  have hkeys := nodup_keys_of_perm h
  have hrepeated : (d.listing as).repeated = [] := by
    rw [repeated_eq, List.map_eq_nil_iff, List.filter_eq_nil_iff]
    rintro ⟨a, i⟩ hplace
    have hat : (d.listing as).attributes[i]? = some a := List.mem_zipIdx_iff_getElem?.1 hplace
    obtain ⟨hi, rfl⟩ := List.getElem?_eq_some_iff.1 hat
    simp only [repeatsAt, List.any_eq_true, decide_eq_true_eq, not_exists, not_and]
    intro b hb hkey
    obtain ⟨j, hj, rfl⟩ := List.mem_take_iff_getElem.1 hb
    rw [List.Nodup, List.pairwise_map, List.pairwise_iff_getElem] at hkeys
    exact hkeys j i (by omega) hi (by omega) hkey
  have hunknown : (d.listing as).unknown = [] := by
    unfold unknown
    rw [List.filter_eq_nil_iff, TaskKind.keys_eq]
    intro a ha
    have hknown : a.key ∈ (d.listing as).kind.schema.map Slot.key :=
      (mem_counted_iff.1 (h.mem_iff.1 ha)).1
    simpa only [Bool.not_eq_true', Bool.not_eq_false, List.contains_iff_mem] using hknown
  rw [warnings, hrepeated, hunknown]
  rfl

end Rearranged

/-- Leaving out every attribute with a warning and putting the others in any order changes neither
the task nor the fault, and no warning is left. The attributes that stay are those without a
warning: each has the key of a slot of its kind and is the first with that key. -/
theorem resolve_listing_of_perm (d : TaskDecl) (areas : Waypoints) (as : List Attribute)
    (h : as.Perm d.counted) :
    ((d.listing as).resolve areas).result = (d.resolve areas).result ∧
    ((d.listing as).resolve areas).events = [] ∧
    (∀ a ∈ as, a.key ∈ d.kind.schema.map Slot.key ∧ d.Writes a.key a) ∧
    (as.map Attribute.key).Nodup ∧
    (d.resolve areas).events =
      (d.attributes.zipIdx.filter fun (a, i) => d.repeatsAt a i).map
        (fun p => d.repeatedWarning p.1) ++
      (d.attributes.zipIdx.filter fun (a, _) => d.isUnknown a).map fun p => d.unknownWarning p.1 := by
  have hwork : (d.listing as).work areas = d.work areas :=
    work_listing areas fun key hkey => find?_of_perm h hkey
  refine ⟨?_, ?_, fun a ha => mem_counted_iff.1 (h.mem_iff.1 ha), nodup_keys_of_perm h,
    d.events_resolve areas⟩
  · unfold resolve
    simp only [Traced.result_bind, Traced.result_emitAll, Traced.result_ofExcept, hwork]
    rfl
  · rw [events_resolve_eq, warnings_of_perm h]

/-- A tracking task with a repeated key, a key of another kind and a value that does not fit. -/
def cluttered : TaskDecl :=
  ⟨.track, "chase", [⟨"model", .name "coco", ⟨2, 3⟩⟩, ⟨"speed", .integer 9, ⟨3, 3⟩⟩,
    ⟨"gimbal_pitch", .integer 4, ⟨4, 3⟩⟩, ⟨"model", .integer 5, ⟨5, 3⟩⟩,
    ⟨"class", .area "north", ⟨6, 3⟩⟩], ⟨1, 8⟩⟩

/-- The attributes that count, in another order. -/
def tidied : List Attribute :=
  [⟨"class", .area "north", ⟨6, 3⟩⟩, ⟨"model", .name "coco", ⟨2, 3⟩⟩,
    ⟨"gimbal_pitch", .integer 4, ⟨4, 3⟩⟩]

theorem resolve_listing_cluttered :
    tidied.Perm cluttered.counted ∧
    ((cluttered.listing tidied).resolve Catalog.empty).result =
      .error ⟨.mismatch "class" "chase" .word "a waypoint reference", ⟨6, 3⟩⟩ ∧
    ∀ a ∈ tidied, a.key ∈ TaskKind.track.schema.map Slot.key ∧ cluttered.Writes a.key a := by
  have hcounted : cluttered.counted = [⟨"model", .name "coco", ⟨2, 3⟩⟩,
      ⟨"gimbal_pitch", .integer 4, ⟨4, 3⟩⟩, ⟨"class", .area "north", ⟨6, 3⟩⟩] := rfl
  have hperm : tidied.Perm cluttered.counted := by
    rw [hcounted]
    exact (List.Perm.swap _ _ _).trans ((List.Perm.swap _ _ _).cons _)
  obtain ⟨hresult, -, hfirst, -⟩ := resolve_listing_of_perm cluttered Catalog.empty tidied hperm
  refine ⟨hperm, ?_, hfirst⟩
  rw [hresult]
  rfl

end TaskDecl
end Sortie
