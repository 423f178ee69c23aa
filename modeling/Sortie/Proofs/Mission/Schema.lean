import Sortie.Mission.Attributes
import Sortie.Proofs.Catalog
import Sortie.Proofs.Decimal.Integral
import Sortie.Proofs.Mission.Requirement

/-! What each kind of task asks of its attributes. Attributes are read in the order of the schema of
their task, and the first one that does not fit is reported. -/
namespace Sortie
open Mission (Demand)
open Requirement (Decides)

/-- A float that is a natural number up to a limit. -/
def Decimal.IsNatUpTo (limit : ℕ) (v : Float) : Prop :=
  ∃ n : ℕ, n ≤ limit ∧ (Binary.ofFloat v).value? = some (n : ℚ)

lemma Decimal.isNatUpTo_iff (limit : ℕ) (v : Float) :
    IsNatUpTo limit v ↔ ∃ n, (Binary.ofFloat v).toNat? = some n ∧ n ≤ limit := by
  simp only [IsNatUpTo, ← Binary.toNat?_eq_some_iff]
  constructor
  · rintro ⟨n, hn, hv⟩
    exact ⟨n, hv, hn⟩
  · rintro ⟨n, hv, hn⟩
    exact ⟨n, hn, hv⟩

namespace Expr
open Decimal (IsNatUpTo isNatUpTo_iff)

/-- The values that meet a demand. -/
def Meets (e : Expr) : Demand → Prop
  | .number => (∃ v, e = number v) ∨ ∃ n, e = integer n
  | .count => (∃ n, e = integer n ∧ n.toNat ≤ 2 ^ 32 - 1) ∨
      ∃ v, e = number v ∧ IsNatUpTo (2 ^ 32 - 1) v
  | .word => (∃ s, e = name s) ∨ ∃ s, e = text s
  | .bounds => ∃ a b c, e = triple a b c ∧ IsNatUpTo 255 a ∧ IsNatUpTo 255 b ∧ IsNatUpTo 255 c
  | .pointList => ∀ ts, e = tuples ts → ∀ t ∈ ts, t.length = 3
  | .path => (∃ ts, e = tuples ts) ∨ (∃ a b c, e = triple a b c) ∨ ∃ s, e = area s

lemma isSome_number? (e : Expr) : e.number?.isSome ↔ e.Meets .number := by
  cases e <;> simp [number?, Meets]

lemma isSome_count? (e : Expr) : e.count?.isSome ↔ e.Meets .count := by
  have hsize : ∀ n : ℕ, n < UInt32.size ↔ n ≤ 2 ^ 32 - 1 := by
    intro n
    simp only [UInt32.size]
    omega
  cases e with
  | integer n =>
    simp only [count?, Meets, hsize]
    split <;> simp_all
  | number v =>
    simp only [count?, Meets, hsize, isNatUpTo_iff]
    cases h : (Decimal.Binary.ofFloat v).toNat? with
    | none => simp [h]
    | some n =>
      simp only
      split <;> simp_all
  | _ => simp [count?, Meets]

lemma isSome_word? (e : Expr) : e.word?.isSome ↔ e.Meets .word := by
  cases e <;> simp [word?, Meets]

lemma isSome_channel? (v : Float) : (channel? v).isSome ↔ IsNatUpTo 255 v := by
  simp only [channel?, isNatUpTo_iff]
  cases (Decimal.Binary.ofFloat v).toNat? with
  | none => simp
  | some n =>
    simp only
    split <;> simp_all

lemma isSome_colour? (e : Expr) : e.colour?.isSome ↔ e.Meets .bounds := by
  cases e with
  | triple a b c =>
    simp only [colour?, Meets, triple.injEq, ← isSome_channel?]
    cases ha : channel? a <;> cases hb : channel? b <;> cases hc : channel? c <;> simp_all
  | _ => simp [colour?, Meets]

lemma isSome_point? (t : List Float) : (point? t).isSome ↔ t.length = 3 := by
  match t with
  | [] | [_] | [_, _] | [_, _, _] => simp [point?]
  | _ :: _ :: _ :: _ :: _ => simp [point?]

lemma isSome_mapM_point? (ts : List (List Float)) :
    (ts.mapM point?).isSome ↔ ∀ t ∈ ts, t.length = 3 := by
  induction ts with
  | nil => simp
  | cons t ts ih =>
    rw [List.mapM_cons, List.forall_mem_cons, ← ih, ← isSome_point?]
    cases point? t <;> cases ts.mapM point? <;> simp

end Expr

/-- The coordinate of a waypoint on an axis. -/
def Axis.of : Axis → Waypoint → String
  | longitude, w => w.longitude
  | latitude, w => w.latitude
  | altitude, w => w.altitude

def Axis.all : List Axis := [longitude, latitude, altitude]

/-- A waypoint whose coordinate on an axis is a number once blanks around it are dropped. -/
def Waypoint.ReadsOn (w : Waypoint) (axis : Axis) : Prop :=
  (Decimal.read (Text.trim (axis.of w))).isSome

/-- The coordinates of a waypoint are numbers. -/
def Waypoint.requirements (w : Waypoint) : List (Requirement CoordinateFault) :=
  Axis.all.map fun axis => ⟨w.ReadsOn axis, ⟨axis, axis.of w⟩⟩

lemma Decimal.read_trim (s : String) :
    Decimal.read (Text.trim s) = Decimal.readChars (Text.trimChars s.toList) := by
  simp [Decimal.read, Text.trim]

lemma Axis.read_eq_ok_iff (axis : Axis) (s : String) (v : Float) :
    axis.read s = .ok v ↔ Decimal.read (Text.trim s) = some v := by
  unfold Axis.read
  rw [Decimal.read_trim]
  cases Decimal.readChars (Text.trimChars s.toList) <;> simp

lemma Waypoint.decides_read (w : Waypoint) (axis : Axis) :
    Decides [⟨w.ReadsOn axis, ⟨axis, axis.of w⟩⟩] (axis.read (axis.of w)) := by
  unfold Axis.read ReadsOn
  rw [← Decimal.read_trim]
  cases Decimal.read (Text.trim (axis.of w)) with
  | none => exact .failed (.here (by simp))
  | some v => exact .passed (by simp)

lemma Waypoint.decides_toPoint (w : Waypoint) : Decides w.requirements w.toPoint := by
  unfold requirements toPoint
  refine (w.decides_read .longitude).cons_bind fun _ _ => ?_
  refine (w.decides_read .latitude).cons_bind fun _ _ => ?_
  exact (w.decides_read .altitude).cons_bind fun _ _ => .ok _

/-- An attribute that a kind of task reads: its key, what is demanded of its value, and whether it
may be left out. -/
structure Slot where
  key : String
  demand : Demand
  optional : Bool

/-- The attributes that a kind of task reads, in order. -/
def TaskKind.schema : TaskKind → List Slot
  | detect => survey
  | avoid => survey ++ [⟨"speed", .number, false⟩]
  | track => [⟨"gimbal_pitch", .number, false⟩, ⟨"class", .word, false⟩, ⟨"model", .word, false⟩,
      ⟨"lower_bound", .bounds, true⟩, ⟨"upper_bound", .bounds, true⟩]
  | test => []
where
  survey : List Slot := [⟨"way_points", .path, false⟩, ⟨"gimbal_pitch", .number, false⟩,
    ⟨"drone_rotation", .number, false⟩, ⟨"sample_rate", .count, false⟩,
    ⟨"hover_delay", .count, false⟩, ⟨"model", .word, false⟩]

/-- The keys that get no warning are those that are read. -/
lemma TaskKind.keys_eq (kind : TaskKind) : kind.keys = kind.schema.map Slot.key := by
  cases kind <;> rfl

lemma TaskKind.nodup_keys_schema (kind : TaskKind) : (kind.schema.map Slot.key).Nodup := by
  cases kind <;> decide

/-- The first attribute with a key: none of those before it has the key. -/
def TaskDecl.Writes (d : TaskDecl) (key : String) (a : Attribute) : Prop :=
  a.key = key ∧ ∃ earlier later, d.attributes = earlier ++ a :: later ∧ ∀ b ∈ earlier, b.key ≠ key

namespace TaskDecl
variable {d : TaskDecl} {key : String} {a : Attribute}

lemma find?_eq_some_iff : d.find? key = some a ↔ d.Writes key a := by
  unfold find? Writes
  rw [List.find?_eq_some_iff_append]
  simp

lemma required_eq_ok_iff : d.required key = .ok a ↔ d.Writes key a := by
  rw [← find?_eq_some_iff]
  unfold required
  cases d.find? key <;> simp

lemma Writes.mem (h : d.Writes key a) : a ∈ d.attributes :=
  List.mem_of_find?_eq_some (find?_eq_some_iff.2 h)

lemma Writes.unique {b : Attribute} (h : d.Writes key a) (h' : d.Writes key b) : b = a := by
  rw [← find?_eq_some_iff] at h h'
  exact Option.some.inj (h'.symm.trans h)

lemma find?_eq_none_iff : d.find? key = none ↔ ∀ a ∈ d.attributes, a.key ≠ key := by
  simp [find?]

end TaskDecl

namespace TaskDecl
variable (areas : Waypoints) (d : TaskDecl)

/-- An area that is referred to is known and has points, and their coordinates are numbers. -/
def areaRequirements (a : Attribute) (area : String) : List (Requirement (Located Mission.Fault)) :=
  ⟨area ∈ areas.keys, ⟨.unknownArea d.name area, a.position⟩⟩ ::
  ⟨areas.get? area ≠ some [], ⟨.emptyArea area d.name, a.position⟩⟩ ::
  ((areas.get? area).getD []).zipIdx.flatMap fun (w, i) =>
    w.requirements.map (.mapFault fun reason => ⟨.badPoint area i reason, a.position⟩)

/-- The value of an attribute has the demanded form. -/
def demandRequirement (a : Attribute) (demand : Demand) : Requirement (Located Mission.Fault) :=
  ⟨a.value.Meets demand, ⟨.mismatch a.key d.name demand a.value.describe, a.position⟩⟩

/-- What is demanded of the value of an attribute. -/
def valueRequirements (a : Attribute) : Demand → List (Requirement (Located Mission.Fault))
  | .path =>
    d.demandRequirement a .path :: d.demandRequirement a .pointList ::
    match a.value with
    | .area name => d.areaRequirements areas a name
    | _ => []
  | demand => [d.demandRequirement a demand]

/-- An attribute that may not be left out is there, and the first with its key has the value that is
demanded. -/
def slotRequirements (slot : Slot) : List (Requirement (Located Mission.Fault)) :=
  ⟨slot.optional = true ∨ ∃ a ∈ d.attributes, a.key = slot.key,
    ⟨.missing d.kind d.name slot.key, d.position⟩⟩ ::
  d.attributes.flatMap fun a =>
    (d.valueRequirements areas a slot.demand).map (.provided (d.Writes slot.key a))

/-- Everything that the kind of a task asks of its attributes. -/
def requirements : List (Requirement (Located Mission.Fault)) :=
  d.kind.schema.flatMap (d.slotRequirements areas)

variable {areas d}

@[simp] lemma met_demandRequirement {a : Attribute} {demand : Demand} :
    (d.demandRequirement a demand).met ↔ a.value.Meets demand := Iff.rfl

lemma decides_demand {α : Type} {a : Attribute} {demand : Demand} {value : Option α}
    (h : value.isSome ↔ a.value.Meets demand) :
    Decides [d.demandRequirement a demand] (d.demand a demand value) := by
  cases value with
  | none => exact .failed (.here (by simpa using h))
  | some v => exact .passed (by simpa using h)

/-- Of the attributes of a task only the first with the key of a slot can fail it. -/
lemma decides_slot {α : Type} {slot : Slot} {a : Attribute} {x : Resolved α}
    (ha : d.Writes slot.key a) (h : Decides (d.valueRequirements areas a slot.demand) x) :
    Decides (d.slotRequirements areas slot) x :=
  .cons_met (.inr ⟨a, ha.mem, ha.1⟩) (.provided ha.mem ha (fun _ _ => ha.unique) h)

/-- Reading an attribute that may not be left out. -/
lemma decides_required {α : Type} {key : String} {demand : Demand} {read : Attribute → Resolved α}
    (h : ∀ a, Decides (d.valueRequirements areas a demand) (read a)) :
    Decides (d.slotRequirements areas ⟨key, demand, false⟩) (d.required key >>= read) := by
  unfold required
  cases hfind : d.find? key with
  | none => exact .failed (.here (by simpa using find?_eq_none_iff.1 hfind))
  | some a => exact decides_slot (find?_eq_some_iff.1 hfind) (h a)

lemma decides_number (key : String) :
    Decides (d.slotRequirements areas ⟨key, .number, false⟩) (d.number key) :=
  decides_required fun a => decides_demand a.value.isSome_number?

lemma decides_count (key : String) :
    Decides (d.slotRequirements areas ⟨key, .count, false⟩) (d.count key) :=
  decides_required fun a => decides_demand a.value.isSome_count?

lemma decides_word (key : String) :
    Decides (d.slotRequirements areas ⟨key, .word, false⟩) (d.word key) :=
  decides_required fun a => decides_demand a.value.isSome_word?

lemma decides_bounds (key : String) :
    Decides (d.slotRequirements areas ⟨key, .bounds, true⟩) (d.bounds key) := by
  unfold bounds
  cases hfind : d.find? key with
  | none =>
    have hnone := find?_eq_none_iff.1 hfind
    apply Decides.passed
    simp only [slotRequirements, List.forall_mem_cons, List.forall_mem_flatMap, List.forall_mem_map]
    exact ⟨.inl trivial, fun a ha _ _ hwrites => absurd hwrites.1 (hnone a ha)⟩
  | some a =>
    have hdemand := decides_demand (d := d) a.value.isSome_colour?
    exact decides_slot (find?_eq_some_iff.1 hfind) (hdemand.map some)

lemma decides_areaPoints (a : Attribute) (area : String) (index : ℕ) (ws : List Waypoint) :
    Decides ((ws.zipIdx index).flatMap fun (w, i) =>
      w.requirements.map (.mapFault fun reason => ⟨.badPoint area i reason, a.position⟩))
      (areaPoints a area index ws) := by
  induction ws generalizing index with
  | nil => exact .ok []
  | cons w ws ih =>
    have hstep : areaPoints a area index (w :: ws) =
        (w.toPoint.mapError fun reason => ⟨.badPoint area index reason, a.position⟩) >>= fun p =>
          (p :: ·) <$> areaPoints a area (index + 1) ws := by
      simp only [areaPoints]
      cases w.toPoint <;> rfl
    rw [hstep, List.zipIdx_cons, List.flatMap_cons]
    exact (w.decides_toPoint.mapError _).bind fun p _ => (ih (index + 1)).map _

lemma decides_area (a : Attribute) (name : String) :
    Decides (d.areaRequirements areas a name) (d.area a name areas) := by
  have hkeys := areas.get?_eq_none_iff name
  unfold areaRequirements area
  cases hget : areas.get? name with
  | none => exact .failed (.here (by simpa [hget] using hkeys))
  | some ws =>
    apply Decides.cons_met
    · simpa [hget] using hkeys
    · cases ws with
      | nil => exact .failed (.here (by simp))
      | cons w ws =>
        apply Decides.cons_met
        · simp
        · exact decides_areaPoints a name 0 (w :: ws)

lemma decides_path :
    Decides (d.slotRequirements areas ⟨"way_points", .path, false⟩) (d.path areas) := by
  refine decides_required fun a => ?_
  unfold valueRequirements
  -- Only a list of tuples can fail the second demand, and only a reference has more to check.
  cases hvalue : a.value with
  | tuples ts =>
    apply Decides.cons_met
    · simp [Expr.Meets, hvalue]
    · have hlist : (ts.mapM Expr.point?).isSome ↔ a.value.Meets .pointList := by
        simp [Expr.isSome_mapM_point?, Expr.Meets, hvalue]
      exact decides_demand hlist
  | triple x y z => exact .passed (by simp [Expr.Meets, hvalue])
  | area name =>
    apply Decides.cons_met
    · simp [Expr.Meets, hvalue]
    · apply Decides.cons_met
      · simp [Expr.Meets, hvalue]
      · exact decides_area a name
  | _ => exact .failed (.here (by simp [Expr.Meets, hvalue]))

lemma decides_survey :
    Decides (TaskKind.schema.survey.flatMap (d.slotRequirements areas)) (d.survey areas) := by
  unfold survey
  refine decides_path.bind fun _ _ => ?_
  refine (decides_number _).bind fun _ _ => ?_
  refine (decides_number _).bind fun _ _ => ?_
  refine (decides_count _).bind fun _ _ => ?_
  refine (decides_count _).bind fun _ _ => ?_
  exact (decides_word _).bind fun _ _ => .ok _

lemma decides_tracking :
    Decides (TaskKind.track.schema.flatMap (d.slotRequirements areas)) d.tracking := by
  unfold tracking
  refine (decides_number _).bind fun _ _ => ?_
  refine (decides_word _).bind fun _ _ => ?_
  refine (decides_word _).bind fun _ _ => ?_
  refine (decides_bounds _).bind fun _ _ => ?_
  exact (decides_bounds _).bind fun _ _ => .ok _

/-- The parameters of a task are read where its attributes meet all requirements of its kind, and
the first requirement that is not met is reported. -/
theorem decides_work : Decides (d.requirements areas) (d.work areas) := by
  unfold requirements work
  cases d.kind with
  | detect => exact decides_survey.map Work.detect
  | track => exact decides_tracking.map Work.track
  | avoid =>
    change Decides ((TaskKind.schema.survey ++ [_]).flatMap _) _
    rw [List.flatMap_append]
    exact decides_survey.bind fun _ _ => (decides_number _).bind fun _ _ => .ok _
  | test => exact .ok _

end TaskDecl
end Sortie
