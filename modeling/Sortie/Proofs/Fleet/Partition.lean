import Mathlib.Logic.Function.Iterate
import Sortie.Proofs.Fleet.Assignment

/-! Partitions said exactly: when areas can be split across a fleet, and which waypoints every
vehicle then has in every area. -/
namespace Sortie.Fleet
variable {plan : Plan} {areas : List Area} {points vehicles k : ℕ} {v : String} {s : Slice}

/-- The altitude of the vehicle with a number: the step is added once for it and once for each
vehicle before it. -/
def Plan.altitude (plan : Plan) (k : ℕ) : Float := (· + plan.step)^[k + 1] plan.base

/-- Waypoints at the points from the first to the last index of a slice, all of which there are.
Longitudes and latitudes are those of the points. -/
structure RunsAlong (points : List (String × String)) (s : Slice) (altitude : String)
    (ws : List Waypoint) : Prop where
  ordered : s.first ≤ s.last
  inRange : s.last < points.length
  length : ws.length = s.last - s.first + 1
  waypoints : ∀ i ≤ s.last - s.first, ∃ p, points[s.first + i]? = some p ∧
    ws[i]? = some ⟨p.1, p.2, altitude⟩

lemma bounds_of_mem_slices (hp : 0 < points) (hv : 0 < vehicles) (hs : s ∈ slices points vehicles) :
    s.first ≤ s.last ∧ s.last < points := by
  obtain ⟨i, rfl⟩ := exists_bound_of_mem_slices hp hv hs
  refine ⟨monotone_bound (Nat.le_succ i), ?_⟩
  have hle : bound points vehicles (i + 1) ≤ points - 1 := bound_le
  change bound points vehicles (i + 1) < points
  omega

lemma Slice.getElem?_take {α : Type} (s : Slice) (xs : List α) {i : ℕ}
    (hi : i < s.last + 1 - s.first) : (s.take xs)[i]? = xs[s.first + i]? := by
  unfold Slice.take
  rw [List.getElem?_take_of_lt hi, List.getElem?_drop]

/-- The waypoints of a share follow the points of its slice. -/
lemma Share.runsAlong (share : Share) {route : List (String × String)}
    (hordered : share.slice.first ≤ share.slice.last) (hrange : share.slice.last < route.length) :
    RunsAlong route share.slice share.altitude (share.waypoints route) where
  ordered := hordered
  inRange := hrange
  length := by
    unfold Share.waypoints Slice.take
    rw [List.length_map, List.length_take, List.length_drop]
    omega
  waypoints i hi := by
    have hindex : share.slice.first + i < route.length := by omega
    refine ⟨route[share.slice.first + i], List.getElem?_eq_getElem hindex, ?_⟩
    unfold Share.waypoints
    rw [List.getElem?_map, Slice.getElem?_take _ _ (by omega), List.getElem?_eq_getElem hindex]
    rfl

lemma getElem?_crewFrom (step altitude : Float) (vs : List String) (k : ℕ) :
    (crewFrom step altitude vs)[k]? =
      vs[k]?.map fun v => (v, Decimal.Layout.plain.write ((· + step)^[k + 1] altitude)) := by
  induction vs generalizing altitude k with
  | nil => rfl
  | cons v vs ih =>
    cases k with
    | zero => rfl
    | succ k =>
      rw [crewFrom, List.getElem?_cons_succ, List.getElem?_cons_succ, ih]
      rfl

/-- The share of the vehicle with a number: the slice with that number, at the vehicle's altitude. -/
lemma getElem?_shares (hp : 0 < points) (hk : plan.vehicles[k]? = some v) :
    ∃ s, (slices points plan.vehicles.length)[k]? = some s ∧
      (shares plan points)[k]? = some ⟨v, s, Decimal.Layout.plain.write (plan.altitude k)⟩ := by
  have hlt : k < (slices points plan.vehicles.length).length := by
    rw [length_slices hp]
    exact (List.getElem?_eq_some_iff.1 hk).1
  have hslice := List.getElem?_eq_getElem hlt
  have hcrew : plan.crew[k]? = some (v, Decimal.Layout.plain.write (plan.altitude k)) := by
    unfold Plan.crew
    rw [getElem?_crewFrom, hk]
    rfl
  have hzip : (plan.crew.zip (slices points plan.vehicles.length))[k]? = some (_, _) :=
    List.getElem?_zip_eq_some.2 ⟨hcrew, hslice⟩
  refine ⟨_, hslice, ?_⟩
  rw [shares_eq, List.getElem?_map, hzip]
  rfl

/-- The dictionary of every vehicle: all areas in order, and in each of them the vehicle's slice at
the vehicle's altitude. -/
structure AssignsSlices (plan : Plan) (areas : List Area) (a : Assignment) : Prop where
  vehicles : a.keys = plan.vehicles
  shares : ∀ k v, plan.vehicles[k]? = some v → ∃ d : Waypoints, a.entries[k]? = some (v, d) ∧
    d.keys = areas.map Area.name ∧
    ∀ area ∈ areas, ∃ s ws, (slices area.points.length plan.vehicles.length)[k]? = some s ∧
      d.get? area.name = some ws ∧
      RunsAlong area.points s (Decimal.Layout.plain.write (plan.altitude k)) ws

lemma Follows.assignsSlices {a : Assignment} (h : Follows plan areas a)
    (hpoints : ∀ area ∈ areas, area.points ≠ []) : AssignsSlices plan areas a where
  vehicles := h.vehicles
  shares k v hk := by
    have hkey : (a.entries.map Prod.fst)[k]? = some v := by
      rw [← hk, ← h.vehicles]
      rfl
    rw [List.getElem?_map, Option.map_eq_some_iff] at hkey
    obtain ⟨⟨v', d⟩, hentry, rfl⟩ := hkey
    have hmem := List.mem_of_getElem? hentry
    refine ⟨d, hentry, h.names _ hmem, ?_⟩
    intro area harea
    have hp := List.length_pos_of_ne_nil (hpoints area harea)
    have hv : 0 < plan.vehicles.length := List.length_pos_of_mem (List.mem_of_getElem? hk)
    obtain ⟨s, hs, hshare⟩ := getElem?_shares hp hk
    obtain ⟨hordered, hrange⟩ := bounds_of_mem_slices hp hv (List.mem_of_getElem? hs)
    have hwaypoints := h.paths _ hmem area harea _ (List.mem_of_getElem? hshare) rfl
    exact ⟨s, _, hs, hwaypoints, Share.runsAlong ⟨_, s, _⟩ hordered hrange⟩

lemma exists_partition_iff : (∃ a, (partition areas plan).result = .ok a) ↔
    plan.vehicles ≠ [] ∧ plan.vehicles.Nodup ∧ areas ≠ [] := by
  unfold partition
  rw [← firstDuplicate_eq_none_iff]
  by_cases hvehicles : plan.vehicles = []
  · simp [hvehicles]
  · cases hduplicate : firstDuplicate plan.vehicles with
    | some id => simp [hvehicles]
    | none =>
      by_cases hareas : areas = []
      · simp [hvehicles, hareas]
      · refine iff_of_true ?_ ⟨hvehicles, rfl, hareas⟩
        rw [if_neg (by simpa using hvehicles), if_neg (by simpa using hareas)]
        exact ⟨_, rfl⟩

/-- Areas with names of their own and points can be split exactly where there are areas and distinct
vehicles. Then every vehicle has its slice of every area, at the same altitude in all of them. -/
theorem partition_assigns_slices (plan : Plan) (hnames : (areas.map Area.name).Nodup)
    (hpoints : ∀ area ∈ areas, area.points ≠ []) :
    ((∃ a, (partition areas plan).result = .ok a) ↔
      plan.vehicles ≠ [] ∧ plan.vehicles.Nodup ∧ areas ≠ []) ∧
    ∀ a, (partition areas plan).result = .ok a → AssignsSlices plan areas a := by
  refine ⟨exists_partition_iff, fun a ha => ?_⟩
  obtain ⟨-, hfollows⟩ := follows_of_partition ha hnames hpoints
  exact hfollows.assignsSlices hpoints

/-- An area of four points and one of a single point. -/
def unevenAreas : List Area :=
  [⟨"z", [("0", "0"), ("1", "10"), ("2", "20"), ("3", "30")]⟩, ⟨"a", [("7", "8")]⟩]

theorem partition_assigns_slices_uneven :
    (unevenAreas.map Area.name).Nodup ∧ (∀ area ∈ unevenAreas, area.points ≠ []) ∧
      ∃ a, (partition unevenAreas ⟨["v2", "v1"], 15.0, 3.0⟩).result = .ok a ∧
        AssignsSlices ⟨["v2", "v1"], 15.0, 3.0⟩ unevenAreas a := by
  have hnames : (unevenAreas.map Area.name).Nodup := by decide
  have hpoints : ∀ area ∈ unevenAreas, area.points ≠ [] := by decide
  obtain ⟨hiff, hexact⟩ := partition_assigns_slices ⟨["v2", "v1"], 15.0, 3.0⟩ hnames hpoints
  obtain ⟨a, ha⟩ := hiff.2 ⟨by decide, by decide, by decide⟩
  exact ⟨hnames, hpoints, a, ha, hexact a ha⟩

end Sortie.Fleet
