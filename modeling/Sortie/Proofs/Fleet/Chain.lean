import Mathlib.Algebra.Order.Floor.Div
import Mathlib.Data.List.Range
import Sortie.Proofs.Fleet.Slice

/-! The slices of a line of points form a chain. Each begins where the one before it ends, all have
the same number of edges until the end of the line is reached, and from there on they are empty. So
every edge of the line lies in exactly one slice. -/
namespace Sortie.Fleet
variable {points vehicles i j : ℕ}

/-- The number of edges of a slice. -/
def Slice.edges (s : Slice) : ℕ := s.last - s.first

/-- A slice has the edge from the point with an index to the next point. -/
def Slice.HasEdge (s : Slice) (j : ℕ) : Prop := s.first ≤ j ∧ j + 1 ≤ s.last

/-- A chain of slices along a line of points, one for each vehicle. -/
structure SliceChain (points vehicles : ℕ) (ss : List Slice) : Prop where
  count : ss.length = vehicles
  starts : ss.head?.map Slice.first = some 0
  ends : ss.getLast?.map Slice.last = some (points - 1)
  ordered : ∀ s ∈ ss, s.first ≤ s.last ∧ s.last ≤ points - 1
  linked : ss.IsChain fun s t => s.last = t.first
  atMost : ∀ s ∈ ss, s.edges ≤ (points - 1) ⌈/⌉ vehicles
  short : ∀ s ∈ ss, s.edges < (points - 1) ⌈/⌉ vehicles → s.last = points - 1
  finished : ss.Pairwise fun s t => s.last = points - 1 → t = ⟨points - 1, points - 1⟩
  edge : ∀ j, j + 1 < points → ∃! i : ℕ, ∃ s : Slice, ss[i]? = some s ∧ s.HasEdge j

section Bounds

/-- From one bound to the next it is a share, unless the line ends before. -/
lemma bound_succ :
    bound points vehicles (i + 1) = min (bound points vehicles i + share points vehicles)
      (points - 1) := by
  unfold bound
  rw [Nat.succ_mul]
  omega

/-- Between the first and the last of growing bounds, every number lies between two neighbours. -/
lemma exists_between {bound : ℕ → ℕ} {n : ℕ} (hzero : bound 0 ≤ j) (hn : j < bound n) :
    ∃ i < n, bound i ≤ j ∧ j < bound (i + 1) := by
  induction n with
  | zero => omega
  | succ n ih =>
    by_cases hj : j < bound n
    · obtain ⟨i, hi, hbetween⟩ := ih hj
      exact ⟨i, by omega, hbetween⟩
    · exact ⟨n, by omega, by omega, hn⟩

/-- Growing bounds have a number between one pair of neighbours only. -/
lemma eq_of_between {bound : ℕ → ℕ} (hmono : Monotone bound) {k : ℕ}
    (hi : bound i ≤ j ∧ j < bound (i + 1)) (hk : bound k ≤ j ∧ j < bound (k + 1)) : i = k := by
  apply Nat.le_antisymm
  · apply Nat.le_of_not_lt
    intro hlt
    have hle : bound (k + 1) ≤ bound i := hmono hlt
    omega
  · apply Nat.le_of_not_lt
    intro hlt
    have hle : bound (i + 1) ≤ bound k := hmono hlt
    omega

end Bounds

section Slices
variable (hp : 0 < points) (hv : 0 < vehicles)
include hp hv

lemma getElem?_slices_eq_some_iff {s : Slice} :
    (slices points vehicles)[i]? = some s ↔
      i < vehicles ∧ s = ⟨bound points vehicles i, bound points vehicles (i + 1)⟩ := by
  rw [slices_eq hp hv, List.getElem?_map]
  by_cases hi : i < vehicles
  · simp [hi, eq_comm]
  · simp [hi]

lemma head?_slices : (slices points vehicles).head?.map Slice.first = some 0 := by
  rw [List.head?_eq_getElem?, (getElem?_slices_eq_some_iff hp hv).2 ⟨hv, rfl⟩]
  simp [bound]

lemma getLast?_slices :
    (slices points vehicles).getLast?.map Slice.last = some (points - 1) := by
  have hlast : vehicles - 1 < vehicles := by omega
  rw [List.getLast?_eq_getElem?, length_slices hp,
    (getElem?_slices_eq_some_iff hp hv).2 ⟨hlast, rfl⟩, Option.map_some, Nat.sub_add_cancel hv,
    bound_vehicles hv]

/-- Every edge lies in exactly one slice. -/
lemma existsUnique_hasEdge (hj : j + 1 < points) :
    ∃! i : ℕ, ∃ s : Slice, (slices points vehicles)[i]? = some s ∧ s.HasEdge j := by
  have hzero : bound points vehicles 0 ≤ j := by simp [bound]
  have hend : j < bound points vehicles vehicles := by
    rw [bound_vehicles hv]
    omega
  obtain ⟨i, hi, hbetween⟩ := exists_between hzero hend
  refine ⟨i, ⟨_, (getElem?_slices_eq_some_iff hp hv).2 ⟨hi, rfl⟩, hbetween⟩, ?_⟩
  rintro k ⟨s, hs, hedge⟩
  obtain ⟨-, rfl⟩ := (getElem?_slices_eq_some_iff hp hv).1 hs
  exact eq_of_between monotone_bound hedge hbetween

/-- The slices of a line form a chain. -/
theorem sliceChain_slices : SliceChain points vehicles (slices points vehicles) where
  count := length_slices hp
  starts := head?_slices hp hv
  ends := getLast?_slices hp hv
  ordered := by
    intro s hs
    obtain ⟨i, rfl⟩ := exists_bound_of_mem_slices hp hv hs
    exact ⟨monotone_bound (Nat.le_succ i), bound_le⟩
  linked := by
    rw [slices_eq hp hv, List.isChain_map, List.isChain_range]
    intro i _
    rfl
  atMost := by
    intro s hs
    obtain ⟨i, rfl⟩ := exists_bound_of_mem_slices hp hv hs
    change bound points vehicles (i + 1) - bound points vehicles i ≤ share points vehicles
    rw [bound_succ]
    omega
  short := by
    intro s hs hshort
    obtain ⟨i, rfl⟩ := exists_bound_of_mem_slices hp hv hs
    change bound points vehicles (i + 1) - bound points vehicles i < share points vehicles at hshort
    have hle : bound points vehicles i ≤ points - 1 := bound_le
    change bound points vehicles (i + 1) = points - 1
    rw [bound_succ] at hshort ⊢
    omega
  finished := by
    rw [slices_eq hp hv, List.pairwise_map]
    apply List.pairwise_lt_range.imp
    intro i k hlt hend
    -- all later bounds lie between the end of the line and itself
    have hsame : ∀ n, i + 1 ≤ n → bound points vehicles n = points - 1 := by
      intro n hn
      apply Nat.le_antisymm bound_le
      rw [← hend]
      exact monotone_bound hn
    rw [hsame k hlt, hsame (k + 1) (by omega)]
  edge _ := existsUnique_hasEdge hp hv

end Slices

/-- More vehicles than edges: the last two have nothing to fly. -/
theorem sliceChain_slices_idle :
    0 < 3 ∧ 0 < 4 ∧ slices 3 4 = [⟨0, 1⟩, ⟨1, 2⟩, ⟨2, 2⟩, ⟨2, 2⟩] ∧
      SliceChain 3 4 (slices 3 4) :=
  ⟨by decide, by decide, by decide, sliceChain_slices (by decide) (by decide)⟩

end Sortie.Fleet
