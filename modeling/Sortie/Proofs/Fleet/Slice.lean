import Mathlib.Data.List.Forall2
import Mathlib.Order.Monotone.Basic
import Sortie.Fleet.Slice

/-! The slices of a line of points cover it: neighbours share one point, and nothing else is
repeated or lost. -/
namespace Sortie.Fleet

/-- Joins lists each of which begins with the last element of the one before it. -/
def stitch {α : Type} : List (List α) → List α
  | [] => []
  | l :: ls => l ++ ls.flatMap List.tail

section Stitch
variable {α β : Type}

@[simp] lemma stitch_singleton (l : List α) : stitch [l] = l := by simp [stitch]

lemma stitch_concat {ls : List (List α)} (hls : ls ≠ []) (l : List α) :
    stitch (ls ++ [l]) = stitch ls ++ l.tail := by
  cases ls with
  | nil => exact absurd rfl hls
  | cons m ls => simp [stitch]

lemma stitch_map (f : α → β) (ls : List (List α)) :
    stitch (ls.map (List.map f)) = (stitch ls).map f := by
  cases ls with
  | nil => rfl
  | cons l ls => simp [stitch, List.flatMap_map, List.map_flatMap]

/-- Lists that correspond element by element still do when they are joined. -/
lemma forall₂_stitch {R : α → β → Prop} {ls : List (List α)} {ms : List (List β)}
    (h : List.Forall₂ (List.Forall₂ R) ls ms) : List.Forall₂ R (stitch ls) (stitch ms) := by
  cases h with
  | nil => exact .nil
  | cons hl hls =>
    apply List.rel_append hl
    apply List.rel_flatMap hls
    intro l m hlm
    cases hlm with
    | nil => exact .nil
    | cons _ htail => exact htail

end Stitch

section Cover
variable {α : Type}

lemma tail_take (s : Slice) (xs : List α) :
    (s.take xs).tail = (xs.drop (s.first + 1)).take (s.last - s.first) := by
  unfold Slice.take
  have hcount : s.last + 1 - s.first - 1 = s.last - s.first := by omega
  rw [← List.drop_one, List.drop_take, List.drop_drop, hcount]

/-- Slices between growing bounds join to all that lies before the last of them. -/
lemma stitch_bounds {bound : ℕ → ℕ} (hzero : bound 0 = 0) (hmono : Monotone bound) (xs : List α)
    (n : ℕ) :
    stitch ((List.range (n + 1)).map fun i => Slice.take ⟨bound i, bound (i + 1)⟩ xs) =
      xs.take (bound (n + 1) + 1) := by
  induction n with
  | zero => simp [hzero, Slice.take]
  | succ n ih =>
    have hle : bound (n + 1) ≤ bound (n + 2) := hmono (Nat.le_succ _)
    have hlast : bound (n + 2) + 1 = bound (n + 1) + 1 + (bound (n + 2) - bound (n + 1)) := by omega
    rw [List.range_succ, List.map_append, List.map_singleton, stitch_concat (by simp), ih,
      tail_take, hlast]
    exact List.take_add.symm

/-- The number of edges of a slice: an even share rounded up. -/
def share (points vehicles : ℕ) : ℕ := (points - 1 + vehicles - 1) / vehicles

/-- The index where the slice of a vehicle begins and that of the one before it ends. -/
def bound (points vehicles i : ℕ) : ℕ := min (i * share points vehicles) (points - 1)

variable {points vehicles : ℕ}

lemma monotone_bound : Monotone (bound points vehicles) := by
  intro i j hij
  unfold bound
  have h := Nat.mul_le_mul_right (share points vehicles) hij
  omega

lemma bound_le {i : ℕ} : bound points vehicles i ≤ points - 1 := Nat.min_le_right _ _

/-- The shares of all vehicles reach the last point. -/
lemma bound_vehicles (hv : 0 < vehicles) : bound points vehicles vehicles = points - 1 := by
  have hdiv := Nat.div_add_mod (points - 1 + vehicles - 1) vehicles
  have hmod := Nat.mod_lt (points - 1 + vehicles - 1) hv
  have hreach : points - 1 ≤ vehicles * share points vehicles := by
    unfold share
    omega
  exact Nat.min_eq_right hreach

lemma slices_eq (hp : 0 < points) (hv : 0 < vehicles) :
    slices points vehicles = (List.range vehicles).map fun i =>
      ⟨bound points vehicles i, bound points vehicles (i + 1)⟩ := by
  unfold slices
  rw [if_neg (by omega)]
  apply List.map_congr_left
  intro i _
  congr 1
  split_ifs with hlast
  · rw [hlast, bound_vehicles hv]
  · unfold bound
    rw [Nat.succ_mul]
    rfl

lemma exists_bound_of_mem_slices (hp : 0 < points) (hv : 0 < vehicles) {s : Slice}
    (hs : s ∈ slices points vehicles) :
    ∃ i, s = ⟨bound points vehicles i, bound points vehicles (i + 1)⟩ := by
  rw [slices_eq hp hv] at hs
  obtain ⟨i, -, rfl⟩ := List.mem_map.1 hs
  exact ⟨i, rfl⟩

lemma length_slices (hp : 0 < points) : (slices points vehicles).length = vehicles := by
  rcases Nat.eq_zero_or_pos vehicles with rfl | hv
  · simp [slices]
  · rw [slices_eq hp hv]
    simp

/-- The slices of a line of points, joined, are the line. -/
theorem stitch_slices {xs : List α} (hxs : xs ≠ []) (hv : 0 < vehicles) :
    stitch ((slices xs.length vehicles).map fun s => s.take xs) = xs := by
  have hp : 0 < xs.length := List.length_pos_of_ne_nil hxs
  obtain ⟨n, rfl⟩ := Nat.exists_eq_succ_of_ne_zero (Nat.pos_iff_ne_zero.1 hv)
  rw [slices_eq hp hv, List.map_map]
  calc stitch ((List.range (n + 1)).map fun i =>
        Slice.take ⟨bound xs.length (n + 1) i, bound xs.length (n + 1) (i + 1)⟩ xs)
      = xs.take (bound xs.length (n + 1) (n + 1) + 1) :=
        stitch_bounds (by simp [bound]) monotone_bound xs n
    _ = xs := by
        rw [bound_vehicles hv, Nat.sub_add_cancel hp, List.take_length]

end Cover

end Sortie.Fleet
