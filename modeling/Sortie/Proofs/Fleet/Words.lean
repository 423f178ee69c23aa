import Mathlib.Algebra.Order.Floor.Div
import Mathlib.Data.UInt
import Sortie.Proofs.Fleet.Slice

/-! Slices in machine words. A share is rounded up, so that the shares of all vehicles together may
exceed the line, and the products of which bounds are made may exceed a word. They do not where the
numbers of points and of vehicles together fit in a word, or the vehicles are few. -/
namespace Sortie.Fleet

/-- Arithmetic in words. What becomes of a result that does not fit is left to the monad. -/
structure Arithmetic (m : Type → Type) where
  add : UInt64 → UInt64 → m UInt64
  sub : UInt64 → UInt64 → m UInt64
  mul : UInt64 → UInt64 → m UInt64

namespace Arithmetic

/-- Results are taken modulo the size of a word. -/
def wrapping : Arithmetic Id where
  add a b := pure (a + b)
  sub a b := pure (a - b)
  mul a b := pure (a * b)

/-- A result above the largest word or below zero ends the computation. -/
def checked : Arithmetic Option where
  add a b := if a.toNat + b.toNat < UInt64.size then some (a + b) else none
  sub a b := if b.toNat ≤ a.toNat then some (a - b) else none
  mul a b := if a.toNat * b.toNat < UInt64.size then some (a * b) else none

section Programs
variable {m : Type → Type} [Monad m] (ops : Arithmetic m)

/-- A quotient rounded up. -/
def ceilDiv (a b : UInt64) : m UInt64 :=
  if a % b = 0 then pure (a / b) else ops.add (a / b) 1

/-- The first and the last index of the slice with a number. -/
def slice (last size vehicles i : UInt64) : m (UInt64 × UInt64) := do
  let start ← ops.mul i size
  let next ← ops.add i 1
  if next = vehicles then return (min start last, last)
  else
    let stop ← ops.add start size
    return (min start last, min stop last)

/-- The slices of a line of points, one for each vehicle. -/
def slices (points vehicles : UInt64) : m (List (UInt64 × UInt64)) :=
  if points = 0 ∨ vehicles = 0 then pure []
  else do
    let last ← ops.sub points 1
    let size ← ops.ceilDiv last vehicles
    (List.range vehicles.toNat).mapM fun i => ops.slice last size vehicles (UInt64.ofNat i)

end Programs

/-- Operations on words are those on numbers, as long as the result fits. -/
structure Exact {m : Type → Type} [Monad m] (ops : Arithmetic m) : Prop where
  add : ∀ a b : ℕ, a + b < UInt64.size → ops.add (.ofNat a) (.ofNat b) = pure (.ofNat (a + b))
  sub : ∀ a b : ℕ, b ≤ a → a < UInt64.size →
    ops.sub (.ofNat a) (.ofNat b) = pure (.ofNat (a - b))
  mul : ∀ a b : ℕ, a < UInt64.size → b < UInt64.size → a * b < UInt64.size →
    ops.mul (.ofNat a) (.ofNat b) = pure (.ofNat (a * b))

lemma exact_wrapping : wrapping.Exact where
  add a b _ := congrArg pure (UInt64.ofNat_add a b).symm
  sub _ _ hle _ := congrArg pure (UInt64.ofNat_sub hle).symm
  mul a b _ _ _ := congrArg pure (UInt64.ofNat_mul a b).symm

lemma exact_checked : checked.Exact where
  add a b h := by
    change (if _ then _ else _) = _
    rw [UInt64.toNat_ofNat_of_lt' (by omega), UInt64.toNat_ofNat_of_lt' (by omega), if_pos h,
      UInt64.ofNat_add]
    rfl
  sub a b hle h := by
    change (if _ then _ else _) = _
    rw [UInt64.toNat_ofNat_of_lt' h, UInt64.toNat_ofNat_of_lt' (by omega), if_pos hle,
      UInt64.ofNat_sub hle]
    rfl
  mul a b ha hb h := by
    change (if _ then _ else _) = _
    rw [UInt64.toNat_ofNat_of_lt' ha, UInt64.toNat_ofNat_of_lt' hb, if_pos h, UInt64.ofNat_mul]
    rfl

end Arithmetic

/-- The indices of a slice as words. -/
def Slice.words (s : Slice) : UInt64 × UInt64 := (UInt64.ofNat s.first, UInt64.ofNat s.last)

def Slice.ofWords (w : UInt64 × UInt64) : Slice := ⟨w.1.toNat, w.2.toNat⟩

lemma Slice.ofWords_words {s : Slice} (hfirst : s.first < UInt64.size)
    (hlast : s.last < UInt64.size) : ofWords s.words = s := by
  unfold ofWords words
  rw [UInt64.toNat_ofNat_of_lt' hfirst, UInt64.toNat_ofNat_of_lt' hlast]

section Share
variable {points vehicles : ℕ}

lemma share_le (hv : 0 < vehicles) : share points vehicles ≤ points - 1 :=
  (ceilDiv_le_iff_le_mul hv).2 (Nat.le_mul_of_pos_left _ hv)

lemma vehicles_mul_share_le :
    vehicles * share points vehicles ≤ (points - 1) + (vehicles - 1) := by
  rcases Nat.eq_zero_or_pos vehicles with rfl | hv
  · simp
  · have hle := Nat.mul_div_le (points - 1 + vehicles - 1) vehicles
    unfold share
    omega

/-- The products that are computed stay below the size of a word: none of them counts the share of
the last vehicle. -/
lemma mul_share_lt (hpoints : points < UInt64.size)
    (h : points + vehicles ≤ UInt64.size ∨ vehicles ≤ UInt32.size) :
    (vehicles - 1) * share points vehicles < UInt64.size := by
  rcases Nat.eq_zero_or_pos vehicles with rfl | hv
  · simp
  have hall : vehicles * share points vehicles ≤ (points - 1) + (vehicles - 1) :=
    vehicles_mul_share_le
  have hsplit : vehicles * share points vehicles =
      (vehicles - 1) * share points vehicles + share points vehicles := by
    rw [← Nat.succ_mul, Nat.succ_eq_add_one, Nat.sub_add_cancel hv]
  rcases h with hsum | hfew
  · omega
  · by_cases hshare : vehicles - 1 ≤ share points vehicles
    · -- the last share makes up for what the line is exceeded by
      omega
    · calc (vehicles - 1) * share points vehicles
          ≤ (UInt32.size - 1) * (UInt32.size - 1) := Nat.mul_le_mul (by omega) (by omega)
        _ < UInt64.size := by decide

end Share

section Numbers
variable {a b : ℕ}

lemma ofNat_eq_ofNat_iff (ha : a < UInt64.size) (hb : b < UInt64.size) :
    UInt64.ofNat a = UInt64.ofNat b ↔ a = b := by
  rw [← UInt64.toNat_inj, UInt64.toNat_ofNat_of_lt' ha, UInt64.toNat_ofNat_of_lt' hb]

lemma ofNat_min (ha : a < UInt64.size) (hb : b < UInt64.size) :
    UInt64.ofNat (min a b) = min (UInt64.ofNat a) (UInt64.ofNat b) := by
  rw [← UInt64.toNat_inj, UInt64.toNat_min, UInt64.toNat_ofNat_of_lt' ha,
    UInt64.toNat_ofNat_of_lt' hb, UInt64.toNat_ofNat_of_lt' (by omega)]

lemma add_pred_div (hb : 0 < b) : (a + b - 1) / b = if a % b = 0 then a / b else a / b + 1 := by
  have hdiv := Nat.div_add_mod a b
  have hmod := Nat.mod_lt a hb
  split_ifs with hzero
  · rw [Nat.div_eq_iff hb, Nat.mul_comm]
    omega
  · rw [Nat.div_eq_iff hb, Nat.add_mul, Nat.mul_comm]
    omega

end Numbers

lemma mapM_eq_pure {m : Type → Type} [Monad m] [LawfulMonad m] {α β : Type} {f : α → m β}
    {g : α → β} {l : List α} (h : ∀ a ∈ l, f a = pure (g a)) : l.mapM f = pure (l.map g) := by
  induction l with
  | nil => simp
  | cons a l ih =>
    have htail := ih fun x hx => h x (List.mem_cons_of_mem a hx)
    simp [h a List.mem_cons_self, htail]

namespace Arithmetic.Exact
variable {m : Type → Type} [Monad m] {ops : Arithmetic m} (h : ops.Exact)
include h

lemma ceilDiv {a b : ℕ} (ha : a < UInt64.size) (hb : b < UInt64.size) (hpos : 0 < b) :
    ops.ceilDiv (.ofNat a) (.ofNat b) = pure (.ofNat ((a + b - 1) / b)) := by
  have hmod := Nat.mod_lt a hpos
  have hzero : UInt64.ofNat a % UInt64.ofNat b = 0 ↔ a % b = 0 := by
    rw [← UInt64.ofNat_mod ha hb]
    exact ofNat_eq_ofNat_iff (by omega) (by decide)
  unfold Arithmetic.ceilDiv
  rw [add_pred_div hpos, ← UInt64.ofNat_div ha hb]
  by_cases hrest : a % b = 0
  · rw [if_pos (hzero.2 hrest), if_pos hrest]
  · rw [if_neg (mt hzero.1 hrest), if_neg hrest]
    -- with a remainder the quotient is smaller than the number
    have hdiv := Nat.div_add_mod a b
    have hle : a / b ≤ b * (a / b) := Nat.le_mul_of_pos_left _ hpos
    exact h.add (a / b) 1 (by omega)

variable [LawfulMonad m]

/-- One slice in words is the slice in numbers, where the products that are computed fit. -/
lemma slice {last size vehicles i : ℕ} (hlast : last < UInt64.size) (hsize : size < UInt64.size)
    (hvehicles : vehicles < UInt64.size) (hi : i < vehicles)
    (hfits : (vehicles - 1) * size < UInt64.size) :
    ops.slice (.ofNat last) (.ofNat size) (.ofNat vehicles) (.ofNat i) =
      pure (Slice.words ⟨min (i * size) last,
        if i + 1 = vehicles then last else min (i * size + size) last⟩) := by
  have hstart : i * size < UInt64.size :=
    Nat.lt_of_le_of_lt (Nat.mul_le_mul_right size (by omega)) hfits
  have hmul := h.mul i size (by omega) hsize hstart
  have hadd := h.add i 1 (by omega)
  have hlastSlice := ofNat_eq_ofNat_iff (a := i + 1) (by omega) hvehicles
  unfold Arithmetic.slice Slice.words
  rw [hmul, pure_bind]
  change ops.add (.ofNat i) (.ofNat 1) >>= _ = _
  rw [hadd, pure_bind]
  by_cases hend : i + 1 = vehicles
  · rw [if_pos (hlastSlice.2 hend), if_pos hend, ofNat_min hstart hlast]
  · have hstop : i * size + size < UInt64.size := by
      rw [← Nat.succ_mul]
      exact Nat.lt_of_le_of_lt (Nat.mul_le_mul_right size (by omega)) hfits
    rw [if_neg (mt hlastSlice.1 hend), if_neg hend, h.add _ _ hstop, pure_bind,
      ofNat_min hstart hlast, ofNat_min hstop hlast]

/-- The slices in words are those in numbers, where the products that are computed fit. -/
lemma slices {points vehicles : ℕ} (hpoints : points < UInt64.size)
    (hvehicles : vehicles < UInt64.size)
    (hfits : (vehicles - 1) * share points vehicles < UInt64.size) :
    ops.slices (.ofNat points) (.ofNat vehicles) =
      pure ((Fleet.slices points vehicles).map Slice.words) := by
  have hzero {n : ℕ} (hn : n < UInt64.size) : UInt64.ofNat n = 0 ↔ n = 0 :=
    ofNat_eq_ofNat_iff hn (by decide)
  unfold Arithmetic.slices Fleet.slices
  by_cases hnone : points = 0 ∨ vehicles = 0
  · rw [if_pos hnone, if_pos (by rwa [hzero hpoints, hzero hvehicles]), List.map_nil]
  · rw [if_neg hnone, if_neg (by rwa [hzero hpoints, hzero hvehicles])]
    have hlast : points - 1 < UInt64.size := by omega
    have hsize : share points vehicles < UInt64.size :=
      Nat.lt_of_le_of_lt (share_le (by omega)) hlast
    change ops.sub (.ofNat points) (.ofNat 1) >>= _ = _
    rw [h.sub points 1 (by omega) hpoints, pure_bind, h.ceilDiv hlast hvehicles (by omega),
      pure_bind, UInt64.toNat_ofNat_of_lt' hvehicles, List.map_map]
    apply mapM_eq_pure
    intro i hi
    exact h.slice hlast hsize hvehicles (List.mem_range.1 hi) hfits

end Arithmetic.Exact

lemma map_ofWords_words {points vehicles : ℕ} (hpoints : points < UInt64.size) :
    ((slices points vehicles).map Slice.words).map Slice.ofWords = slices points vehicles := by
  by_cases hnone : points = 0 ∨ vehicles = 0
  · simp [slices, hnone]
  · rw [List.map_map]
    conv_rhs => rw [← List.map_id (slices points vehicles)]
    apply List.map_congr_left
    intro s hs
    obtain ⟨i, rfl⟩ := exists_bound_of_mem_slices (by omega) (by omega) hs
    have hfirst : bound points vehicles i ≤ points - 1 := bound_le
    have hlast : bound points vehicles (i + 1) ≤ points - 1 := bound_le
    exact Slice.ofWords_words (Nat.lt_of_le_of_lt hfirst (by omega))
      (Nat.lt_of_le_of_lt hlast (by omega))

/-- Slices are computed exactly in words where the points and vehicles together fit in one, or there
are at most as many vehicles as half a word has values; so also where both are lengths of lists in
memory, which are shorter than half the size of a word. No operation on the way has a result that
does not fit. -/
theorem slices_words_exact {points vehicles : UInt64}
    (h : points.toNat + vehicles.toNat ≤ UInt64.size ∨ vehicles.toNat ≤ UInt32.size ∨
      2 * points.toNat < UInt64.size ∧ 2 * vehicles.toNat < UInt64.size) :
    Arithmetic.checked.slices points vehicles =
        some (Arithmetic.wrapping.slices points vehicles).run ∧
      (Arithmetic.wrapping.slices points vehicles).run.map Slice.ofWords =
        slices points.toNat vehicles.toNat := by
  have hpoints := points.toNat_lt_size
  have hvehicles := vehicles.toNat_lt_size
  have hfits : (vehicles.toNat - 1) * share points.toNat vehicles.toNat < UInt64.size :=
    mul_share_lt hpoints (by omega)
  have hchecked := Arithmetic.exact_checked.slices hpoints hvehicles hfits
  have hwrapping := Arithmetic.exact_wrapping.slices hpoints hvehicles hfits
  rw [UInt64.ofNat_toNat, UInt64.ofNat_toNat] at hchecked hwrapping
  rw [hchecked, hwrapping]
  exact ⟨rfl, map_ofWords_words hpoints⟩

/-- The longest line that a word can count, for three vehicles. -/
theorem slices_words_exact_longest :
    UInt64.toNat 3 ≤ UInt32.size ∧
      Arithmetic.checked.slices 18446744073709551615 3 =
        some (Arithmetic.wrapping.slices 18446744073709551615 3).run ∧
      (Arithmetic.wrapping.slices 18446744073709551615 3).run.map Slice.ofWords =
        slices 18446744073709551615 3 :=
  ⟨by decide, slices_words_exact (Or.inr (Or.inl (by decide)))⟩

end Sortie.Fleet
