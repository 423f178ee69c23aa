import Sortie.Proofs.Decimal.Nearest

/-! The shortest digits of a float lie in its rounding interval. A hit on any grid does so by the
test that found it. The grid of seventeen digits always has one, since its step is less than the
gap between neighbouring floats. -/
namespace Sortie.Decimal

lemma digitCount_le_iff {n k : ℕ} (hk : 0 < k) : digitCount n ≤ k ↔ n < 10 ^ k :=
  Nat.length_toDigits_le_iff (by norm_num) hk

lemma digitCount_pos (n : ℕ) : 0 < digitCount n := Nat.length_toDigits_pos

lemma lt_pow_digitCount (n : ℕ) : n < 10 ^ digitCount n :=
  (digitCount_le_iff (digitCount_pos n)).1 le_rfl

lemma pow_pred_digitCount_le {n : ℕ} (hn : 0 < n) : 10 ^ (digitCount n - 1) ≤ n := by
  rcases Nat.eq_zero_or_pos (digitCount n - 1) with h | h
  · rw [h]
    omega
  · have := (digitCount_le_iff (n := n) h).not
    have := digitCount_pos n
    omega

/-- The leading digit of a quotient does not exceed it. -/
lemma zpow_leadingExponent_le {num den : ℕ} (hnum : 0 < num) (hden : 0 < den) :
    (10 : ℚ) ^ leadingExponent num den ≤ num / den := by
  have hd : (0 : ℚ) < den := by exact_mod_cast hden
  unfold leadingExponent
  split
  · rename_i hle
    have hq : 0 < num / den := Nat.div_pos hle hden
    have hcount := digitCount_pos (num / den)
    have hpow : (10 : ℚ) ^ ((digitCount (num / den) : ℤ) - 1) =
        (10 ^ (digitCount (num / den) - 1) : ℕ) := by
      rw [← Nat.cast_pred hcount]
      push_cast
      rw [zpow_natCast]
    rw [hpow, le_div_iff₀ hd]
    have : 10 ^ (digitCount (num / den) - 1) * den ≤ num :=
      (Nat.le_div_iff_mul_le hden).1 (pow_pred_digitCount_le hq)
    exact_mod_cast this
  · set k := (den + num - 1) / num - 1 with hk
    have hceil : den ≤ (k + 1) * num := by
      have := Nat.lt_div_mul_add hnum (a := den + num - 1)
      rw [hk]
      have hone : 0 < (den + num - 1) / num := Nat.div_pos (by omega) hnum
      rw [Nat.sub_add_cancel hone]
      omega
    have hlt : k + 1 ≤ 10 ^ digitCount k := lt_pow_digitCount k
    have hmul : den ≤ 10 ^ digitCount k * num := hceil.trans (Nat.mul_le_mul_right _ hlt)
    rw [zpow_neg, zpow_natCast, inv_le_iff_one_le_mul₀ (by positivity), div_mul_eq_mul_div,
      one_le_div hd, mul_comm]
    exact_mod_cast hmul

namespace Interval
variable {i : Interval} {unit step n : ℕ}

/-- The test of a grid point that a search uses. -/
def inside (i : Interval) (unit step n : ℕ) : Bool :=
  if i.closed then i.low * unit ≤ n * step && n * step ≤ i.high * unit
  else i.low * unit < n * step && n * step < i.high * unit

lemma inside_iff (hunit : 0 < unit) :
    i.inside unit step n = true ↔ i.Holds ((n : ℚ) * (step / unit)) := by
  have hu : (0 : ℚ) < unit := by exact_mod_cast hunit
  rw [mul_div_assoc']
  unfold inside Holds
  by_cases hc : i.closed
  · rw [if_pos hc, if_pos hc, le_div_iff₀ hu, div_le_iff₀ hu, Bool.and_eq_true, decide_eq_true_iff,
      decide_eq_true_iff]
    exact_mod_cast Iff.rfl
  · rw [if_neg hc, if_neg hc, lt_div_iff₀ hu, div_lt_iff₀ hu, Bool.and_eq_true, decide_eq_true_iff,
      decide_eq_true_iff]
    exact_mod_cast Iff.rfl

lemma hit?_eq (i : Interval) (unit step : ℕ) :
    i.hit? unit step =
      match i.inside unit step (i.value * unit / step),
        i.inside unit step (i.value * unit / step + 1) with
      | true, true =>
        if i.value * unit - i.value * unit / step * step <
            (i.value * unit / step + 1) * step - i.value * unit then
          some (i.value * unit / step)
        else some (i.value * unit / step + 1)
      | true, false => some (i.value * unit / step)
      | false, true => some (i.value * unit / step + 1)
      | false, false => none := rfl

lemma inside_of_hit? (h : i.hit? unit step = some n) : i.inside unit step n = true := by
  rw [hit?_eq] at h
  split at h
  · split at h <;> cases h <;> assumption
  · cases h; assumption
  · cases h; assumption
  · cases h

lemma isSome_hit? (h : i.inside unit step (i.value * unit / step) = true ∨
    i.inside unit step (i.value * unit / step + 1) = true) : (i.hit? unit step).isSome := by
  rw [hit?_eq]
  split
  · split <;> rfl
  · rfl
  · rfl
  · simp_all

/-- The scale of a grid, relative to the unit of the interval. -/
lemma grid_ratio (num den : ℕ) (x : ℤ) :
    ((den * 10 ^ x.toNat : ℕ) : ℚ) / (num * 10 ^ (-x).toNat : ℕ) = 10 ^ x / (num / den) := by
  have hpow := natCast_zpow_eq_div (b := 10) (by norm_num) x
  push_cast at hpow ⊢
  rw [hpow, div_div_div_eq, mul_comm (den : ℚ), mul_comm (num : ℚ)]

/-- What a grid offers lies in the interval. -/
lemma holds_of_onGrid? {num den : ℕ} (hnum : 0 < num) {lead : ℤ} {count : ℕ} {s : Scientific}
    (h : i.onGrid? num den lead count = some s) :
    i.Holds (s.digits * 10 ^ s.exponent / (num / den)) := by
  unfold onGrid? at h
  simp only [Nat.pow_eq, ite_mul_pow, ite_mul_pow_neg] at h
  obtain ⟨n, hn, rfl⟩ := Option.map_eq_some_iff.1 h
  have hholds := (inside_iff (by positivity)).1 (inside_of_hit? hn)
  rw [grid_ratio, ← mul_div_assoc] at hholds
  split
  · -- Ten is written as one on the next coarser grid.
    rename_i hten
    rw [zpow_add_one₀ (by norm_num)]
    convert hholds using 2
    rw [hten]
    push_cast
    ring
  · exact hholds

lemma holds_of_lt {y : ℚ} (hlow : (i.low : ℚ) < y) (hhigh : y < i.high) : i.Holds y := by
  unfold Holds
  split
  · exact ⟨hlow.le, hhigh.le⟩
  · exact ⟨hlow, hhigh⟩

/-- One of the two grid points around the value lies in the interval, on a grid whose step is less
than the gap to the next float. -/
lemma isSome_hit?_around {mantissa : ℕ} {exponent : ℤ} (hm : 0 < mantissa) (hunit : 0 < unit)
    (hstep : 0 < step) (hgap : (step : ℚ) / unit < 4)
    (hnarrow : mantissa = 2 ^ 52 → (step : ℚ) / unit < 2) :
    ((around mantissa exponent).hit? unit step).isSome := by
  apply isSome_hit?
  rw [inside_iff hunit, inside_iff hunit]
  have hu : (0 : ℚ) < unit := by exact_mod_cast hunit
  set i := around mantissa exponent with hi
  set below := i.value * unit / step
  have hvalue : i.value = 4 * mantissa := rfl
  have hhigh : (i.high : ℚ) = 4 * mantissa + 2 := by simp [hi, around]
  have hlow : (i.low : ℚ) < 4 * mantissa := by
    have : i.low < 4 * mantissa := by
      simp only [hi, around]
      split <;> omega
    exact_mod_cast this
  have hle : (below : ℚ) * (step / unit) ≤ 4 * mantissa := by
    have := Nat.div_mul_le_self (i.value * unit) step
    rw [mul_div_assoc', div_le_iff₀ hu]
    rw [hvalue] at this
    exact_mod_cast this
  have hlt : 4 * (mantissa : ℚ) < ((below + 1 : ℕ) : ℚ) * (step / unit) := by
    have : 4 * mantissa * unit < (below + 1) * step :=
      Nat.lt_mul_of_div_lt (Nat.lt_succ_self _) hstep
    rw [mul_div_assoc', lt_div_iff₀ hu]
    exact_mod_cast this
  have hnext : ((below + 1 : ℕ) : ℚ) * (step / unit) = below * (step / unit) + step / unit := by
    push_cast
    ring
  -- A point above that is not inside leaves the point below less than two units away.
  by_cases hfits : ((below + 1 : ℕ) : ℚ) * (step / unit) < 4 * mantissa + 2
  · exact Or.inr (holds_of_lt (by linarith) (by linarith))
  · left
    have hwide : (i.low : ℚ) = 4 * mantissa - 2 := by
      have hnot : ¬ mantissa = 2 ^ 52 := by
        intro h
        have := hnarrow h
        linarith
      simp only [hi, around, Nat.pow_eq, hnot, false_and, if_false]
      rw [Nat.cast_sub (by omega)]
      push_cast
      ring
    exact holds_of_lt (by linarith) (by linarith)

end Interval

/-- Seventeen digits identify every float. -/
lemma isSome_onGrid?_seventeen {mantissa num den : ℕ} (exponent : ℤ) (hm : 0 < mantissa)
    (hlt : mantissa < 2 ^ 53) (hnum : 0 < num) (hden : 0 < den) :
    ((Interval.around mantissa exponent).onGrid? num den
      (leadingExponent ((Interval.around mantissa exponent).value * num) den) 17).isSome := by
  have hvalue : (Interval.around mantissa exponent).value = 4 * mantissa := rfl
  have hlead : (10 : ℚ) ^ leadingExponent (4 * mantissa * num) den ≤
      (4 * mantissa * num : ℕ) / den :=
    zpow_leadingExponent_le (by positivity) hden
  unfold Interval.onGrid?
  simp only [Nat.pow_eq, ite_mul_pow, ite_mul_pow_neg]
  rw [Option.isSome_map, hvalue]
  generalize leadingExponent (4 * mantissa * num) den = lead at *
  have hn : (0 : ℚ) < num := by exact_mod_cast hnum
  have hd : (0 : ℚ) < den := by exact_mod_cast hden
  have hstep : (10 : ℚ) ^ (lead + 1 - (17 : ℕ)) / (num / den) ≤ 4 * mantissa / 10 ^ 16 := by
    have hpow : (10 : ℚ) ^ (lead + 1 - (17 : ℕ)) = 10 ^ lead / 10 ^ 16 := by
      rw [show lead + 1 - ((17 : ℕ) : ℤ) = lead - (16 : ℕ) by push_cast; ring,
        zpow_sub₀ (by norm_num), zpow_natCast]
    rw [hpow, div_le_iff₀ (by positivity)]
    push_cast at hlead
    calc (10 : ℚ) ^ lead / 10 ^ 16 ≤ (4 * mantissa * num / den : ℚ) / 10 ^ 16 := by gcongr
      _ = (4 * mantissa / 10 ^ 16 : ℚ) * (num / den) := by ring
  have hm' : (mantissa : ℚ) < 2 ^ 53 := by exact_mod_cast hlt
  apply Interval.isSome_hit?_around hm (by positivity) (by positivity)
  · rw [Interval.grid_ratio]
    linarith
  · intro h
    rw [Interval.grid_ratio]
    rw [h] at hstep
    push_cast at hstep
    linarith

/-- The shortest digits of a float identify it. -/
theorem roundsTo_shortest {mantissa : ℕ} {exponent : ℤ} (hm : 0 < mantissa)
    (hlt : mantissa < 2 ^ 53) :
    RoundsTo ((shortest mantissa exponent).digits * 10 ^ (shortest mantissa exponent).exponent)
      mantissa exponent := by
  have hup : (if 0 ≤ exponent - 2 then 2 ^ (exponent - 2).toNat else 1) =
      2 ^ (exponent - 2).toNat := by
    simpa using ite_mul_pow 1 2 (exponent - 2)
  have hdown : (if 0 ≤ exponent - 2 then 1 else 2 ^ (-(exponent - 2)).toNat) =
      2 ^ (-(exponent - 2)).toNat := by
    simpa using ite_mul_pow_neg 1 2 (exponent - 2)
  have hratio : (2 : ℚ) ^ (exponent - 2) =
      ((2 ^ (exponent - 2).toNat : ℕ) : ℚ) / (2 ^ (-(exponent - 2)).toNat : ℕ) :=
    natCast_zpow_eq_div Nat.two_pos (exponent - 2)
  have hnum : 0 < 2 ^ (exponent - 2).toNat := by positivity
  have hden : 0 < 2 ^ (-(exponent - 2)).toNat := by positivity
  have hseventeen := isSome_onGrid?_seventeen exponent hm hlt hnum hden
  unfold shortest RoundsTo
  simp only [Nat.pow_eq]
  rw [hup, hdown, hratio]
  generalize 2 ^ (exponent - 2).toNat = num at *
  generalize 2 ^ (-(exponent - 2)).toNat = den at *
  set i := Interval.around mantissa exponent
  set grid := i.onGrid? num den (leadingExponent (i.value * num) den)
  have hsome : (((List.range 17).map (· + 1)).findSome? grid).isSome := by
    rw [List.findSome?_isSome_iff]
    exact ⟨17, by decide, hseventeen⟩
  obtain ⟨s, hs⟩ := Option.isSome_iff_exists.1 hsome
  rw [hs, Option.getD_some]
  obtain ⟨count, -, hcount⟩ := List.exists_of_findSome?_eq_some hs
  exact Interval.holds_of_onGrid? hnum hcount

end Sortie.Decimal
