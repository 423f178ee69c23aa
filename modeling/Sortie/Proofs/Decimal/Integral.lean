import Sortie.Proofs.Decimal.Nearest

/-! Floats that are natural numbers. -/
namespace Sortie.Decimal.Binary

/-- The rational number that a float is, if it is finite. -/
def value? : Binary → Option ℚ
  | finite negative mantissa exponent =>
    some ((if negative then -1 else 1) * mantissa * 2 ^ exponent)
  | _ => none

lemma toNat?_nonneg {mantissa : ℕ} (hm : mantissa ≠ 0) (exponent : ℤ) (n : ℕ) :
    (finite false mantissa exponent).toNat? = some n ↔ (mantissa : ℚ) * 2 ^ exponent = n := by
  by_cases he : 0 ≤ exponent
  · obtain ⟨k, rfl⟩ := Int.eq_ofNat_of_zero_le he
    simp only [toNat?, hm, he, if_true, if_false, Nat.pow_eq, Int.toNat_natCast, zpow_natCast,
      Bool.false_eq_true, Option.some.injEq]
    norm_cast
  · obtain ⟨k, hk⟩ := Int.eq_ofNat_of_zero_le (show 0 ≤ -exponent by omega)
    obtain rfl : exponent = -(k : ℤ) := by omega
    have hpow : (2 : ℚ) ^ k ≠ 0 := by positivity
    have hvalue : (mantissa : ℚ) * 2 ^ (-(k : ℤ)) = n ↔ mantissa = n * 2 ^ k := by
      rw [zpow_neg, zpow_natCast, mul_inv_eq_iff_eq_mul₀ hpow]
      norm_cast
    rw [hvalue]
    simp only [toNat?, hm, he, if_false, Bool.false_eq_true, Nat.pow_eq, neg_neg, Int.toNat_natCast]
    by_cases hdvd : mantissa % 2 ^ k = 0
    · rw [if_pos hdvd, Option.some.injEq]
      exact Nat.div_eq_iff_eq_mul_left (by positivity) (Nat.dvd_of_mod_eq_zero hdvd)
    · rw [if_neg hdvd]
      refine ⟨by simp, ?_⟩
      rintro rfl
      simp at hdvd

/-- A float equals a natural number exactly where its rational value does. -/
theorem toNat?_eq_some_iff (b : Binary) (n : ℕ) : b.toNat? = some n ↔ b.value? = some (n : ℚ) := by
  cases b with
  | nan => simp [toNat?, value?]
  | infinite negative => simp [toNat?, value?]
  | finite negative mantissa exponent =>
    by_cases hm : mantissa = 0
    · subst hm
      simp [toNat?, value?, eq_comm]
    · cases negative with
      | false => simpa [value?] using toNat?_nonneg hm exponent n
      | true =>
        have hpos : (0 : ℚ) < mantissa * 2 ^ exponent := by
          have : (0 : ℚ) < mantissa := by exact_mod_cast Nat.pos_of_ne_zero hm
          positivity
        have hn : (0 : ℚ) ≤ n := n.cast_nonneg
        simp only [toNat?, value?, hm, if_true, if_false, Option.some.injEq]
        refine ⟨by simp, ?_⟩
        intro h
        linarith

end Sortie.Decimal.Binary
