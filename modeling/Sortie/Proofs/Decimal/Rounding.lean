import Sortie.Proofs.Decimal.ReadBack

/-! Reading rounds to the nearest float. A numeral has a rational value, and the float that it is
read as is the closest there is: the even one of two that are equally close, and infinity for what
is too large. -/
namespace Sortie.Decimal

/-- The least number that is too large, half a unit above the largest finite float. -/
def overflow : ℚ := (2 ^ 53 - 1 / 2) * 2 ^ (971 : ℤ)

namespace Binary

/-- A finite float, sign left out, that is nearest to a number: none is closer, and its mantissa is
even where another one is just as close. -/
structure Nearest (y : ℚ) (mantissa : ℕ) (exponent : ℤ) : Prop where
  canonical : Canonical mantissa exponent
  closest : ∀ m e, Canonical m e → |y - mantissa * 2 ^ exponent| ≤ |y - m * 2 ^ e|
  even : ∀ m e, Canonical m e → (m : ℚ) * 2 ^ e ≠ mantissa * 2 ^ exponent →
    |y - m * 2 ^ e| = |y - mantissa * 2 ^ exponent| → mantissa % 2 = 0

/-- What a number, given by its sign and its size, is rounded to. -/
inductive Rounds (negative : Bool) (y : ℚ) : Binary → Prop
  | finite {mantissa exponent} (small : y < overflow) (nearest : Nearest y mantissa exponent) :
      Rounds negative y (.finite negative mantissa exponent)
  | infinite (large : overflow ≤ y) : Rounds negative y (.infinite negative)

/-! Rounding on the grid of one exponent. -/

/-- Rounding errs by at most a half, and by a half only to an even number. -/
lemma abs_sub_roundDiv (num : ℕ) {den : ℕ} (hden : 0 < den) :
    |(num : ℚ) / den - roundDiv num den| ≤ 1 / 2 ∧
      (|(num : ℚ) / den - roundDiv num den| = 1 / 2 → roundDiv num den % 2 = 0) := by
  have hpos : (0 : ℚ) < den := by exact_mod_cast hden
  have hquotient : (num : ℚ) / den = (num / den : ℕ) + (num % den : ℕ) / den := by
    rw [div_eq_iff hpos.ne', add_mul, div_mul_cancel₀ _ hpos.ne']
    exact_mod_cast (Nat.div_add_mod' num den).symm
  have hmod : ((num % den : ℕ) : ℚ) < den := by exact_mod_cast Nat.mod_lt num hden
  rw [hquotient]
  unfold roundDiv
  simp only
  generalize num / den = q
  generalize num % den = r at *
  have hlow : (0 : ℚ) ≤ r / den := by positivity
  have hhigh : (r : ℚ) / den < 1 := by rwa [div_lt_one hpos]
  split_ifs with hbelow habove
  · have hlt : (r : ℚ) / den < 1 / 2 := by
      rw [div_lt_iff₀ hpos]
      have : (2 : ℚ) * r < den := by exact_mod_cast hbelow
      linarith
    rw [add_sub_cancel_left, abs_of_nonneg hlow]
    exact ⟨hlt.le, fun heq => absurd heq hlt.ne⟩
  · have hgt : 1 / 2 < (r : ℚ) / den := by
      rw [lt_div_iff₀ hpos]
      have : (den : ℚ) < 2 * r := by exact_mod_cast habove
      linarith
    push_cast
    rw [add_sub_add_left_eq_sub, abs_of_neg (by linarith)]
    exact ⟨by linarith, fun heq => by linarith⟩
  · have hhalf : (r : ℚ) / den = 1 / 2 := by
      rw [div_eq_iff hpos.ne']
      have : 2 * r = den := by omega
      rw [← this]
      push_cast
      ring
    rw [hhalf]
    refine ⟨?_, fun _ => by omega⟩
    obtain hq | hq := Nat.mod_two_eq_zero_or_one q <;> rw [hq, abs_le] <;> push_cast <;>
      constructor <;> linarith

section Grid
variable {y z w : ℚ} {r : ℕ} {q : ℤ}

/-- An integer that is nearest to a number on the grid of integers is nearest even with finer
numbers far below. -/
lemma abs_sub_le_of_half (hhalf : |z - r| ≤ 1 / 2)
    (hw : (∃ n : ℕ, w = n) ∨ (w < 2 ^ 52 ∧ 2 ^ 52 ≤ z)) :
    |z - r| ≤ |z - w| ∧ (w ≠ r → |z - w| = |z - r| → |z - r| = 1 / 2) := by
  -- Two integers that differ do so by one at least.
  have hgrid : ∀ n : ℕ, (n : ℚ) ≠ r → 1 / 2 ≤ |z - n| := by
    intro n hne
    have hone : (1 : ℚ) ≤ |(r : ℚ) - n| := by
      have hdiff : (r : ℤ) - n ≠ 0 := fun h => hne (by exact_mod_cast (sub_eq_zero.1 h).symm)
      exact_mod_cast Int.one_le_abs hdiff
    have htriangle : |(r : ℚ) - n| ≤ |z - r| + |z - n| := by
      rw [abs_sub_comm z r]
      simpa using abs_add_le ((r : ℚ) - z) (z - n)
    linarith
  rcases hw with ⟨n, rfl⟩ | ⟨hlow, hhigh⟩
  · by_cases hne : (n : ℚ) = r
    · rw [hne]
      exact ⟨le_rfl, fun h => absurd rfl h⟩
    · have hfar := hgrid n hne
      exact ⟨hhalf.trans hfar, fun _ heq => le_antisymm hhalf (heq ▸ hfar)⟩
  · have hedge : |z - r| ≤ z - 2 ^ 52 := by
      by_cases hne : ((2 ^ 52 : ℕ) : ℚ) = r
      · rw [Nat.cast_pow, Nat.cast_two] at hne
        rw [← hne, abs_of_nonneg (by linarith)]
      · have hfar := hgrid (2 ^ 52) hne
        rw [Nat.cast_pow, Nat.cast_two, abs_of_nonneg (by linarith)] at hfar
        exact hhalf.trans hfar
    rw [abs_of_nonneg (show 0 ≤ z - w by linarith)]
    exact ⟨by linarith, fun _ heq => by linarith⟩

/-- Every finite float lies on the grid of an exponent, or far below the numbers with that
exponent. -/
lemma scaled_canonical {m : ℕ} {e : ℤ} (hc : Canonical m e) (hlead : -1074 < q → 2 ^ 52 ≤ z) :
    (∃ n : ℕ, (m : ℚ) * 2 ^ e / 2 ^ q = n) ∨ ((m : ℚ) * 2 ^ e / 2 ^ q < 2 ^ 52 ∧ 2 ^ 52 ≤ z) := by
  have htwo : (0 : ℚ) < 2 ^ q := by positivity
  rcases le_or_gt q e with hle | hlt
  · obtain ⟨k, hk⟩ := Int.eq_ofNat_of_zero_le (sub_nonneg.2 hle)
    refine .inl ⟨m * 2 ^ k, ?_⟩
    obtain rfl : e = q + k := by omega
    rw [zpow_add₀ two_ne_zero, zpow_natCast]
    push_cast
    field_simp
  · refine .inr ⟨?_, hlead (lt_of_le_of_lt hc.le_exponent hlt)⟩
    have hm : (m : ℚ) < 2 ^ 53 := by exact_mod_cast hc.mantissa_lt
    have hpow := two_mul_zpow_le hlt
    have he : (0 : ℚ) < 2 ^ e := by positivity
    rw [div_lt_iff₀ htwo]
    nlinarith

end Grid

/-- A number rounded on the grid of an exponent: the one at which fifty-three bits stand before the
point, or the least one. -/
structure Gridded (y : ℚ) (q : ℤ) (r : ℕ) : Prop where
  least : -1074 ≤ q
  lead : -1074 < q → 2 ^ 52 ≤ y / 2 ^ q
  top : y / 2 ^ q < 2 ^ 53
  half : |y / 2 ^ q - r| ≤ 1 / 2
  tie : |y / 2 ^ q - r| = 1 / 2 → r % 2 = 0

lemma exists_gridded {num den : ℕ} (hnum : num ≠ 0) (hden : 0 < den) :
    ∃ q r, Gridded (num / den) q r ∧
      nearestBits num den = min ((q + 1074).toNat * 2 ^ 52 + r) (2047 * 2 ^ 52) := by
  obtain ⟨hlow, hhigh⟩ := leadingPower_spec hnum hden.ne'
  refine ⟨_, _, ?_, nearestBits_eq hnum⟩
  generalize hq : max (leadingPower num den) (-1074) = q
  obtain ⟨hhalf, htie⟩ := abs_sub_roundDiv (scaled num den q).1 (scaled_pos num hden q)
  rw [scaled_ratio] at hhalf htie
  refine ⟨by omega, ?_, ?_, hhalf, htie⟩
  · intro hlt
    have heq : q = leadingPower num den := by omega
    rwa [heq]
  · refine lt_of_le_of_lt ?_ hhigh
    have hpow : (2 : ℚ) ^ leadingPower num den ≤ 2 ^ q :=
      zpow_le_zpow_right₀ (by norm_num) (by omega)
    gcongr

lemma eq_div_mul_zpow (y : ℚ) (q : ℤ) : y = y / 2 ^ q * 2 ^ q :=
  (div_mul_cancel₀ _ (by positivity)).symm

namespace Gridded
variable {y : ℚ} {q : ℤ} {r : ℕ} (h : Gridded y q r)
include h

lemma le_top : r ≤ 2 ^ 53 := by
  have hhalf := (abs_le.1 h.half).1
  have htop := h.top
  have hlt : (r : ℚ) < 2 ^ 53 + 1 := by linarith
  have : r < 2 ^ 53 + 1 := by exact_mod_cast hlt
  omega

lemma lead_le (hq : -1074 < q) : 2 ^ 52 ≤ r := by
  have hhalf := (abs_le.1 h.half).2
  have hlead := h.lead hq
  have hlt : (2 : ℚ) ^ 52 < r + 1 := by linarith
  have : 2 ^ 52 < r + 1 := by exact_mod_cast hlt
  omega

/-- An odd number of units is not met at its half. -/
lemma lt_of_lt_top (hr : r < 2 ^ 53) : y / 2 ^ q < 2 ^ 53 - 1 / 2 := by
  have hhalf := (abs_le.1 h.half).2
  have hle : (r : ℚ) + 1 ≤ 2 ^ 53 := by exact_mod_cast hr
  refine lt_of_le_of_ne (by linarith) ?_
  intro heq
  have hlast : (r : ℚ) + 1 = 2 ^ 53 := by linarith
  have hodd : r + 1 = 2 ^ 53 := by exact_mod_cast hlast
  have hdist : |y / 2 ^ q - r| = 1 / 2 := by
    rw [heq, abs_of_nonneg (by linarith)]
    linarith
  have := h.tie hdist
  omega

lemma nearest {m : ℕ} {e : ℤ} (hc : Canonical m e) (hvalue : (m : ℚ) * 2 ^ e = r * 2 ^ q)
    (heven : r % 2 = 0 → m % 2 = 0) : Nearest y m e := by
  have htwo : (0 : ℚ) < 2 ^ q := by positivity
  have hscale : ∀ x : ℚ, |y - x| = |y / 2 ^ q - x / 2 ^ q| * 2 ^ q := by
    intro x
    rw [← sub_div, abs_div, abs_of_pos htwo, div_mul_cancel₀ _ htwo.ne']
  have hunit : (m : ℚ) * 2 ^ e / 2 ^ q = r := by
    rw [hvalue, mul_div_cancel_right₀ _ htwo.ne']
  refine ⟨hc, ?_, ?_⟩
  · intro m' e' hc'
    rw [hscale, hscale (m' * 2 ^ e'), hunit]
    exact mul_le_mul_of_nonneg_right
      (abs_sub_le_of_half h.half (scaled_canonical hc' h.lead)).1 htwo.le
  · intro m' e' hc' hne heq
    rw [hscale, hscale (m * 2 ^ e), hunit] at heq
    have hne' : (m' : ℚ) * 2 ^ e' / 2 ^ q ≠ r := by
      rw [← hunit]
      exact fun hsame => hne ((div_left_inj' htwo.ne').1 hsame)
    exact heven (h.tie ((abs_sub_le_of_half h.half (scaled_canonical hc' h.lead)).2 hne'
      (mul_right_cancel₀ htwo.ne' heq)))

/-- Rounding that stays below infinity ends at the nearest float. A mantissa that has grown by a bit
goes over into the next exponent. -/
lemma exists_nearest (hsmall : (q + 1074).toNat * 2 ^ 52 + r < 2047 * 2 ^ 52) :
    y < overflow ∧
      ∃ m e, (q + 1074).toNat * 2 ^ 52 + r = magnitude m e ∧ Nearest y m e := by
  have hleast := h.least
  rcases h.le_top.lt_or_eq with hr | rfl
  · have hq : q ≤ 971 := by
      by_contra hq
      have := h.lead_le (by omega)
      omega
    have hpow : (2 : ℚ) ^ q ≤ 2 ^ (971 : ℤ) := zpow_le_zpow_right₀ (by norm_num) hq
    refine ⟨?_, r, q, rfl, h.nearest ⟨hr, hleast, hq, h.lead_le⟩ rfl id⟩
    rw [eq_div_mul_zpow y q, overflow]
    exact mul_lt_mul (h.lt_of_lt_top hr) hpow (by positivity) (by norm_num)
  · have hq : q ≤ 970 := by omega
    have hpow : (2 : ℚ) ^ q ≤ 2 ^ (970 : ℤ) := zpow_le_zpow_right₀ (by norm_num) hq
    refine ⟨?_, 2 ^ 52, q + 1, ?_, h.nearest ⟨by norm_num, by omega, by omega, fun _ => le_rfl⟩ ?_
      fun _ => by norm_num⟩
    · have hdouble := two_mul_zpow_le (show (970 : ℤ) < 971 by norm_num)
      have hpos : (0 : ℚ) < 2 ^ (970 : ℤ) := by positivity
      rw [eq_div_mul_zpow y q, overflow]
      generalize (2 : ℚ) ^ (970 : ℤ) = u, (2 : ℚ) ^ (971 : ℤ) = v at *
      calc y / 2 ^ q * 2 ^ q < 2 ^ 53 * u := mul_lt_mul h.top hpow (by positivity) (by norm_num)
        _ ≤ (2 ^ 53 - 1 / 2) * v := by linarith
    · unfold magnitude
      omega
    · rw [zpow_add_one₀ two_ne_zero]
      push_cast
      ring

lemma overflow_le (hlarge : 2047 * 2 ^ 52 ≤ (q + 1074).toNat * 2 ^ 52 + r) : overflow ≤ y := by
  have htop := h.le_top
  have hq : 971 ≤ q := by omega
  rw [eq_div_mul_zpow y q, overflow]
  rcases hq.lt_or_eq with hq | rfl
  · have hlead := h.lead (by omega)
    have hdouble := two_mul_zpow_le hq
    have hpos : (0 : ℚ) < 2 ^ (971 : ℤ) := by positivity
    generalize (2 : ℚ) ^ (971 : ℤ) = u at *
    calc (2 ^ 53 - 1 / 2 : ℚ) * u ≤ 2 ^ 52 * (2 * u) := by linarith
      _ ≤ y / 2 ^ q * 2 ^ q := mul_le_mul hlead hdouble (by positivity) (by linarith)
  · have hr : r = 2 ^ 53 := by omega
    have hhalf := (abs_le.1 h.half).1
    rw [hr, Nat.cast_pow, Nat.cast_two] at hhalf
    exact mul_le_mul_of_nonneg_right (by linarith) (by positivity)

end Gridded

/-- The bits of a quotient are those of the float nearest to it, or of infinity. -/
theorem nearestBits_spec {num den : ℕ} (hnum : num ≠ 0) (hden : 0 < den) :
    (overflow ≤ num / den ∧ nearestBits num den = 2047 * 2 ^ 52) ∨
      ((num : ℚ) / den < overflow ∧
        ∃ m e, nearestBits num den = magnitude m e ∧ Nearest (num / den) m e) := by
  obtain ⟨q, r, h, hbits⟩ := exists_gridded hnum hden
  rw [hbits]
  rcases le_or_gt (2047 * 2 ^ 52) ((q + 1074).toNat * 2 ^ 52 + r) with hlarge | hsmall
  · exact .inl ⟨h.overflow_le hlarge, min_eq_right hlarge⟩
  · rw [min_eq_left hsmall.le]
    exact .inr (h.exists_nearest hsmall)

/-! From bits to floats. -/

/-- Bits that are put together from a sign, a biased exponent and a fraction. -/
lemma ofBits_of_parts (biased fraction : ℕ) (hbiased : biased < 2 ^ 11)
    (hfraction : fraction < 2 ^ 52) (negative : Bool) {bits : ℕ}
    (hbits : bits = biased * 2 ^ 52 + fraction + if negative then 2 ^ 63 else 0) :
    ofBits bits =
      if biased = 2 ^ 11 - 1 then if fraction = 0 then .infinite negative else .nan
      else if biased = 0 then .finite negative fraction (-1074)
      else .finite negative (2 ^ 52 + fraction) ((biased : ℤ) - 1075) := by
  have hparts : (bits / 2 ^ 63 % 2 == 1) = negative ∧ bits / 2 ^ 52 % 2 ^ 11 = biased ∧
      bits % 2 ^ 52 = fraction := by
    cases negative <;> simp only [Bool.false_eq_true, if_true, if_false, beq_iff_eq,
      beq_eq_false_iff_ne] at * <;> omega
  obtain ⟨hsign, hexp, hfrac⟩ := hparts
  unfold ofBits
  simp only [Nat.pow_eq]
  rw [hsign, hexp, hfrac]

lemma ofBits_magnitude {m : ℕ} {e : ℤ} (hc : Canonical m e) (negative : Bool) :
    ofBits (magnitude m e + if negative then 2 ^ 63 else 0) = .finite negative m e := by
  obtain ⟨hm, hle, hge, hnormal⟩ := hc
  rcases lt_or_ge m (2 ^ 52) with hsmall | hlarge
  · obtain rfl : e = -1074 := by
      by_contra hne
      have := hnormal (by omega)
      omega
    have hbits : magnitude m (-1074) = 0 * 2 ^ 52 + m := rfl
    exact ofBits_of_parts 0 m (by norm_num) hsmall negative (by rw [hbits])
  · have hbits : magnitude m e = (e + 1075).toNat * 2 ^ 52 + (m - 2 ^ 52) := by
      unfold magnitude
      omega
    have hmantissa : 2 ^ 52 + (m - 2 ^ 52) = m := by omega
    have hexponent : ((e + 1075).toNat : ℤ) - 1075 = e := by omega
    rw [ofBits_of_parts (e + 1075).toNat (m - 2 ^ 52) (by omega) (by omega) negative (by rw [hbits]),
      if_neg (by omega), if_neg (by omega), hmantissa, hexponent]

lemma ofBits_infinity (negative : Bool) :
    ofBits (2047 * 2 ^ 52 + if negative then 2 ^ 63 else 0) = .infinite negative :=
  ofBits_of_parts 2047 0 (by norm_num) (by norm_num) negative rfl

/-- Bits that stand for a number are kept. -/
lemma ofFloat_ofBits {bits : ℕ} {b : Binary} (hbits : bits < 2 ^ 64) (h : ofBits bits = b)
    (hb : b ≠ .nan) : ofFloat (.ofBits (UInt64.ofNat bits)) = b := by
  have hnat : (UInt64.ofNat bits).toNat = bits := UInt64.toNat_ofNat_of_lt' hbits
  have hvalid : Float.Model.Format.binary64.Valid (UInt64.ofNat bits).toBitVec := by
    constructor
    intro hexponent hmantissa
    have hnan := (ofBits_eq_nan_iff (UInt64.ofNat bits)).2 ⟨hexponent, hmantissa⟩
    rw [hnat, h] at hnan
    exact absurd hnan hb
  have hsame : (Float.ofBits (UInt64.ofNat bits)).toBits = UInt64.ofNat bits := by
    unfold Float.ofBits Float.toBits Float.Model.ofBits Float.Model.pack
    simp [Float.Model.UnpackedFloat.pack_unpack_of_valid hvalid]
  unfold ofFloat
  rw [hsame, hnat, h]

section Sign
variable {y : ℚ} (negative : Bool)

lemma rounds_of_nearest {m : ℕ} {e : ℤ} (hsmall : y < overflow) (h : Nearest y m e) :
    Rounds negative y
      (ofFloat (.ofBits (UInt64.ofNat (magnitude m e + if negative then 2 ^ 63 else 0)))) := by
  have hbits : magnitude m e + (if negative then 2 ^ 63 else 0) < 2 ^ 64 := by
    obtain ⟨hm, hle, hge, -⟩ := h.canonical
    unfold magnitude
    split <;> omega
  rw [ofFloat_ofBits hbits (ofBits_magnitude h.canonical negative) (by simp)]
  exact .finite hsmall h

lemma rounds_of_overflow (hlarge : overflow ≤ y) :
    Rounds negative y
      (ofFloat (.ofBits (UInt64.ofNat (2047 * 2 ^ 52 + if negative then 2 ^ 63 else 0)))) := by
  have hbits : 2047 * 2 ^ 52 + (if negative then 2 ^ 63 else 0) < 2 ^ 64 := by
    split <;> norm_num
  rw [ofFloat_ofBits hbits (ofBits_infinity negative) (by simp)]
  exact .infinite hlarge

lemma rounds_nearestBits {num den : ℕ} (hnum : num ≠ 0) (hden : 0 < den)
    (hy : y = (num : ℚ) / den) :
    Rounds negative y
      (ofFloat (.ofBits (UInt64.ofNat (nearestBits num den + if negative then 2 ^ 63 else 0)))) := by
  subst hy
  rcases nearestBits_spec hnum hden with ⟨hlarge, hbits⟩ | ⟨hsmall, m, e, hbits, hnearest⟩
  · rw [hbits]
    exact rounds_of_overflow negative hlarge
  · rw [hbits]
    exact rounds_of_nearest negative hsmall hnearest

/-- What is not above half the least positive float is rounded to zero. -/
lemma nearest_zero (hy : 0 ≤ y) (hsmall : 2 * y ≤ 2 ^ (-1074 : ℤ)) : Nearest y 0 (-1074) := by
  refine ⟨⟨by norm_num, le_rfl, by norm_num, fun h => absurd h (lt_irrefl _)⟩, ?_,
    fun _ _ _ _ _ => rfl⟩
  intro m e hc
  rw [Nat.cast_zero, zero_mul, sub_zero, abs_of_nonneg hy]
  rcases Nat.eq_zero_or_pos m with rfl | hm
  · simp [abs_of_nonneg hy]
  · have hleast : (2 : ℚ) ^ (-1074 : ℤ) ≤ 2 ^ e := zpow_le_zpow_right₀ (by norm_num) hc.le_exponent
    have hm₁ : (1 : ℚ) ≤ m := by exact_mod_cast hm
    have hunit : (2 : ℚ) ^ e ≤ m * 2 ^ e := le_mul_of_one_le_left (by positivity) hm₁
    rw [abs_sub_comm]
    exact le_trans (by linarith) (le_abs_self _)

lemma rounds_zero (hy : 0 ≤ y) (hsmall : 2 * y ≤ 2 ^ (-1074 : ℤ)) :
    Rounds negative y (ofFloat (.ofBits (UInt64.ofNat (0 + if negative then 2 ^ 63 else 0)))) := by
  have hone : (2 : ℚ) ^ (-1074 : ℤ) ≤ 1 := zpow_le_one_of_nonpos₀ (by norm_num) (by norm_num)
  have hlarge : 1 ≤ overflow :=
    one_le_mul_of_one_le_of_one_le (by norm_num) (one_le_zpow₀ (by norm_num) (by norm_num))
  have hrounds := rounds_of_nearest negative (by linarith) (nearest_zero hy hsmall)
  have hbits : magnitude 0 (-1074) = 0 := rfl
  rwa [hbits] at hrounds

end Sign

end Binary

open Binary (Rounds)

lemma two_mul_decimal_le {c : ℕ} (hc : 0 < c) {x : ℤ} (hsize : (digitCount c : ℤ) + x < -400) :
    2 * ((c : ℚ) * 10 ^ x) ≤ 2 ^ (-1074 : ℤ) := by
  have hsmall := decimal_lt hc hsize
  have hleast : 2 * (2 : ℚ) ^ (-(3 * 401 : ℕ) : ℤ) ≤ 2 ^ (-1074 : ℤ) :=
    Binary.two_mul_zpow_le (by norm_num)
  linarith

lemma overflow_le_decimal {c : ℕ} (hc : 0 < c) {x : ℤ} (hsize : 400 < (digitCount c : ℤ) + x) :
    overflow ≤ c * 10 ^ x := by
  calc overflow ≤ 2 ^ (53 : ℕ) * 2 ^ (971 : ℤ) := by
        unfold overflow
        gcongr
        norm_num
    _ ≤ 2 ^ (3 * 400) := by
        rw [← zpow_natCast, ← zpow_natCast, ← zpow_add₀ (by norm_num)]
        exact zpow_le_zpow_right₀ (by norm_num) (by norm_num)
    _ ≤ c * 10 ^ x := le_decimal hc hsize

/-- The float nearest to a decimal number. -/
theorem rounds_nearestFloat (negative : Bool) (c : ℕ) (x : ℤ) :
    Rounds negative (c * 10 ^ x) (Binary.ofFloat (nearestFloat negative c x)) := by
  unfold nearestFloat
  simp only [Nat.pow_eq]
  change Rounds negative _ (Binary.ofFloat (.ofBits (UInt64.ofNat
    ((if c = 0 ∨ (digitCount c : ℤ) + x < -400 then 0 else if 400 < (digitCount c : ℤ) + x then _
      else _) + _))))
  by_cases htiny : c = 0 ∨ (digitCount c : ℤ) + x < -400
  · rw [if_pos htiny]
    have hhalf : 2 * ((c : ℚ) * 10 ^ x) ≤ 2 ^ (-1074 : ℤ) := by
      rcases Nat.eq_zero_or_pos c with rfl | hc
      · simp
      · exact two_mul_decimal_le hc (htiny.resolve_left hc.ne')
    exact Binary.rounds_zero negative (by positivity) hhalf
  · obtain ⟨hc, -⟩ := not_or.1 htiny
    rw [if_neg htiny]
    by_cases hhuge : 400 < (digitCount c : ℤ) + x
    · rw [if_pos hhuge]
      exact Binary.rounds_of_overflow negative (overflow_le_decimal (Nat.pos_of_ne_zero hc) hhuge)
    · rw [if_neg hhuge]
      split
      · rename_i hx
        obtain ⟨n, rfl⟩ := Int.eq_ofNat_of_zero_le hx
        exact Binary.rounds_nearestBits negative (by positivity) Nat.one_pos (by simp)
      · rename_i hx
        obtain ⟨n, hn⟩ : ∃ n : ℕ, x = -(n : ℤ) := ⟨(-x).toNat, by omega⟩
        subst hn
        exact Binary.rounds_nearestBits negative hc (by positivity) (by simp [div_eq_mul_inv])

namespace Numeral

/-- The exponent that is written in a numeral. -/
def writtenExponent (n : Numeral) : ℤ :=
  match n.exponent with
  | none => 0
  | some (_, sign, ds) =>
    if sign = some '-' then -(Nat.ofDigitChars 10 ds 0 : ℤ) else Nat.ofDigitChars 10 ds 0

/-- The number that a numeral stands for, sign left out. -/
def value (n : Numeral) : ℚ :=
  (Nat.ofDigitChars 10 n.whole 0 + Nat.ofDigitChars 10 (n.fraction.getD []) 0 /
    10 ^ (n.fraction.getD []).length) * 10 ^ n.writtenExponent

lemma value_eq (n : Numeral) : n.value = n.coefficient * 10 ^ n.power := by
  have hpower : n.power = n.writtenExponent - (n.fraction.getD []).length := by
    unfold power writtenExponent
    rcases n.exponent with - | ⟨_, sign, ds⟩ <;> simp only [digitsValue_eq]
  have hcoefficient : (n.coefficient : ℚ) = 10 ^ (n.fraction.getD []).length *
      Nat.ofDigitChars 10 n.whole 0 + Nat.ofDigitChars 10 (n.fraction.getD []) 0 := by
    unfold coefficient
    rw [digitsValue_eq, Nat.ofDigitChars_append, Nat.ofDigitChars_eq_ofDigitChars_zero]
    push_cast
    rfl
  rw [hpower, hcoefficient, value, zpow_sub₀ (by norm_num), zpow_natCast]
  field_simp

/-- A numeral is read as the float nearest to its value. -/
theorem rounds_toFloat (n : Numeral) :
    Rounds (n.sign = some '-') n.value (Binary.ofFloat n.toFloat) := by
  rw [toFloat_eq, value_eq]
  exact rounds_nearestFloat _ _ _

end Numeral
end Sortie.Decimal
