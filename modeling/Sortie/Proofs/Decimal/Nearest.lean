import Mathlib.Algebra.Order.Field.Power
import Mathlib.Data.Rat.Cast.Order
import Mathlib.Tactic.FieldSimp
import Mathlib.Tactic.Linarith
import Mathlib.Tactic.NormNum
import Mathlib.Tactic.Positivity
import Mathlib.Tactic.Ring
import Sortie.Decimal.Shortest

/-! A number that lies in the rounding interval of a float is read as that float. -/
namespace Sortie.Decimal

/-- A number, in the units of the interval, that is inside. -/
def Interval.Holds (i : Interval) (y : ℚ) : Prop :=
  if i.closed then (i.low : ℚ) ≤ y ∧ y ≤ i.high else (i.low : ℚ) < y ∧ y < i.high

/-- The numbers that round to a float. -/
def RoundsTo (x : ℚ) (mantissa : ℕ) (exponent : ℤ) : Prop :=
  (Interval.around mantissa exponent).Holds (x / 2 ^ (exponent - 2))

section Powers
variable (n b : ℕ) (x : ℤ)

lemma ite_mul_pow : (if 0 ≤ x then n * b ^ x.toNat else n) = n * b ^ x.toNat := by
  split
  · rfl
  · rw [Int.toNat_of_nonpos (by omega), pow_zero, mul_one]

lemma ite_mul_pow_neg : (if 0 ≤ x then n else n * b ^ (-x).toNat) = n * b ^ (-x).toNat := by
  split
  · rw [Int.toNat_of_nonpos (by omega), pow_zero, mul_one]
  · rfl

/-- One of the two powers is always one. -/
lemma natCast_zpow_eq_div {b : ℕ} (hb : 0 < b) (x : ℤ) :
    (b : ℚ) ^ x = ((b ^ x.toNat : ℕ) : ℚ) / (b ^ (-x).toNat : ℕ) := by
  have hne : (b : ℚ) ≠ 0 := by exact_mod_cast hb.ne'
  have hx : x = (x.toNat : ℤ) - ((-x).toNat : ℤ) := by omega
  conv_lhs => rw [hx]
  rw [zpow_sub₀ hne, zpow_natCast, zpow_natCast]
  push_cast
  rfl

end Powers

namespace Binary

/-- The pairs of mantissa and exponent of finite floats: below the least normal exponent there is
none, and above it the mantissa has all its bits. -/
structure Canonical (mantissa : ℕ) (exponent : ℤ) : Prop where
  mantissa_lt : mantissa < 2 ^ 53
  le_exponent : -1074 ≤ exponent
  exponent_le : exponent ≤ 971
  normal : -1074 < exponent → 2 ^ 52 ≤ mantissa

/-- The bits of a float without its sign. -/
def magnitude (mantissa : ℕ) (exponent : ℤ) : ℕ := (exponent + 1074).toNat * 2 ^ 52 + mantissa

/-- The bits of a float by its sign, its biased exponent and its fraction. -/
lemma bits_eq {bits : ℕ} (hbits : bits < 2 ^ 64) :
    bits = bits / 2 ^ 52 % 2 ^ 11 * 2 ^ 52 + bits % 2 ^ 52 +
      if (bits / 2 ^ 63 % 2 == 1) = true then 2 ^ 63 else 0 := by
  have hweight : (if (bits / 2 ^ 63 % 2 == 1) = true then 2 ^ 63 else 0) =
      bits / 2 ^ 63 % 2 * 2 ^ 63 := by
    have hsign : bits / 2 ^ 63 % 2 < 2 := Nat.mod_lt _ (by norm_num)
    generalize bits / 2 ^ 63 % 2 = sign at *
    obtain rfl | rfl : sign = 0 ∨ sign = 1 := by omega
    · rfl
    · rfl
  rw [hweight]
  omega

lemma ofBits_eq_infinite {bits : ℕ} (hbits : bits < 2 ^ 64) {negative : Bool}
    (h : ofBits bits = .infinite negative) :
    bits = (2 ^ 11 - 1) * 2 ^ 52 + if negative then 2 ^ 63 else 0 := by
  have hsplit := bits_eq hbits
  unfold ofBits at h
  simp only [Nat.pow_eq] at h
  split at h
  · rename_i hbiased
    split at h
    · rename_i hfraction
      cases h
      rwa [hbiased, hfraction] at hsplit
    · cases h
  · split at h <;> cases h

lemma ofBits_eq_finite {bits : ℕ} (hbits : bits < 2 ^ 64) {negative : Bool} {mantissa : ℕ}
    {exponent : ℤ} (h : ofBits bits = .finite negative mantissa exponent) :
    Canonical mantissa exponent ∧
      bits = magnitude mantissa exponent + if negative then 2 ^ 63 else 0 := by
  have hsplit := bits_eq hbits
  have hbiased : bits / 2 ^ 52 % 2 ^ 11 < 2 ^ 11 := Nat.mod_lt _ (by norm_num)
  have hfraction : bits % 2 ^ 52 < 2 ^ 52 := Nat.mod_lt _ (by norm_num)
  unfold ofBits at h
  simp only [Nat.pow_eq] at h
  generalize (bits / 2 ^ 63 % 2 == 1) = sign at *
  generalize bits / 2 ^ 52 % 2 ^ 11 = biased at *
  generalize bits % 2 ^ 52 = fraction at *
  split at h
  · split at h <;> cases h
  · split at h
    · rename_i hzero
      cases h
      refine ⟨⟨by omega, le_rfl, by norm_num, fun hlt => absurd hlt (lt_irrefl _)⟩, ?_⟩
      rw [hsplit, hzero]
      rfl
    · cases h
      refine ⟨⟨by omega, by omega, by omega, fun _ => by omega⟩, ?_⟩
      have hexp : ((biased : ℤ) - 1075 + 1074).toNat = biased - 1 := by omega
      rw [hsplit, magnitude, hexp]
      omega

/-- Rounding to the nearest integer, stated without division: a half goes to the even side. -/
lemma roundDiv_eq {num den n : ℕ} (hden : 0 < den) (hlow : 2 * n * den ≤ 2 * num + den)
    (hhigh : 2 * num ≤ (2 * n + 1) * den)
    (hodd : n % 2 = 1 → 2 * n * den < 2 * num + den ∧ 2 * num < (2 * n + 1) * den) :
    roundDiv num den = n := by
  have hdiv : den * (num / den) + num % den = num := Nat.div_add_mod num den
  have hmod : num % den < den := Nat.mod_lt _ hden
  unfold roundDiv
  simp only
  generalize num / den = q at *
  generalize num % den = r at *
  subst hdiv
  -- The quotient is within a half of `n`, so it is `n` itself or the number below.
  have hle : n ≤ q + 1 := by
    by_contra hcon
    have : (q + 2) * den ≤ n * den := Nat.mul_le_mul_right den (by omega)
    nlinarith
  have hge : q ≤ n := by
    by_contra hcon
    have : (n + 1) * den ≤ q * den := Nat.mul_le_mul_right den (by omega)
    nlinarith
  obtain rfl | rfl : n = q ∨ n = q + 1 := by omega
  · have hr : 2 * r ≤ den := by nlinarith
    by_cases hlt : 2 * r < den
    · rw [if_pos hlt]
    · have heven : ¬ n % 2 = 1 := by
        intro ho
        have := (hodd ho).2
        nlinarith
      rw [if_neg hlt, if_neg (by omega)]
      omega
  · have hr : den ≤ 2 * r := by nlinarith
    by_cases hlt : den < 2 * r
    · rw [if_neg (by omega), if_pos hlt]
    · have heven : ¬ (q + 1) % 2 = 1 := by
        intro ho
        have := (hodd ho).1
        nlinarith
      rw [if_neg (by omega), if_neg hlt]
      omega

/-- A quotient divided by a power of two, again as a quotient. -/
def scaled (num den : ℕ) (q : ℤ) : ℕ × ℕ :=
  if 0 ≤ q then (num, den * 2 ^ q.toNat) else (num * 2 ^ (-q).toNat, den)

lemma scaled_eq (num den : ℕ) (q : ℤ) :
    scaled num den q = (num * 2 ^ (-q).toNat, den * 2 ^ q.toNat) := by
  unfold scaled
  rw [← ite_mul_pow_neg, ← ite_mul_pow]
  split <;> rfl

lemma scaled_pos (num : ℕ) {den : ℕ} (hden : 0 < den) (q : ℤ) : 0 < (scaled num den q).2 := by
  rw [scaled_eq]
  positivity

lemma scaled_ratio (num den : ℕ) (q : ℤ) :
    ((scaled num den q).1 : ℚ) / (scaled num den q).2 = num / den / 2 ^ q := by
  have hpow := natCast_zpow_eq_div Nat.two_pos q
  push_cast at hpow
  rw [scaled_eq, hpow]
  push_cast
  rw [div_div_div_eq, mul_comm (den : ℚ)]

/-- The power of two by which a quotient has fifty-three bits before the point. -/
def leadingPower (num den : ℕ) : ℤ :=
  let guess : ℤ := (Nat.log2 num : ℤ) - (Nat.log2 den : ℤ) - 52
  if 2 ^ 52 * (scaled num den guess).2 ≤ (scaled num den guess).1 then guess else guess - 1

lemma nearestBits_eq {num den : ℕ} (hnum : num ≠ 0) :
    nearestBits num den =
      let exponent := max (leadingPower num den) (-1074)
      min ((exponent + 1074).toNat * 2 ^ 52 +
        roundDiv (scaled num den exponent).1 (scaled num den exponent).2) (2047 * 2 ^ 52) := by
  unfold nearestBits
  rw [if_neg hnum]
  unfold leadingPower scaled
  simp only [Nat.pow_eq, decide_eq_true_eq]

lemma quotient_between {num den : ℕ} (hnum : num ≠ 0) (hden : den ≠ 0) :
    (2 : ℚ) ^ ((Nat.log2 num : ℤ) - Nat.log2 den - 1) < num / den ∧
      (num : ℚ) / den < 2 ^ ((Nat.log2 num : ℤ) - Nat.log2 den + 1) := by
  have hn₁ : (2 : ℚ) ^ Nat.log2 num ≤ num := by exact_mod_cast Nat.log2_self_le hnum
  have hn₂ : (num : ℚ) < 2 ^ (Nat.log2 num + 1) := by exact_mod_cast Nat.lt_log2_self
  have hd₁ : (2 : ℚ) ^ Nat.log2 den ≤ den := by exact_mod_cast Nat.log2_self_le hden
  have hd₂ : (den : ℚ) < 2 ^ (Nat.log2 den + 1) := by exact_mod_cast Nat.lt_log2_self
  have hdpos : (0 : ℚ) < den := by exact_mod_cast Nat.pos_of_ne_zero hden
  generalize Nat.log2 num = a at *
  generalize Nat.log2 den = b at *
  constructor
  · have hpow : (2 : ℚ) ^ ((a : ℤ) - b - 1) * 2 ^ (b + 1) = 2 ^ a := by
      rw [← zpow_natCast, ← zpow_natCast, ← zpow_add₀ (by norm_num)]
      congr 1
      push_cast
      ring
    rw [lt_div_iff₀ hdpos]
    calc (2 : ℚ) ^ ((a : ℤ) - b - 1) * den < 2 ^ ((a : ℤ) - b - 1) * 2 ^ (b + 1) := by gcongr
      _ = 2 ^ a := hpow
      _ ≤ num := hn₁
  · have hpow : (2 : ℚ) ^ ((a : ℤ) - b + 1) * 2 ^ b = 2 ^ (a + 1) := by
      rw [← zpow_natCast, ← zpow_natCast, ← zpow_add₀ (by norm_num)]
      congr 1
      push_cast
      ring
    rw [div_lt_iff₀ hdpos]
    calc (num : ℚ) < 2 ^ (a + 1) := hn₂
      _ = 2 ^ ((a : ℤ) - b + 1) * 2 ^ b := hpow.symm
      _ ≤ 2 ^ ((a : ℤ) - b + 1) * den := by gcongr

lemma two_mul_zpow_le {a b : ℤ} (h : a < b) : (2 : ℚ) * 2 ^ a ≤ 2 ^ b := by
  rw [← zpow_one_add₀ (by norm_num)]
  exact zpow_le_zpow_right₀ (by norm_num) (by omega)

lemma div_two_zpow_pred (x : ℚ) (q : ℤ) : x / 2 ^ (q - 1) = 2 * (x / 2 ^ q) := by
  rw [zpow_sub_one₀ (by norm_num)]
  field_simp

lemma leadingPower_spec {num den : ℕ} (hnum : num ≠ 0) (hden : den ≠ 0) :
    2 ^ 52 ≤ (num : ℚ) / den / 2 ^ leadingPower num den ∧
      (num : ℚ) / den / 2 ^ leadingPower num den < 2 ^ 53 := by
  obtain ⟨hlow, hhigh⟩ := quotient_between hnum hden
  unfold leadingPower
  simp only
  generalize hguess : (Nat.log2 num : ℤ) - Nat.log2 den - 52 = guess
  have hratio := scaled_ratio num den guess
  have hpos : (0 : ℚ) < (scaled num den guess).2 := by
    exact_mod_cast scaled_pos num (Nat.pos_of_ne_zero hden) guess
  have hfits : 2 ^ 52 * (scaled num den guess).2 ≤ (scaled num den guess).1 ↔
      2 ^ 52 ≤ (num : ℚ) / den / 2 ^ guess := by
    rw [← hratio, le_div_iff₀ hpos]
    exact_mod_cast Iff.rfl
  have hlow' : (2 : ℚ) ^ (51 : ℕ) * 2 ^ guess < num / den := by
    convert hlow using 1
    rw [← zpow_natCast, ← zpow_add₀ (by norm_num)]
    congr 1
    push_cast
    omega
  have hhigh' : (num : ℚ) / den < 2 ^ (53 : ℕ) * 2 ^ guess := by
    convert hhigh using 1
    rw [← zpow_natCast, ← zpow_add₀ (by norm_num)]
    congr 1
    push_cast
    omega
  have htwo : (0 : ℚ) < 2 ^ guess := by positivity
  by_cases h : 2 ^ 52 * (scaled num den guess).2 ≤ (scaled num den guess).1
  · rw [if_pos h]
    refine ⟨hfits.1 h, ?_⟩
    rwa [div_lt_iff₀ htwo]
  · rw [if_neg h]
    have hnot : (num : ℚ) / den / 2 ^ guess < 2 ^ 52 := by
      rw [← not_le, ← hfits]
      exact h
    rw [div_two_zpow_pred]
    rw [← lt_div_iff₀ htwo] at hlow'
    constructor <;> linarith

/-- A power that leaves at least fifty-three bits before the point is at most one that leaves no
more than those. -/
lemma power_le_of_bits {y : ℚ} {a c : ℤ} (hlow : 2 ^ 52 ≤ y / 2 ^ a) (hhigh : y / 2 ^ c < 2 ^ 53) :
    a ≤ c := by
  by_contra hlt
  rw [le_div_iff₀ (by positivity)] at hlow
  rw [div_lt_iff₀ (by positivity)] at hhigh
  have := two_mul_zpow_le (not_le.1 hlt)
  linarith

lemma roundDiv_scaled_eq {num den n : ℕ} {q : ℤ} (hden : 0 < den)
    (hlow : 2 * (n : ℚ) - 1 ≤ 2 * (num / den / 2 ^ q))
    (hhigh : 2 * ((num : ℚ) / den / 2 ^ q) ≤ 2 * n + 1)
    (hodd : n % 2 = 1 →
      2 * (n : ℚ) - 1 < 2 * (num / den / 2 ^ q) ∧ 2 * ((num : ℚ) / den / 2 ^ q) < 2 * n + 1) :
    roundDiv (scaled num den q).1 (scaled num den q).2 = n := by
  have hpos := scaled_pos num hden q
  rw [← scaled_ratio] at hlow hhigh hodd
  generalize (scaled num den q).1 = a at *
  generalize (scaled num den q).2 = b at *
  have hb : (0 : ℚ) < b := by exact_mod_cast hpos
  have hmul : (a : ℚ) / b * b = a := div_mul_cancel₀ _ hb.ne'
  generalize (a : ℚ) / b = w at *
  apply roundDiv_eq hpos
  · have : 2 * (n : ℚ) * b ≤ 2 * a + b := by nlinarith
    exact_mod_cast this
  · have : 2 * (a : ℚ) ≤ (2 * n + 1) * b := by nlinarith
    exact_mod_cast this
  · intro ho
    obtain ⟨hl, hh⟩ := hodd ho
    constructor
    · have : 2 * (n : ℚ) * b < 2 * a + b := by nlinarith
      exact_mod_cast this
    · have : 2 * (a : ℚ) < (2 * n + 1) * b := by nlinarith
      exact_mod_cast this

end Binary

section Bounds
variable {x : ℚ} {mantissa : ℕ} {exponent : ℤ}

lemma RoundsTo.quarters (h : RoundsTo x mantissa exponent) :
    (Interval.around mantissa exponent).Holds (4 * (x / 2 ^ exponent)) := by
  have hfour : x / 2 ^ (exponent - 2) = 4 * (x / 2 ^ exponent) := by
    rw [zpow_sub₀ (by norm_num)]
    field_simp
    norm_num
  unfold RoundsTo at h
  rwa [hfour] at h

lemma Interval.Holds.le {i : Interval} {y : ℚ} (h : i.Holds y) : (i.low : ℚ) ≤ y ∧ y ≤ i.high := by
  unfold Interval.Holds at h
  split at h
  · exact h
  · exact ⟨h.1.le, h.2.le⟩

lemma Interval.Holds.lt {i : Interval} {y : ℚ} (h : i.Holds y) (hopen : i.closed = false) :
    (i.low : ℚ) < y ∧ y < i.high := by
  unfold Interval.Holds at h
  rwa [hopen, if_neg (by simp)] at h

lemma Interval.around_low (hm : 0 < mantissa) (exponent : ℤ) :
    4 * (mantissa : ℚ) - 2 ≤ (Interval.around mantissa exponent).low := by
  unfold Interval.around
  simp only
  split
  · have : 4 * mantissa - 1 + 1 = 4 * mantissa := by omega
    have hq : ((4 * mantissa - 1 : ℕ) : ℚ) + 1 = 4 * mantissa := by exact_mod_cast this
    linarith
  · have : 4 * mantissa - 2 + 2 = 4 * mantissa := by omega
    have hq : ((4 * mantissa - 2 : ℕ) : ℚ) + 2 = 4 * mantissa := by exact_mod_cast this
    linarith

/-- A number that rounds to a float differs from it by at most half a unit of its last place. -/
lemma RoundsTo.bounds (h : RoundsTo x mantissa exponent) (hm : 0 < mantissa) :
    2 * (mantissa : ℚ) - 1 ≤ 2 * (x / 2 ^ exponent) ∧
      2 * (x / 2 ^ exponent) ≤ 2 * mantissa + 1 ∧
      (mantissa % 2 = 1 → 2 * (mantissa : ℚ) - 1 < 2 * (x / 2 ^ exponent) ∧
        2 * (x / 2 ^ exponent) < 2 * mantissa + 1) := by
  have hq := h.quarters
  have hlow := Interval.around_low hm exponent
  have hhigh : ((Interval.around mantissa exponent).high : ℚ) = 4 * mantissa + 2 := by
    simp [Interval.around]
  obtain ⟨hl, hh⟩ := hq.le
  refine ⟨by linarith, by linarith, ?_⟩
  intro ho
  have hopen : (Interval.around mantissa exponent).closed = false := by
    simp [Interval.around, ho]
  obtain ⟨hl, hh⟩ := hq.lt hopen
  constructor <;> linarith

/-- Below a power of two the interval is half as wide. -/
lemma RoundsTo.narrow (h : RoundsTo x mantissa exponent) (hm : mantissa = 2 ^ 52)
    (he : -1074 < exponent) : 4 * (2 : ℚ) ^ 52 - 1 ≤ 4 * (x / 2 ^ exponent) := by
  have hlow : ((Interval.around mantissa exponent).low : ℚ) = 4 * 2 ^ 52 - 1 := by
    simp only [Interval.around, Nat.pow_eq, hm, he, and_self, if_true]
    norm_num
  have := h.quarters.le.1
  linarith

end Bounds

/-- A quotient in the rounding interval of a float has the bits of that float. -/
theorem nearestBits_of_roundsTo {num den mantissa : ℕ} {exponent : ℤ}
    (hc : Binary.Canonical mantissa exponent) (hm : 0 < mantissa) (hden : 0 < den)
    (h : RoundsTo (num / den) mantissa exponent) :
    Binary.nearestBits num den = Binary.magnitude mantissa exponent := by
  obtain ⟨hlow, hhigh, hodd⟩ := h.bounds hm
  have hnum : num ≠ 0 := by
    rintro rfl
    have : (1 : ℚ) ≤ mantissa := by exact_mod_cast hm
    norm_num at hlow
    linarith
  have hbits := Binary.leadingPower_spec hnum hden.ne'
  have htop : (mantissa : ℚ) + 1 ≤ 2 ^ 53 := by exact_mod_cast hc.mantissa_lt
  have hbig : Binary.magnitude mantissa exponent ≤ 2047 * 2 ^ 52 := by
    have := hc.mantissa_lt
    have := hc.le_exponent
    have := hc.exponent_le
    unfold Binary.magnitude
    omega
  rw [Binary.nearestBits_eq hnum]
  simp only
  by_cases hbelow : -1074 < exponent ∧ (num : ℚ) / den / 2 ^ exponent < 2 ^ 52
  · -- Only a power of two has numbers below its binade in its interval.
    obtain ⟨he, hz⟩ := hbelow
    have hpower : mantissa = 2 ^ 52 := by
      have hge := hc.normal he
      have hle : (mantissa : ℚ) < 2 ^ 52 + 1 := by linarith
      have : mantissa < 2 ^ 52 + 1 := by exact_mod_cast hle
      omega
    have hnarrow := h.narrow hpower he
    have hhalf := Binary.div_two_zpow_pred (num / den) exponent
    have hlead : Binary.leadingPower num den = exponent - 1 := by
      apply le_antisymm
      · exact Binary.power_le_of_bits hbits.1 (by rw [hhalf]; linarith)
      · exact Binary.power_le_of_bits (by rw [hhalf]; linarith) hbits.2
    have hround : Binary.roundDiv (Binary.scaled num den (exponent - 1)).1
        (Binary.scaled num den (exponent - 1)).2 = 2 ^ 53 := by
      apply Binary.roundDiv_scaled_eq hden
      · rw [hhalf]; push_cast; linarith
      · rw [hhalf]; push_cast; linarith
      · intro ho; norm_num at ho
    have hcarry : (exponent - 1 + 1074).toNat * 2 ^ 52 + 2 ^ 53 =
        Binary.magnitude mantissa exponent := by
      unfold Binary.magnitude
      omega
    rw [hlead, max_eq_left (by omega), hround, hcarry]
    exact min_eq_left hbig
  · have hle : Binary.leadingPower num den ≤ exponent :=
      Binary.power_le_of_bits hbits.1 (by linarith)
    have hexp : max (Binary.leadingPower num den) (-1074) = exponent := by
      rcases hc.le_exponent.lt_or_eq with he | he
      · have hz : 2 ^ 52 ≤ (num : ℚ) / den / 2 ^ exponent := by
          by_contra hlt
          exact hbelow ⟨he, not_le.1 hlt⟩
        have := Binary.power_le_of_bits hz hbits.2
        omega
      · omega
    rw [hexp, Binary.roundDiv_scaled_eq hden hlow hhigh hodd]
    exact min_eq_left hbig

end Sortie.Decimal
