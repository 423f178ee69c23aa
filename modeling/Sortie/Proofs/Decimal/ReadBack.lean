import Mathlib
import Sortie.Decimal.Layout
import Sortie.Proofs.Decimal.Numeral
import Sortie.Proofs.Decimal.Shortest

/-! The text of a finite float is a numeral that is read back as that float. -/
namespace Sortie.Decimal
open Float.Model.UnpackedFloat (unpackExponent unpackMantissa unpackExponent_def unpackMantissa_def)

lemma Binary.ofBits_eq_nan_iff (b : UInt64) :
    Binary.ofBits b.toNat = .nan ↔
      @unpackExponent .binary64 b.toBitVec = -1#11 ∧ @unpackMantissa .binary64 b.toBitVec ≠ 0#52 := by
  have hexponent : @unpackExponent .binary64 b.toBitVec = -1#11 ↔
      b.toNat / 2 ^ 52 % 2 ^ 11 = 2 ^ 11 - 1 := by
    rw [unpackExponent_def, ← BitVec.toNat_inj, BitVec.extractLsb'_toNat,
      Nat.shiftRight_eq_div_pow]
    rfl
  have hmantissa : @unpackMantissa .binary64 b.toBitVec = 0#52 ↔ b.toNat % 2 ^ 52 = 0 := by
    rw [unpackMantissa_def, ← BitVec.toNat_inj, BitVec.extractLsb'_toNat, Nat.shiftRight_zero]
    rfl
  rw [ne_eq, hexponent, hmantissa]
  unfold Binary.ofBits
  simp only [Nat.pow_eq]
  split_ifs with hexp hzero hleast
  · simp [hzero]
  · simp [hexp, hzero]
  · simp [hexp]
  · simp [hexp]

/-- There is one float that is not a number. -/
lemma eq_of_nan {v w : Float} (hv : Binary.ofFloat v = .nan) (hw : Binary.ofFloat w = .nan) :
    v = w := by
  have hbits : ∀ {u : Float}, Binary.ofFloat u = .nan → u.toBits.toBitVec =
      Float.Model.UnpackedFloat.packedNaN .binary64 := by
    intro u hu
    obtain ⟨hexponent, hmantissa⟩ := (Binary.ofBits_eq_nan_iff u.toBits).1 hu
    exact u.toModel.valid.eq_packedNaN hexponent hmantissa
  rw [← Float.toBits_inj]
  exact UInt64.toBitVec_inj.1 ((hbits hv).trans (hbits hw).symm)

/-- A float is known by its class and value. -/
lemma ofFloat_injective : Function.Injective Binary.ofFloat := by
  intro v w h
  have hbits : v.toBits.toNat = w.toBits.toNat → v = w := fun hn =>
    Float.toBits_inj.1 (UInt64.toNat_inj.1 hn)
  rcases hv : Binary.ofFloat v with - | negative | ⟨negative, mantissa, exponent⟩
  · exact eq_of_nan hv (h.symm.trans hv)
  · have hw := h.symm.trans hv
    apply hbits
    rw [Binary.ofBits_eq_infinite v.toBits.toNat_lt hv,
      Binary.ofBits_eq_infinite w.toBits.toNat_lt hw]
  · have hw := h.symm.trans hv
    apply hbits
    rw [(Binary.ofBits_eq_finite v.toBits.toNat_lt hv).2,
      (Binary.ofBits_eq_finite w.toBits.toNat_lt hw).2]

/-- A decimal number is below a power of ten of as many digits, and not below the next one. -/
lemma decimal_between {c : ℕ} (hc : 0 < c) (x : ℤ) :
    (10 : ℚ) ^ ((digitCount c : ℤ) + x - 1) ≤ c * 10 ^ x ∧
      (c : ℚ) * 10 ^ x < 10 ^ ((digitCount c : ℤ) + x) := by
  have hlow : (10 : ℚ) ^ (digitCount c - 1) ≤ c := by exact_mod_cast pow_pred_digitCount_le hc
  have hhigh : (c : ℚ) < 10 ^ digitCount c := by exact_mod_cast lt_pow_digitCount c
  have hpos := digitCount_pos c
  have hpow : (10 : ℚ) ^ ((digitCount c : ℤ) + x - 1) = 10 ^ (digitCount c - 1) * 10 ^ x := by
    rw [← zpow_natCast, ← zpow_add₀ (by norm_num)]
    congr 1
    omega
  constructor
  · rw [hpow]
    gcongr
  · rw [zpow_add₀ (by norm_num), zpow_natCast]
    gcongr

lemma two_pow_le_ten_pow (n : ℕ) : (2 : ℚ) ^ (3 * n) ≤ 10 ^ n := by
  rw [pow_mul]
  gcongr
  norm_num

/-- A decimal number whose first digit stands far behind the point is tiny. -/
lemma decimal_lt {c : ℕ} (hc : 0 < c) {x : ℤ} (hsize : (digitCount c : ℤ) + x < -400) :
    (c : ℚ) * 10 ^ x < 2 ^ (-(3 * 401 : ℕ) : ℤ) := by
  calc (c : ℚ) * 10 ^ x < 10 ^ ((digitCount c : ℤ) + x) := (decimal_between hc x).2
    _ ≤ 10 ^ (-(401 : ℕ) : ℤ) := zpow_le_zpow_right₀ (by norm_num) (by omega)
    _ ≤ 2 ^ (-(3 * 401 : ℕ) : ℤ) := by
      rw [zpow_neg, zpow_neg, zpow_natCast, zpow_natCast]
      exact inv_anti₀ (by positivity) (two_pow_le_ten_pow 401)

/-- A decimal number with many digits before the point is huge. -/
lemma le_decimal {c : ℕ} (hc : 0 < c) {x : ℤ} (hsize : 400 < (digitCount c : ℤ) + x) :
    (2 : ℚ) ^ (3 * 400) ≤ c * 10 ^ x := by
  calc (2 : ℚ) ^ (3 * 400) ≤ 10 ^ 400 := two_pow_le_ten_pow 400
    _ ≤ 10 ^ ((digitCount c : ℤ) + x - 1) := by
      rw [← zpow_natCast]
      exact zpow_le_zpow_right₀ (by norm_num) (by omega)
    _ ≤ c * 10 ^ x := (decimal_between hc x).1

/-- Numbers that round to a positive float are far inside the range in which the quotient is
formed. -/
lemma size_of_roundsTo {c mantissa : ℕ} {x exponent : ℤ} (hc : Binary.Canonical mantissa exponent)
    (hm : 0 < mantissa) (hpos : 0 < c) (h : RoundsTo (c * 10 ^ x) mantissa exponent) :
    -400 ≤ (digitCount c : ℤ) + x ∧ (digitCount c : ℤ) + x ≤ 400 := by
  obtain ⟨hlow, hhigh, -⟩ := h.bounds hm
  have hm₁ : (1 : ℚ) ≤ mantissa := by exact_mod_cast hm
  have hm₂ : (mantissa : ℚ) < 2 ^ 53 := by exact_mod_cast hc.mantissa_lt
  have htwo : (0 : ℚ) < 2 ^ exponent := by positivity
  constructor
  · have hvalue : (2 : ℚ) ^ exponent ≤ 2 * (c * 10 ^ x) := by
      have hhalf : (1 : ℚ) ≤ 2 * (c * 10 ^ x / 2 ^ exponent) := by linarith
      rw [← mul_div_assoc, le_div_iff₀ htwo] at hhalf
      linarith
    by_contra hsize
    have hsmall := decimal_lt hpos (not_le.1 hsize)
    have hleast : 2 * (2 : ℚ) ^ (-(3 * 401 : ℕ) : ℤ) ≤ 2 ^ exponent := by
      apply Binary.two_mul_zpow_le
      have := hc.le_exponent
      omega
    linarith
  · have hvalue : (c : ℚ) * 10 ^ x < 2 ^ 54 * 2 ^ exponent := by
      rw [← div_lt_iff₀ htwo]
      linarith
    by_contra hsize
    apply lt_irrefl ((c : ℚ) * 10 ^ x)
    calc (c : ℚ) * 10 ^ x < 2 ^ 54 * 2 ^ exponent := hvalue
      _ ≤ 2 ^ (3 * 400) := by
        rw [← zpow_natCast, ← zpow_natCast, ← zpow_add₀ (by norm_num)]
        have := hc.exponent_le
        exact zpow_le_zpow_right₀ (by norm_num) (by omega)
      _ ≤ c * 10 ^ x := le_decimal hpos (not_le.1 hsize)

/-- A decimal number in the rounding interval of a float is read as that float. -/
theorem nearestFloat_of_roundsTo {v : Float} {negative : Bool} {c mantissa : ℕ} {x exponent : ℤ}
    (hv : Binary.ofFloat v = .finite negative mantissa exponent) (hm : 0 < mantissa)
    (h : RoundsTo (c * 10 ^ x) mantissa exponent) : nearestFloat negative c x = v := by
  obtain ⟨hc, hbits⟩ := Binary.ofBits_eq_finite v.toBits.toNat_lt hv
  have hpos : 0 < c := by
    rcases Nat.eq_zero_or_pos c with rfl | hpos
    · have hlow := (h.bounds hm).1
      have : (1 : ℚ) ≤ mantissa := by exact_mod_cast hm
      norm_num at hlow
      linarith
    · exact hpos
  obtain ⟨hsmall, hbig⟩ := size_of_roundsTo hc hm hpos h
  unfold nearestFloat
  simp only [Nat.pow_eq]
  change -400 ≤ ((Nat.toDigits 10 c).length : ℤ) + x at hsmall
  change ((Nat.toDigits 10 c).length : ℤ) + x ≤ 400 at hbig
  have hmagnitude : (if 0 ≤ x then Binary.nearestBits (c * 10 ^ x.toNat) 1
      else Binary.nearestBits c (10 ^ (-x).toNat)) = Binary.magnitude mantissa exponent := by
    split
    · rename_i hx
      obtain ⟨n, rfl⟩ := Int.eq_ofNat_of_zero_le hx
      apply nearestBits_of_roundsTo hc hm Nat.one_pos
      simpa using h
    · rename_i hx
      obtain ⟨n, hn⟩ : ∃ n : ℕ, x = -(n : ℤ) := ⟨(-x).toNat, by omega⟩
      subst hn
      apply nearestBits_of_roundsTo hc hm (by positivity)
      simpa [div_eq_mul_inv] using h
  rw [if_neg (by omega), if_neg (by omega), hmagnitude, ← hbits, UInt64.ofNat_toNat]
  exact Float.ofBits_toBits v

lemma nearestFloat_zero {v : Float} {negative : Bool} {exponent : ℤ} (x : ℤ)
    (hv : Binary.ofFloat v = .finite negative 0 exponent) : nearestFloat negative 0 x = v := by
  obtain ⟨hc, hbits⟩ := Binary.ofBits_eq_finite v.toBits.toNat_lt hv
  have hexponent : exponent = -1074 := by
    by_contra h
    have := hc.normal (lt_of_le_of_ne hc.le_exponent (Ne.symm h))
    norm_num at this
  unfold nearestFloat
  simp only [Nat.pow_eq, true_or, if_true]
  have hzero : v.toBits.toNat = 0 + if negative then 2 ^ 63 else 0 := by
    rw [hbits, hexponent]
    rfl
  rw [← hzero, UInt64.ofNat_toNat]
  exact Float.ofBits_toBits v

lemma digitsValue_eq (cs : List Char) : digitsValue cs = Nat.ofDigitChars 10 cs 0 :=
  Nat.ofDigitChars_eq_foldl.symm

namespace Numeral

/-- The digits of a numeral as one number. -/
def coefficient (n : Numeral) : ℕ := digitsValue (n.whole ++ n.fraction.getD [])

/-- The exponent of the last digit of a numeral. -/
def power (n : Numeral) : ℤ :=
  (match n.exponent with
    | none => 0
    | some (_, sign, ds) => if sign = some '-' then -(digitsValue ds : ℤ) else digitsValue ds) -
    (n.fraction.getD []).length

lemma toFloat_eq (n : Numeral) :
    n.toFloat = nearestFloat (n.sign = some '-') n.coefficient n.power := rfl

/-- A numeral that has the value of some digits with an exponent. -/
structure Spells (n : Numeral) (digits : List Char) (exponent : ℤ) : Prop where
  wellFormed : n.WellFormed
  value : (n.coefficient : ℚ) * 10 ^ n.power = digitsValue digits * 10 ^ exponent

end Numeral

namespace Layout
variable {digits : List Char}

def sign (negative : Bool) : Option Char := if negative then some '-' else none

lemma isSign_sign (negative : Bool) : IsSign (sign negative) := by
  cases negative
  · exact Or.inl rfl
  · exact Or.inr (Or.inr rfl)

lemma sign_eq_minus_iff (negative : Bool) : sign negative = some '-' ↔ negative = true := by
  cases negative <;> decide

/-- The parts of a positional text. -/
def positionalNumeral (negative : Bool) (digits : List Char) (exponent : ℤ) : Numeral :=
  let places := (-exponent).toNat
  if 0 ≤ exponent then
    ⟨sign negative, digits ++ List.replicate exponent.toNat '0', some ['0'], none⟩
  else if places < digits.length then
    ⟨sign negative, digits.take (digits.length - places),
      some (digits.drop (digits.length - places)), none⟩
  else ⟨sign negative, ['0'], some (List.replicate (places - digits.length) '0' ++ digits), none⟩

lemma text_positionalNumeral (negative : Bool) (digits : List Char) (exponent : ℤ) :
    (positionalNumeral negative digits exponent).text =
      (sign negative).toList ++ literal.positionalText digits exponent := by
  unfold positionalNumeral positionalText
  simp only [literal, if_true]
  split
  · simp [Numeral.text]
  · split
    · simp [Numeral.text]
    · simp [Numeral.text]

/-- The parts of a text with an exponent. -/
def exponentNumeral (negative : Bool) (digits : List Char) (lead : ℤ) : Numeral :=
  ⟨sign negative, digits.take 1, if digits.drop 1 = [] then none else some (digits.drop 1),
    some ('e', sign (lead < 0), Nat.toDigits 10 lead.natAbs)⟩

lemma toList_toString (lead : ℤ) :
    (toString lead).toList = (sign (lead < 0)).toList ++ Nat.toDigits 10 lead.natAbs := by
  cases lead with
  | ofNat n =>
    have hsign : ¬ (n : ℤ) < 0 := by omega
    simp [sign, toString, Int.repr, hsign]
  | negSucc n => simp [sign, toString, Int.repr]

lemma text_exponentNumeral (negative : Bool) (digits : List Char) (lead : ℤ) :
    (exponentNumeral negative digits lead).text =
      (sign negative).toList ++ exponentText digits lead := by
  unfold exponentNumeral exponentText
  rw [toList_toString]
  rcases digits.drop 1 with - | ⟨d, ds⟩
  · simp [Numeral.text]
  · simp [Numeral.text]

/-- Digits around a point keep the value of the digits at its place. -/
lemma spells_positionalNumeral (negative : Bool) (hdigits : ∀ c ∈ digits, c.isDigit = true)
    (hne : digits ≠ []) (exponent : ℤ) :
    (positionalNumeral negative digits exponent).Spells digits exponent := by
  have hzeros : ∀ k : ℕ, ∀ c ∈ List.replicate k '0', c.isDigit = true := by
    intro k c hc
    rw [List.eq_of_mem_replicate hc]
    rfl
  unfold positionalNumeral
  simp only
  split
  · rename_i hexp
    obtain ⟨k, rfl⟩ := Int.eq_ofNat_of_zero_le hexp
    refine ⟨⟨isSign_sign _, ?_, ?_, by simp, ?_⟩, ?_⟩
    · intro c hc
      rcases List.mem_append.1 hc with hc | hc
      · exact hdigits c hc
      · exact hzeros _ c hc
    · rintro ds ⟨⟩ c hc
      exact hzeros 1 c hc
    · simp [Numeral.hasDigit]
    · simp only [Numeral.coefficient, Numeral.power, Option.getD_some, digitsValue_eq,
        Nat.ofDigitChars_append, Nat.ofDigitChars_replicate_zero, Nat.ofDigitChars_cons,
        Nat.ofDigitChars_nil]
      rw [zpow_natCast, Int.toNat_natCast, List.length_singleton, zero_sub, Nat.cast_one,
        zpow_neg_one]
      push_cast
      ring
  · rename_i hexp
    obtain ⟨k, hk⟩ : ∃ k : ℕ, exponent = -(k : ℤ) := ⟨(-exponent).toNat, by omega⟩
    subst hk
    rw [neg_neg, Int.toNat_natCast]
    split
    · rename_i hlt
      refine ⟨⟨isSign_sign _, ?_, ?_, by simp, ?_⟩, ?_⟩
      · exact fun c hc => hdigits c (List.mem_of_mem_take hc)
      · rintro ds ⟨⟩ c hc
        exact hdigits c (List.mem_of_mem_drop hc)
      · have : ¬ digits.length - k = 0 := by omega
        simp [Numeral.hasDigit, hne, this]
      · simp only [Numeral.coefficient, Numeral.power, Option.getD_some, List.take_append_drop,
          List.length_drop]
        congr 2
        omega
    · rename_i hle
      refine ⟨⟨isSign_sign _, ?_, ?_, by simp, rfl⟩, ?_⟩
      · exact hzeros 1
      · rintro ds ⟨⟩ c hc
        rcases List.mem_append.1 hc with hc | hc
        · exact hzeros _ c hc
        · exact hdigits c hc
      · simp only [Numeral.coefficient, Numeral.power, Option.getD_some, digitsValue_eq,
          Nat.ofDigitChars_append, Nat.ofDigitChars_replicate_zero, Nat.ofDigitChars_cons,
          Nat.ofDigitChars_nil, List.length_append, List.length_replicate]
        congr 2
        omega

/-- Digits with an exponent keep the value of the digits at their place. -/
lemma spells_exponentNumeral (negative : Bool) (hdigits : ∀ c ∈ digits, c.isDigit = true)
    (hne : digits ≠ []) (exponent : ℤ) :
    (exponentNumeral negative digits (exponent + digits.length - 1)).Spells digits exponent := by
  obtain ⟨d, ds, rfl⟩ := List.exists_cons_of_ne_nil hne
  generalize hlead : exponent + (d :: ds).length - 1 = lead
  have hfraction : (if ds = [] then none else some ds).getD [] = ds := by
    split
    · rename_i h
      rw [h]
      rfl
    · rfl
  have hwritten : (if sign (lead < 0) = some '-' then
      -(digitsValue (Nat.toDigits 10 lead.natAbs) : ℤ)
      else digitsValue (Nat.toDigits 10 lead.natAbs)) = lead := by
    rw [digitsValue_eq, Nat.ofDigitChars_ten_toDigits]
    simp only [sign_eq_minus_iff, decide_eq_true_eq]
    split <;> omega
  unfold exponentNumeral
  refine ⟨⟨isSign_sign _, ?_, ?_, ?_, rfl⟩, ?_⟩
  · exact fun c hc => hdigits c (List.mem_of_mem_take hc)
  · intro cs hcs c hc
    have hds : (if ds = [] then none else some ds) = some cs := hcs
    rw [hds, Option.getD_some] at hfraction
    exact hdigits c (List.mem_cons_of_mem d (hfraction ▸ hc))
  · rintro e sign cs ⟨⟩
    refine ⟨Or.inl rfl, isSign_sign _, Nat.toDigits_ne_nil, ?_⟩
    exact fun c hc => Nat.isDigit_of_mem_toDigits (by norm_num) (by norm_num) hc
  · simp only [Numeral.coefficient, Numeral.power, List.take_succ_cons, List.take_zero,
      List.drop_succ_cons, List.drop_zero, hfraction, hwritten, List.singleton_append]
    congr 2
    simp at hlead
    omega

/-- The parts of the literal of a finite float. -/
def literalNumeral (negative : Bool) (mantissa : ℕ) (exponent : ℤ) : Numeral :=
  if mantissa = 0 then ⟨sign negative, ['0'], some ['0'], none⟩
  else
    let s := shortest mantissa exponent
    let digits := Nat.toDigits 10 s.digits
    let lead : ℤ := s.exponent + digits.length - 1
    if literal.positional lead then positionalNumeral negative digits s.exponent
    else exponentNumeral negative digits lead

lemma text_literalNumeral (negative : Bool) (mantissa : ℕ) (exponent : ℤ) :
    (literalNumeral negative mantissa exponent).text =
      literal.finiteText negative mantissa exponent := by
  have hsign : (sign negative).toList = if negative then ['-'] else [] := by
    cases negative <;> rfl
  unfold literalNumeral finiteText
  simp only [← hsign]
  split
  · simp [Numeral.text, literal]
  · split
    · exact text_positionalNumeral _ _ _
    · exact text_exponentNumeral _ _ _

lemma sign_literalNumeral (negative : Bool) (mantissa : ℕ) (exponent : ℤ) :
    (literalNumeral negative mantissa exponent).sign = sign negative := by
  unfold literalNumeral positionalNumeral exponentNumeral
  simp only
  repeat' split
  all_goals rfl

/-- A literal shows by a point or an exponent that it is no integer. -/
lemma literalNumeral_not_integer (negative : Bool) (mantissa : ℕ) (exponent : ℤ) :
    (literalNumeral negative mantissa exponent).fraction ≠ none ∨
      (literalNumeral negative mantissa exponent).exponent ≠ none := by
  unfold literalNumeral positionalNumeral exponentNumeral
  simp only
  repeat' split
  all_goals simp

lemma spells_literalNumeral (negative : Bool) {mantissa : ℕ} (hm : 0 < mantissa) (exponent : ℤ) :
    (literalNumeral negative mantissa exponent).Spells
      (Nat.toDigits 10 (shortest mantissa exponent).digits)
      (shortest mantissa exponent).exponent := by
  have hdigits : ∀ c ∈ Nat.toDigits 10 (shortest mantissa exponent).digits, c.isDigit = true :=
    fun c hc => Nat.isDigit_of_mem_toDigits (by norm_num) (by norm_num) hc
  unfold literalNumeral
  rw [if_neg hm.ne']
  simp only
  split
  · exact spells_positionalNumeral _ hdigits Nat.toDigits_ne_nil _
  · exact spells_exponentNumeral _ hdigits Nat.toDigits_ne_nil _

lemma wellFormed_literalNumeral (negative : Bool) (mantissa : ℕ) (exponent : ℤ) :
    (literalNumeral negative mantissa exponent).WellFormed := by
  rcases Nat.eq_zero_or_pos mantissa with rfl | hm
  · refine ⟨isSign_sign _, ?_, ?_, ?_, rfl⟩
    · simp [literalNumeral]
    · simp [literalNumeral]
    · simp [literalNumeral]
  · exact (spells_literalNumeral negative hm exponent).wellFormed

/-- The literal of a finite float is read back as that float. -/
theorem toFloat_literalNumeral {v : Float} {negative : Bool} {mantissa : ℕ} {exponent : ℤ}
    (hv : Binary.ofFloat v = .finite negative mantissa exponent) :
    (literalNumeral negative mantissa exponent).toFloat = v := by
  rw [Numeral.toFloat_eq, sign_literalNumeral]
  simp only [sign_eq_minus_iff, Bool.decide_eq_true]
  rcases Nat.eq_zero_or_pos mantissa with rfl | hm
  · exact nearestFloat_zero _ hv
  · have hc := (Binary.ofBits_eq_finite v.toBits.toNat_lt hv).1
    apply nearestFloat_of_roundsTo hv hm
    rw [(spells_literalNumeral negative hm exponent).value, digitsValue_eq,
      Nat.ofDigitChars_ten_toDigits]
    exact roundsTo_shortest hm hc.mantissa_lt

end Layout

end Sortie.Decimal
