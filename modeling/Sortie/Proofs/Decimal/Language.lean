import Mathlib.Computability.Language
import Sortie.Proofs.Decimal.Longest
import Sortie.Proofs.Decimal.ReadBack

/-! The language of numerals. A scan takes the longest of its words at the head of a text, and sign,
point, exponent and digits can be told from the characters of the word alone. -/
namespace Sortie.Decimal
open scoped Computability

/-- The words of one character out of a class. -/
def oneOf (p : Char → Bool) : Language Char := {l | ∃ c, p c = true ∧ l = [c]}

def signs : Language Char := 1 + oneOf fun c => c == '+' || c == '-'

def digits : Language Char := (oneOf Char.isDigit)∗

def fractions : Language Char := 1 + oneOf (· == '.') * digits

def exponents : Language Char :=
  1 + oneOf (fun c => c == 'e' || c == 'E') * (signs * (oneOf Char.isDigit * digits))

/-- A sign, digits, a point with digits behind it and an exponent; each of them may be missing. -/
def numerals : Language Char := signs * (digits * (fractions * exponents))

/-- A numeral in front of `rest` that every numeral at that place is a part of. -/
structure LongestNumeral (l rest : List Char) : Prop where
  mem : l ∈ numerals
  longest : ∀ l' ∈ numerals, l' <+: l ++ rest → l' <+: l

/-- The part of a numeral before its exponent. -/
def mantissa (l : List Char) : List Char := l.takeWhile fun c => c != 'e' && c != 'E'

/-- No digit stands before the exponent. -/
def Digitless (l : List Char) : Prop := ∀ c ∈ mantissa l, c.isDigit = false

/-- Neither a minus nor a point nor an exponent is written. -/
def Plain (l : List Char) : Prop := '-' ∉ l ∧ '.' ∉ l ∧ 'e' ∉ l ∧ 'E' ∉ l

/-- The decimal value of the digits of a text. -/
def decimalValue (l : List Char) : ℕ := Nat.ofDigitChars 10 (l.filter Char.isDigit) 0

/-! The words of the language are the texts of shaped numerals. -/

lemma mem_oneOf_mul {p : Char → Bool} {lang : Language Char} {l : List Char} :
    l ∈ oneOf p * lang ↔ ∃ c r, p c = true ∧ r ∈ lang ∧ l = c :: r := by
  constructor
  · rintro ⟨_, ⟨c, hc, rfl⟩, r, hr, rfl⟩
    exact ⟨c, r, hc, hr, rfl⟩
  · rintro ⟨c, r, hc, hr, rfl⟩
    exact ⟨[c], ⟨c, hc, rfl⟩, r, hr, rfl⟩

lemma mem_digits {l : List Char} : l ∈ digits ↔ ∀ c ∈ l, c.isDigit = true := by
  constructor
  · intro h c hc
    obtain ⟨words, rfl, hwords⟩ := Language.mem_kstar.1 h
    obtain ⟨w, hw, hcw⟩ := List.mem_flatten.1 hc
    obtain ⟨d, hd, rfl⟩ := hwords w hw
    obtain rfl := List.mem_singleton.1 hcw
    exact hd
  · intro h
    refine Language.mem_kstar.2 ⟨l.map ([·]), by simp [← List.flatMap_def], ?_⟩
    intro w hw
    obtain ⟨c, hc, rfl⟩ := List.mem_map.1 hw
    exact ⟨c, h c hc, rfl⟩

lemma mem_signs {l : List Char} : l ∈ signs ↔ ∃ sign, IsSign sign ∧ sign.toList = l := by
  constructor
  · rintro (rfl | ⟨c, hc, rfl⟩)
    · exact ⟨none, .inl rfl, rfl⟩
    · have hsign : c = '+' ∨ c = '-' := by simpa using hc
      obtain rfl | rfl := hsign
      · exact ⟨some '+', .inr (.inl rfl), rfl⟩
      · exact ⟨some '-', .inr (.inr rfl), rfl⟩
  · rintro ⟨sign, rfl | rfl | rfl, rfl⟩
    · exact .inl rfl
    · exact .inr ⟨'+', rfl, rfl⟩
    · exact .inr ⟨'-', rfl, rfl⟩

lemma mem_fractions {l : List Char} :
    l ∈ fractions ↔ ∃ fraction, (∀ ds, fraction = some ds → ∀ c ∈ ds, c.isDigit = true) ∧
      fractionChars fraction = l := by
  rw [fractions, Language.mem_add, Language.mem_one, mem_oneOf_mul]
  constructor
  · rintro (rfl | ⟨c, ds, hc, hds, rfl⟩)
    · exact ⟨none, by simp, rfl⟩
    · obtain rfl : c = '.' := by simpa using hc
      refine ⟨some ds, ?_, rfl⟩
      rintro _ ⟨⟩
      exact mem_digits.1 hds
  · rintro ⟨- | ds, hds, rfl⟩
    · exact .inl rfl
    · exact .inr ⟨'.', ds, rfl, mem_digits.2 (hds ds rfl), rfl⟩

lemma mem_exponents {l : List Char} :
    l ∈ exponents ↔ ∃ exponent : Option (Char × Option Char × List Char),
      (∀ e sign ds, exponent = some (e, sign, ds) →
        (e = 'e' ∨ e = 'E') ∧ IsSign sign ∧ ds ≠ [] ∧ ∀ c ∈ ds, c.isDigit = true) ∧
      exponentChars exponent = l := by
  rw [exponents, Language.mem_add, Language.mem_one, mem_oneOf_mul]
  constructor
  · rintro (rfl | ⟨e, r, he, hr, rfl⟩)
    · exact ⟨none, by simp, rfl⟩
    · obtain ⟨s, hs, t, ht, rfl⟩ := Language.mem_mul.1 hr
      obtain ⟨sign, hsign, rfl⟩ := mem_signs.1 hs
      obtain ⟨d, ds, hd, hds, rfl⟩ := mem_oneOf_mul.1 ht
      refine ⟨some (e, sign, d :: ds), ?_, rfl⟩
      rintro _ _ _ ⟨⟩
      have hall : ∀ c ∈ d :: ds, c.isDigit = true := List.forall_mem_cons.2 ⟨hd, mem_digits.1 hds⟩
      exact ⟨by simpa using he, hsign, List.cons_ne_nil d ds, hall⟩
  · rintro ⟨- | ⟨e, sign, ds⟩, h, rfl⟩
    · exact .inl rfl
    · obtain ⟨he, hsign, hne, hds⟩ := h e sign ds rfl
      obtain ⟨d, ds, rfl⟩ := List.exists_cons_of_ne_nil hne
      obtain ⟨hd, hds⟩ := List.forall_mem_cons.1 hds
      refine .inr ⟨e, _, by simpa using he, ?_, rfl⟩
      exact Language.append_mem_mul (mem_signs.2 ⟨sign, hsign, rfl⟩)
        (mem_oneOf_mul.2 ⟨d, ds, hd, mem_digits.2 hds, rfl⟩)

theorem mem_numerals {l : List Char} : l ∈ numerals ↔ ∃ n : Numeral, n.Shaped ∧ n.text = l := by
  constructor
  · rintro ⟨_, hs, _, ⟨whole, hwhole, _, ⟨_, hf, _, he, rfl⟩, rfl⟩, rfl⟩
    obtain ⟨sign, hsign, rfl⟩ := mem_signs.1 hs
    obtain ⟨fraction, hfraction, rfl⟩ := mem_fractions.1 hf
    obtain ⟨exponent, hexponent, rfl⟩ := mem_exponents.1 he
    exact ⟨⟨sign, whole, fraction, exponent⟩, ⟨hsign, mem_digits.1 hwhole, hfraction, hexponent⟩,
      Numeral.text_eq _⟩
  · rintro ⟨n, hn, rfl⟩
    rw [Numeral.text_eq]
    exact Language.append_mem_mul (mem_signs.2 ⟨_, hn.sign, rfl⟩)
      (Language.append_mem_mul (mem_digits.2 hn.whole)
        (Language.append_mem_mul (mem_fractions.2 ⟨_, hn.fraction, rfl⟩)
          (mem_exponents.2 ⟨_, hn.exponent, rfl⟩)))

theorem longestNumeral_scan (cs : List Char) :
    LongestNumeral (Numeral.scan cs).1.text (Numeral.scan cs).2 := by
  refine ⟨mem_numerals.2 ⟨_, Numeral.shaped_scan cs, rfl⟩, ?_⟩
  rintro l' hl' hinside
  obtain ⟨m, hm, rfl⟩ := mem_numerals.1 hl'
  obtain ⟨t, ht⟩ := hinside
  have hcut := Numeral.text_scan_append cs
  have hlength : m.text.length ≤ (Numeral.scan cs).1.text.length := by
    have hrest := hm.length_rest_scan_le t
    rw [ht, hcut] at hrest
    have := congrArg List.length ht
    simp only [List.length_append] at this
    omega
  exact List.prefix_of_prefix_length_le ⟨t, ht⟩ (List.prefix_append _ _) hlength

/-! What the characters of a numeral say about its parts. -/

lemma mem_of_getLast?_append {xs ys : List Char} (hne : ys ≠ []) {c : Char}
    (h : c ∈ (xs ++ ys).getLast?) : c ∈ ys := by
  rw [List.getLast?_append_of_ne_nil xs hne] at h
  exact List.mem_of_getLast? h

namespace Numeral
variable {n : Numeral}

lemma Shaped.isDigit_sign (hn : n.Shaped) : ∀ c ∈ n.sign.toList, c.isDigit = false := by
  obtain h | h | h := hn.sign <;> simp [h]

lemma Shaped.not_letter (hn : n.Shaped) :
    ∀ c ∈ n.sign.toList ++ (n.whole ++ fractionChars n.fraction),
      (c != 'e' && c != 'E') = true := by
  have hdigit : ∀ c : Char, c.isDigit = true → (c != 'e' && c != 'E') = true := by
    intro c hc
    simp [ne_of_isDigit hc (d := 'e') rfl, ne_of_isDigit hc (d := 'E') rfl]
  intro c hc
  rw [List.mem_append, List.mem_append] at hc
  rcases hc with hc | hc | hc
  · obtain h | h | h := hn.sign <;> simp_all
  · exact hdigit c (hn.whole c hc)
  · rcases hfraction : n.fraction with - | ds
    · rw [hfraction] at hc
      cases hc
    · rw [hfraction] at hc
      rcases List.mem_cons.1 hc with rfl | hc
      · rfl
      · exact hdigit c (hn.fraction ds hfraction c hc)

lemma Shaped.mantissa_text (hn : n.Shaped) :
    mantissa n.text = n.sign.toList ++ (n.whole ++ fractionChars n.fraction) := by
  have htext : n.text =
      n.sign.toList ++ (n.whole ++ fractionChars n.fraction) ++ exponentChars n.exponent := by
    rw [text_eq]
    simp only [List.append_assoc]
  rw [htext, mantissa, List.takeWhile_append_of_pos hn.not_letter]
  rcases hexp : n.exponent with - | ⟨e, sign, ds⟩
  · exact List.append_nil _
  · obtain ⟨rfl | rfl, -⟩ := hn.exponent _ _ _ hexp <;> exact List.append_nil _

lemma Shaped.digitless_iff (hn : n.Shaped) : Digitless n.text ↔ n.hasDigit = false := by
  have hnone : ∀ ds : List Char, (∀ c ∈ ds, c.isDigit = true) →
      ((∀ c ∈ ds, c.isDigit = false) ↔ ds = []) := by
    rintro (- | ⟨d, ds⟩) hds
    · simp
    · simp [hds d (by simp)]
  unfold Digitless
  rw [hn.mantissa_text, List.forall_mem_append, List.forall_mem_append, hnone _ hn.whole,
    and_iff_right hn.isDigit_sign]
  rcases hfraction : n.fraction with - | ds
  · simp [hasDigit, hfraction, fractionChars]
  · have hpoint : (∀ c ∈ fractionChars (some ds), c.isDigit = false) ↔ ds = [] := by
      rw [fractionChars, List.forall_mem_cons, hnone ds (hn.fraction ds hfraction)]
      simp
    rw [hpoint]
    simp [hasDigit, hfraction]

lemma text_of_whole (hfraction : n.fraction = none) (hexp : n.exponent = none) :
    n.text = n.sign.toList ++ n.whole := by
  rw [text_eq, hfraction, hexp, fractionChars, exponentChars, List.append_nil, List.append_nil]

lemma Shaped.plain_iff (hn : n.Shaped) :
    Plain n.text ↔ n.sign ≠ some '-' ∧ n.fraction = none ∧ n.exponent = none := by
  constructor
  · rw [Plain, text_eq]
    rintro ⟨hminus, hpoint, hlower, hupper⟩
    refine ⟨?_, ?_, ?_⟩
    · intro hsign
      simp [hsign] at hminus
    · rcases hfraction : n.fraction with - | ds
      · rfl
      · simp [hfraction, fractionChars] at hpoint
    · rcases hexp : n.exponent with - | ⟨e, sign, ds⟩
      · rfl
      · obtain ⟨rfl | rfl, -⟩ := hn.exponent _ _ _ hexp
        · simp [hexp, exponentChars] at hlower
        · simp [hexp, exponentChars] at hupper
  · rintro ⟨hminus, hfraction, hexp⟩
    have hchars : ∀ c ∈ n.text, c = '+' ∨ c.isDigit = true := by
      intro c hc
      rw [text_of_whole hfraction hexp, List.mem_append] at hc
      rcases hc with hc | hc
      · obtain h | h | h := hn.sign
        · simp [h] at hc
        · simp_all
        · exact absurd h hminus
      · exact .inr (hn.whole c hc)
    refine ⟨?_, ?_, ?_, ?_⟩ <;> exact fun hmem => by simpa using hchars _ hmem

lemma Shaped.decimalValue_text (hn : n.Shaped) (hplain : Plain n.text) :
    decimalValue n.text = digitsValue n.whole := by
  obtain ⟨-, hfraction, hexp⟩ := hn.plain_iff.1 hplain
  have hsign : n.sign.toList.filter Char.isDigit = [] := by
    simpa [List.filter_eq_nil_iff] using hn.isDigit_sign
  rw [decimalValue, text_of_whole hfraction hexp, List.filter_append, hsign, List.nil_append,
    List.filter_eq_self.2 hn.whole, digitsValue_eq]

/-- A numeral that is more than a sign ends in a digit or a point. -/
lemma Shaped.getLast_text (hn : n.Shaped)
    (hsome : ¬ (n.whole = [] ∧ n.fraction = none ∧ n.exponent = none)) :
    ∀ c ∈ n.text.getLast?, c.isDigit = true ∨ c = '.' := by
  intro c hc
  rcases hexp : n.exponent with - | ⟨e, sign, ds⟩
  · rcases hfraction : n.fraction with - | ds
    · have hwhole : n.whole ≠ [] := fun h => hsome ⟨h, hfraction, hexp⟩
      rw [text_of_whole hfraction hexp] at hc
      exact .inl (hn.whole c (mem_of_getLast?_append hwhole hc))
    · rw [text_eq, hexp, hfraction, fractionChars, exponentChars, List.append_nil,
        ← List.append_assoc] at hc
      rcases List.mem_cons.1 (mem_of_getLast?_append (List.cons_ne_nil _ _) hc) with rfl | hds
      · exact .inr rfl
      · exact .inl (hn.fraction ds hfraction c hds)
  · obtain ⟨-, -, hne, hds⟩ := hn.exponent e sign ds hexp
    rw [text_eq, hexp, exponentChars, ← List.cons_append, ← List.append_assoc,
      ← List.append_assoc, ← List.append_assoc] at hc
    exact .inl (hds c (mem_of_getLast?_append hne hc))

end Numeral

/-! Reading a numeral as a float. -/

lemma toLower_ne_of_isNumeralChar {c : Char} (h : isNumeralChar c = true) : c.toLower ≠ 'n' := by
  intro hlower
  simp only [isNumeralChar, Bool.or_eq_true, beq_iff_eq] at h
  rcases h with ((((h | rfl) | rfl) | rfl) | rfl) | rfl
  · rw [Char.isDigit_iff_toNat] at h
    unfold Char.toLower at hlower
    split at hlower
    · rename_i hupper
      have hbound : 'A'.toNat ≤ c.toNat := hupper.1
      simp only [Char.reduceToNat] at hbound h
      omega
    · subst hlower
      simp at h
  all_goals cases hlower

/-- The words for special values have a letter that no numeral has. -/
lemma wordValue?_eq_none {cs : List Char} (h : ∀ c ∈ cs, isNumeralChar c = true) :
    wordValue? cs = none := by
  have hletter : 'n' ∉ cs.map Char.toLower := by
    intro hmem
    obtain ⟨c, hc, hlower⟩ := List.mem_map.1 hmem
    exact toLower_ne_of_isNumeralChar (h c hc) hlower
  have hne : ∀ w : String, 'n' ∈ w.toList → String.ofList (cs.map Char.toLower) ≠ w := by
    rintro _ hw rfl
    rw [String.toList_ofList] at hw
    exact hletter hw
  unfold wordValue?
  simp only
  rw [if_neg, if_neg (hne "nan" (by simp))]
  rintro (hword | hword)
  · exact hne "inf" (by simp) hword
  · exact hne "infinity" (by simp) hword

/-- A numeral is read as a float exactly when a digit stands before its exponent. -/
theorem Numeral.Shaped.read_text {n : Numeral} (hn : n.Shaped) :
    read (String.ofList n.text) = if n.hasDigit = true then some n.toFloat else none := by
  have hword : wordValue? (takeSign n.text).2 = none := by
    refine wordValue?_eq_none fun c hc => isNumeralChar_of_mem_text hn c ?_
    rw [← takeSign_append_rest n.text]
    exact List.mem_append_right _ hc
  unfold read readChars
  rw [String.toList_ofList]
  simp only [hword]
  by_cases hdigit : n.hasDigit = true
  · rw [Numeral.scan_text (Numeral.wellFormed_iff.2 ⟨hn, hdigit⟩)]
  · -- The scan takes the whole text, and whether a digit is there can be told from the text.
    have hcut := Numeral.text_scan_append n.text
    have hrest : (Numeral.scan n.text).2 = [] := by
      have hlength := hn.length_rest_scan_le []
      rw [List.append_nil] at hlength
      exact List.eq_nil_of_length_eq_zero (Nat.le_zero.1 hlength)
    rw [hrest, List.append_nil] at hcut
    have hsame : (Numeral.scan n.text).1.hasDigit = false := by
      rw [← (Numeral.shaped_scan n.text).digitless_iff, hcut, hn.digitless_iff]
      exact Bool.eq_false_iff.2 hdigit
    have hscan : Numeral.scan n.text = ((Numeral.scan n.text).1, []) := by rw [← hrest]
    rw [hscan, if_neg hdigit]
    exact if_neg (Bool.eq_false_iff.1 hsame)

end Sortie.Decimal
