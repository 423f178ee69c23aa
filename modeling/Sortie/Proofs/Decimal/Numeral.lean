import Sortie.Decimal.Numeral
import Mathlib.Data.List.TakeWhile

/-! Scanning undoes the writing of a numeral: of a numeral and what follows it, the longest numeral
at the head is that numeral, unless what follows could continue it. -/
namespace Sortie.Decimal

/-- A sign that may stand before digits. -/
def IsSign (sign : Option Char) : Prop := sign = none ∨ sign = some '+' ∨ sign = some '-'

/-- A character that may continue a numeral. -/
def Continues (c : Char) : Prop := c.isDigit = true ∨ c = '.' ∨ c = 'e' ∨ c = 'E'

/-- The numerals that have a value: digits where digits belong, one of them before the exponent. -/
structure Numeral.WellFormed (n : Numeral) : Prop where
  sign : IsSign n.sign
  whole : ∀ c ∈ n.whole, c.isDigit = true
  fraction : ∀ ds, n.fraction = some ds → ∀ c ∈ ds, c.isDigit = true
  exponent : ∀ e sign ds, n.exponent = some (e, sign, ds) →
    (e = 'e' ∨ e = 'E') ∧ IsSign sign ∧ ds ≠ [] ∧ ∀ c ∈ ds, c.isDigit = true
  hasDigit : n.hasDigit = true

lemma takeSign_append {sign : Option Char} (hsign : IsSign sign) {body : List Char}
    (hbody : ∀ c ∈ body.head?, c ≠ '+' ∧ c ≠ '-') :
    takeSign (sign.toList ++ body) = (sign, body) := by
  obtain rfl | rfl | rfl := hsign
  · cases body with
    | nil => rfl
    | cons c cs =>
      obtain ⟨hplus, hminus⟩ := hbody c rfl
      simp only [Option.toList_none, List.nil_append]
      unfold takeSign
      split
      · rename_i h
        cases h
        exact absurd rfl hplus
      · rename_i h
        cases h
        exact absurd rfl hminus
      · rfl
  · rfl
  · rfl

lemma takeWhile_digits {ds rest : List Char} (hds : ∀ c ∈ ds, c.isDigit = true)
    (hrest : ∀ c ∈ rest.head?, ¬ c.isDigit = true) :
    (ds ++ rest).takeWhile Char.isDigit = ds ∧ (ds ++ rest).dropWhile Char.isDigit = rest := by
  rw [List.takeWhile_append_of_pos hds, List.dropWhile_append_of_pos hds]
  cases rest with
  | nil => simp
  | cons c cs =>
    have hc : ¬ c.isDigit = true := hrest c rfl
    rw [List.takeWhile_cons_of_neg hc, List.dropWhile_cons_of_neg hc, List.append_nil]
    exact ⟨rfl, rfl⟩

/-- The exponent of a numeral as written. -/
def exponentChars : Option (Char × Option Char × List Char) → List Char
  | none => []
  | some (e, sign, ds) => e :: (sign.toList ++ ds)

/-- The fraction of a numeral as written. -/
def fractionChars : Option (List Char) → List Char
  | none => []
  | some ds => '.' :: ds

lemma Numeral.text_eq (n : Numeral) :
    n.text = n.sign.toList ++
      (n.whole ++ (fractionChars n.fraction ++ exponentChars n.exponent)) := by
  have htext : n.text =
      n.sign.toList ++ n.whole ++ fractionChars n.fraction ++ exponentChars n.exponent := rfl
  rw [htext, List.append_assoc, List.append_assoc]

lemma ne_of_isDigit {c d : Char} (hc : c.isDigit = true) (hd : d.isDigit = false) : c ≠ d :=
  ne_of_apply_ne Char.isDigit (by simp [hc, hd])

lemma not_sign_of_isDigit {c : Char} (h : c.isDigit = true) : c ≠ '+' ∧ c ≠ '-' :=
  ⟨ne_of_isDigit h rfl, ne_of_isDigit h rfl⟩

lemma takeExponent_append {n : Numeral} (hn : n.WellFormed) {rest : List Char}
    (hrest : ∀ c ∈ rest.head?, ¬ Continues c) :
    takeExponent (exponentChars n.exponent ++ rest) = (n.exponent, rest) := by
  have hdigit : ∀ c ∈ rest.head?, ¬ c.isDigit = true := fun c hc h => hrest c hc (Or.inl h)
  rcases hexp : n.exponent with - | ⟨e, sign, ds⟩
  · cases rest with
    | nil => rfl
    | cons c cs =>
      have hc : ¬ (c = 'e' ∨ c = 'E') := fun h => hrest c rfl (Or.inr (Or.inr h))
      simp only [exponentChars, List.nil_append]
      unfold takeExponent
      exact if_neg hc
  · obtain ⟨he, hsign, hne, hds⟩ := hn.exponent e sign ds hexp
    obtain ⟨htake, hdrop⟩ := takeWhile_digits hds hdigit
    obtain ⟨d, ds', rfl⟩ := List.exists_cons_of_ne_nil hne
    have hbody : ∀ c ∈ (d :: ds' ++ rest).head?, c ≠ '+' ∧ c ≠ '-' := by
      intro c hc
      cases hc
      exact not_sign_of_isDigit (hds _ (by simp))
    simp only [exponentChars, List.cons_append, List.append_assoc]
    unfold takeExponent
    simp only [if_pos he]
    rw [← List.cons_append, takeSign_append hsign hbody]
    simp only [htake, hdrop]

lemma exponent_head_not_digit {n : Numeral} (hn : n.WellFormed) {rest : List Char}
    (hrest : ∀ c ∈ rest.head?, ¬ Continues c) :
    ∀ c ∈ (exponentChars n.exponent ++ rest).head?, ¬ c.isDigit = true := by
  intro c hc hdigit
  rcases hexp : n.exponent with - | ⟨e, sign, ds⟩
  · rw [hexp] at hc
    exact hrest c hc (Or.inl hdigit)
  · rw [hexp] at hc
    cases hc
    obtain ⟨rfl | rfl, -⟩ := hn.exponent _ _ _ hexp
    · cases hdigit
    · cases hdigit

lemma fraction_head_not_digit {n : Numeral} (hn : n.WellFormed) {rest : List Char}
    (hrest : ∀ c ∈ rest.head?, ¬ Continues c) :
    ∀ c ∈ (fractionChars n.fraction ++ (exponentChars n.exponent ++ rest)).head?,
      ¬ c.isDigit = true := by
  rcases hfraction : n.fraction with - | ds
  · exact exponent_head_not_digit hn hrest
  · intro c hc hdigit
    cases hc
    cases hdigit

lemma exponent_head_ne_point {n : Numeral} (hn : n.WellFormed) {rest : List Char}
    (hrest : ∀ c ∈ rest.head?, ¬ Continues c) :
    ∀ c ∈ (exponentChars n.exponent ++ rest).head?, c ≠ '.' := by
  rintro c hc rfl
  rcases hexp : n.exponent with - | ⟨e, sign, ds⟩
  · rw [hexp] at hc
    exact hrest _ hc (Or.inr (Or.inl rfl))
  · rw [hexp] at hc
    cases hc
    obtain ⟨h | h, -⟩ := hn.exponent _ _ _ hexp
    · cases h
    · cases h

lemma whole_head_not_sign {n : Numeral} (hn : n.WellFormed) (rest : List Char) :
    ∀ c ∈ (n.whole ++ (fractionChars n.fraction ++ rest)).head?, c ≠ '+' ∧ c ≠ '-' := by
  intro c hc
  rcases hwhole : n.whole with - | ⟨d, ds⟩
  · rcases hfraction : n.fraction with - | ds
    · have := hn.hasDigit
      simp [Numeral.hasDigit, hwhole, hfraction] at this
    · rw [hwhole, hfraction] at hc
      cases hc
      exact ⟨by decide, by decide⟩
  · rw [hwhole] at hc
    cases hc
    exact not_sign_of_isDigit (hn.whole _ (by simp [hwhole]))

/-- Scanning finds a numeral that is written in front of anything that does not continue it. -/
theorem Numeral.scan_text_append {n : Numeral} (hn : n.WellFormed) {rest : List Char}
    (hrest : ∀ c ∈ rest.head?, ¬ Continues c) : Numeral.scan (n.text ++ rest) = (n, rest) := by
  have hsign := takeSign_append hn.sign (whole_head_not_sign hn (exponentChars n.exponent ++ rest))
  obtain ⟨htake, hdrop⟩ := takeWhile_digits hn.whole (fraction_head_not_digit hn hrest)
  have hexponent := takeExponent_append hn hrest
  rw [Numeral.text_eq, List.append_assoc, List.append_assoc, List.append_assoc]
  unfold Numeral.scan
  simp only [hsign, htake, hdrop]
  rcases hfraction : n.fraction with - | ds
  · -- Without a fraction the next character is no point, so the scan goes on to the exponent.
    simp only [fractionChars, List.nil_append]
    have hpoint := exponent_head_ne_point hn hrest
    split
    · rename_i htail
      rw [htail] at hpoint
      exact absurd rfl (hpoint '.' rfl)
    · simp only [hexponent]
      rw [← hfraction]
  · obtain ⟨hdigits, htail⟩ := takeWhile_digits (hn.fraction ds hfraction)
      (exponent_head_not_digit hn hrest)
    simp only [fractionChars, List.cons_append, hdigits, htail, hexponent]
    rw [← hfraction]

lemma Numeral.scan_text {n : Numeral} (hn : n.WellFormed) : Numeral.scan n.text = (n, []) := by
  have h := Numeral.scan_text_append hn (fun c (hc : c ∈ ([] : List Char).head?) => by cases hc)
  rwa [List.append_nil] at h

/-- The characters of numerals. -/
def isNumeralChar (c : Char) : Bool :=
  c.isDigit || c == '-' || c == '+' || c == '.' || c == 'e' || c == 'E'

lemma isNumeralChar_of_isSign {sign : Option Char} (h : IsSign sign) :
    ∀ c ∈ sign.toList, isNumeralChar c = true := by
  obtain rfl | rfl | rfl := h
  · simp
  · simp [isNumeralChar]
  · simp [isNumeralChar]

end Sortie.Decimal
