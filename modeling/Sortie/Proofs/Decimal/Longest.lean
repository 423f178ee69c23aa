import Sortie.Proofs.Decimal.Numeral

/-! A scan finds a numeral at the head of every text, if only an empty one, and no longer numeral
stands there. -/
namespace Sortie.Decimal

/-- Signs and digits stand where they belong. A digit need not be there, except in an exponent. -/
structure Numeral.Shaped (n : Numeral) : Prop where
  sign : IsSign n.sign
  whole : ∀ c ∈ n.whole, c.isDigit = true
  fraction : ∀ ds, n.fraction = some ds → ∀ c ∈ ds, c.isDigit = true
  exponent : ∀ e sign ds, n.exponent = some (e, sign, ds) →
    (e = 'e' ∨ e = 'E') ∧ IsSign sign ∧ ds ≠ [] ∧ ∀ c ∈ ds, c.isDigit = true

lemma Numeral.wellFormed_iff {n : Numeral} : n.WellFormed ↔ n.Shaped ∧ n.hasDigit = true := by
  constructor
  · intro h
    exact ⟨⟨h.sign, h.whole, h.fraction, h.exponent⟩, h.hasDigit⟩
  · rintro ⟨h, hdigit⟩
    exact ⟨h.sign, h.whole, h.fraction, h.exponent, hdigit⟩

lemma Numeral.WellFormed.shaped {n : Numeral} (hn : n.WellFormed) : n.Shaped :=
  (Numeral.wellFormed_iff.1 hn).1

lemma isNumeralChar_of_mem_text {n : Numeral} (hn : n.Shaped) :
    ∀ c ∈ n.text, isNumeralChar c = true := by
  have hdigit : ∀ c : Char, c.isDigit = true → isNumeralChar c = true := by
    intro c hc
    simp [isNumeralChar, hc]
  intro c hc
  rw [Numeral.text_eq, List.mem_append, List.mem_append, List.mem_append] at hc
  rcases hc with hc | hc | hc | hc
  · exact isNumeralChar_of_isSign hn.sign c hc
  · exact hdigit c (hn.whole c hc)
  · rcases hfraction : n.fraction with - | ds
    · rw [hfraction] at hc
      cases hc
    · rw [hfraction] at hc
      rcases List.mem_cons.1 hc with rfl | hc
      · rfl
      · exact hdigit c (hn.fraction ds hfraction c hc)
  · rcases hexp : n.exponent with - | ⟨e, sign, ds⟩
    · rw [hexp] at hc
      cases hc
    · obtain ⟨he, hsign, -, hds⟩ := hn.exponent e sign ds hexp
      rw [hexp] at hc
      rcases List.mem_cons.1 hc with rfl | hc
      · obtain rfl | rfl := he
        · rfl
        · rfl
      · rcases List.mem_append.1 hc with hc | hc
        · exact isNumeralChar_of_isSign hsign c hc
        · exact hdigit c (hds c hc)

/-! The parts of a scan, each with what it leaves. -/

lemma isSign_takeSign (cs : List Char) : IsSign (takeSign cs).1 := by
  unfold takeSign
  split
  · exact Or.inr (Or.inl rfl)
  · exact Or.inr (Or.inr rfl)
  · exact Or.inl rfl

lemma takeSign_append_rest (cs : List Char) : (takeSign cs).1.toList ++ (takeSign cs).2 = cs := by
  unfold takeSign
  split <;> rfl

/-- The point at the head of a text with the digits behind it. -/
def takeFraction (cs : List Char) : Option (List Char) × List Char :=
  if cs.head? = some '.' then (some (cs.tail.takeWhile Char.isDigit), cs.tail.dropWhile Char.isDigit)
  else (none, cs)

lemma takeFraction_append_rest (cs : List Char) :
    fractionChars (takeFraction cs).1 ++ (takeFraction cs).2 = cs := by
  unfold takeFraction
  split
  · rename_i hhead
    obtain ⟨rest, rfl⟩ : ∃ rest, cs = '.' :: rest := List.head?_eq_some_iff.1 hhead
    simp [fractionChars, List.takeWhile_append_dropWhile]
  · rfl

lemma isDigit_of_takeFraction {cs ds : List Char} (h : (takeFraction cs).1 = some ds) :
    ∀ c ∈ ds, c.isDigit = true := by
  unfold takeFraction at h
  split at h
  · cases h
    exact fun c hc => List.mem_takeWhile_imp hc
  · cases h

lemma takeExponent_append_rest (cs : List Char) :
    exponentChars (takeExponent cs).1 ++ (takeExponent cs).2 = cs := by
  cases cs with
  | nil => rfl
  | cons e rest =>
    unfold takeExponent
    by_cases he : e = 'e' ∨ e = 'E'
    · have hsign := takeSign_append_rest rest
      have hdigits := List.takeWhile_append_dropWhile (p := Char.isDigit) (l := (takeSign rest).2)
      simp only [if_pos he]
      split
      · rfl
      · simp only [exponentChars, List.cons_append, List.append_assoc, hdigits, hsign]
    · simp only [if_neg he]
      rfl

lemma of_takeExponent {cs : List Char} {e : Char} {sign : Option Char} {ds : List Char}
    (h : (takeExponent cs).1 = some (e, sign, ds)) :
    (e = 'e' ∨ e = 'E') ∧ IsSign sign ∧ ds ≠ [] ∧ ∀ c ∈ ds, c.isDigit = true := by
  cases cs with
  | nil => cases h
  | cons d rest =>
    unfold takeExponent at h
    by_cases hd : d = 'e' ∨ d = 'E'
    · simp only [if_pos hd] at h
      split at h
      · cases h
      · rename_i hne
        cases h
        exact ⟨hd, isSign_takeSign rest, hne, fun c hc => List.mem_takeWhile_imp hc⟩
    · simp only [if_neg hd] at h
      cases h

namespace Numeral

lemma scan_eq (cs : List Char) :
    scan cs =
      (⟨(takeSign cs).1, (takeSign cs).2.takeWhile Char.isDigit,
        (takeFraction ((takeSign cs).2.dropWhile Char.isDigit)).1,
        (takeExponent (takeFraction ((takeSign cs).2.dropWhile Char.isDigit)).2).1⟩,
      (takeExponent (takeFraction ((takeSign cs).2.dropWhile Char.isDigit)).2).2) := by
  unfold scan
  simp only
  split
  · rename_i rest hpoint
    rw [hpoint]
    rfl
  · rename_i hpoint
    have hnone : takeFraction ((takeSign cs).2.dropWhile Char.isDigit) =
        (none, (takeSign cs).2.dropWhile Char.isDigit) := by
      apply if_neg
      intro hhead
      obtain ⟨rest, hrest⟩ := List.head?_eq_some_iff.1 hhead
      exact hpoint rest hrest
    rw [hnone]

/-- A scan cuts a text in two. -/
theorem text_scan_append (cs : List Char) : (scan cs).1.text ++ (scan cs).2 = cs := by
  rw [text_eq, scan_eq]
  simp only [List.append_assoc]
  rw [takeExponent_append_rest, takeFraction_append_rest, List.takeWhile_append_dropWhile,
    takeSign_append_rest]

theorem shaped_scan (cs : List Char) : (scan cs).1.Shaped := by
  rw [scan_eq]
  exact ⟨isSign_takeSign cs, fun c hc => List.mem_takeWhile_imp hc,
    fun ds hds => isDigit_of_takeFraction hds, fun e sign ds h => of_takeExponent h⟩

end Numeral

/-! What is left behind a numeral is left by every scan that goes past its parts. -/

lemma dropWhile_of_head {cs : List Char} (h : ∀ c ∈ cs.head?, ¬ c.isDigit = true) :
    cs.dropWhile Char.isDigit = cs := by
  cases cs with
  | nil => rfl
  | cons c cs => exact List.dropWhile_cons_of_neg (h c rfl)

lemma length_takeExponent_le (cs : List Char) : (takeExponent cs).2.length ≤ cs.length :=
  List.IsSuffix.length_le ⟨_, takeExponent_append_rest cs⟩

lemma length_takeFraction_le (cs : List Char) : (takeFraction cs).2.length ≤ cs.length :=
  List.IsSuffix.length_le ⟨_, takeFraction_append_rest cs⟩

lemma length_takeSign_le (cs : List Char) : (takeSign cs).2.length ≤ cs.length :=
  List.IsSuffix.length_le ⟨_, takeSign_append_rest cs⟩

namespace Numeral
variable {n : Numeral}

lemma Shaped.takeExponent_le (hn : n.Shaped) (t : List Char) :
    (takeExponent (exponentChars n.exponent ++ t)).2.length ≤ t.length := by
  rcases hexp : n.exponent with - | ⟨e, sign, ds⟩
  · exact length_takeExponent_le t
  · obtain ⟨he, hsign, hne, hds⟩ := hn.exponent e sign ds hexp
    obtain ⟨d, ds', rfl⟩ := List.exists_cons_of_ne_nil hne
    have hd := hds d (by simp)
    have hbody : ∀ c ∈ (d :: ds' ++ t).head?, c ≠ '+' ∧ c ≠ '-' := by
      intro c hc
      cases hc
      exact not_sign_of_isDigit hd
    simp only [exponentChars, List.cons_append, List.append_assoc]
    unfold takeExponent
    simp only [if_pos he]
    rw [← List.cons_append, takeSign_append hsign hbody]
    simp only
    split
    · rename_i hnil
      rw [List.cons_append, List.takeWhile_cons_of_pos hd] at hnil
      cases hnil
    · simp only
      rw [List.dropWhile_append_of_pos hds]
      exact List.length_dropWhile_le _ t

/-- Behind its sign a numeral begins with a digit, or with a point and a digit. -/
lemma WellFormed.head_body (hn : n.WellFormed) (t : List Char) :
    ∃ d rest, n.whole ++ (fractionChars n.fraction ++ t) = d :: rest ∧
      (d.isDigit = true ∨ d = '.' ∧ ∃ e more, rest = e :: more ∧ e.isDigit = true) := by
  have hdigit := hn.hasDigit
  rcases hwhole : n.whole with - | ⟨d, ds⟩
  · rcases hfraction : n.fraction with - | ⟨- | ⟨e, ds⟩⟩
    · simp [Numeral.hasDigit, hwhole, hfraction] at hdigit
    · simp [Numeral.hasDigit, hwhole, hfraction] at hdigit
    · exact ⟨'.', _, rfl, .inr ⟨rfl, e, _, rfl, hn.fraction _ hfraction e (by simp)⟩⟩
  · exact ⟨d, _, rfl, .inl (hn.whole d (by simp [hwhole]))⟩

/-- A numeral that has a value is scanned as one that has. -/
lemma WellFormed.hasDigit_scan (hn : n.WellFormed) (t : List Char) :
    (scan (n.text ++ t)).1.hasDigit = true := by
  have hsign := takeSign_append hn.sign (whole_head_not_sign hn (exponentChars n.exponent ++ t))
  obtain ⟨d, rest, hbody, hd⟩ := hn.head_body (exponentChars n.exponent ++ t)
  rw [text_eq, List.append_assoc, List.append_assoc, List.append_assoc, scan_eq, hsign, hbody]
  rcases hd with hd | ⟨rfl, e, more, rfl, he⟩
  · simp [Numeral.hasDigit, hd]
  · simp [Numeral.hasDigit, takeFraction, he]

/-- Where a fraction or an exponent is written, it begins with a point or a letter. -/
lemma Shaped.head_parts (hn : n.Shaped) (hsome : ¬ (n.fraction = none ∧ n.exponent = none))
    (t : List Char) : ∀ c ∈ (fractionChars n.fraction ++ (exponentChars n.exponent ++ t)).head?,
      c.isDigit = false ∧ c ≠ '+' ∧ c ≠ '-' ∧ (n.fraction = none → c ≠ '.') := by
  intro c hc
  rcases hfraction : n.fraction with - | ds
  · rcases hexp : n.exponent with - | ⟨e, sign, ds⟩
    · exact absurd ⟨hfraction, hexp⟩ hsome
    · rw [hfraction, hexp] at hc
      cases hc
      obtain ⟨rfl | rfl, -⟩ := hn.exponent _ _ _ hexp
      · decide
      · decide
  · rw [hfraction] at hc
    cases hc
    simp

/-- Behind the digits of a fraction. -/
lemma Shaped.digits_takeExponent_le (hn : n.Shaped) (t : List Char) :
    (takeExponent ((exponentChars n.exponent ++ t).dropWhile Char.isDigit)).2.length ≤ t.length := by
  rcases hexp : n.exponent with - | ⟨e, sign, ds⟩
  · exact (length_takeExponent_le _).trans (List.length_dropWhile_le _ t)
  · have hhead : ∀ c ∈ (exponentChars (some (e, sign, ds)) ++ t).head?, ¬ c.isDigit = true := by
      intro c hc
      cases hc
      obtain ⟨rfl | rfl, -⟩ := hn.exponent _ _ _ hexp
      · decide
      · decide
    rw [dropWhile_of_head hhead, ← hexp]
    exact hn.takeExponent_le t

/-- Behind the whole digits of a numeral. -/
lemma Shaped.takeFraction_le (hn : n.Shaped) (t : List Char) :
    (takeExponent (takeFraction
      (fractionChars n.fraction ++ (exponentChars n.exponent ++ t))).2).2.length ≤ t.length := by
  rcases hfraction : n.fraction with - | ds
  · by_cases hexp : n.exponent = none
    · rw [hexp]
      exact (length_takeExponent_le _).trans (length_takeFraction_le t)
    · have hhead := hn.head_parts (fun h => hexp h.2) t
      rw [hfraction] at hhead
      have hnone : takeFraction ([] ++ (exponentChars n.exponent ++ t)) =
          (none, exponentChars n.exponent ++ t) := by
        apply if_neg
        intro hpoint
        exact (hhead '.' hpoint).2.2.2 rfl rfl
      rw [fractionChars, hnone]
      exact hn.takeExponent_le t
  · have hds := hn.fraction ds hfraction
    change (takeExponent ((ds ++ (exponentChars n.exponent ++ t)).dropWhile Char.isDigit)).2.length ≤ _
    rw [List.dropWhile_append_of_pos hds]
    exact hn.digits_takeExponent_le t

/-- Behind the sign of a numeral. -/
lemma Shaped.whole_le (hn : n.Shaped) (t : List Char) :
    (takeExponent (takeFraction ((n.whole ++ (fractionChars n.fraction ++
      (exponentChars n.exponent ++ t))).dropWhile Char.isDigit)).2).2.length ≤ t.length := by
  rw [List.dropWhile_append_of_pos hn.whole]
  by_cases hnone : n.fraction = none ∧ n.exponent = none
  · rw [hnone.1, hnone.2]
    exact (length_takeExponent_le _).trans
      ((length_takeFraction_le _).trans (List.length_dropWhile_le _ t))
  · have hhead := hn.head_parts hnone t
    rw [dropWhile_of_head fun c hc => Bool.eq_false_iff.1 (hhead c hc).1]
    exact hn.takeFraction_le t

lemma Shaped.head_unsigned (hn : n.Shaped)
    (hsome : ¬ (n.whole = [] ∧ n.fraction = none ∧ n.exponent = none)) (t : List Char) :
    ∀ c ∈ (n.whole ++ (fractionChars n.fraction ++ (exponentChars n.exponent ++ t))).head?,
      c ≠ '+' ∧ c ≠ '-' := by
  rcases hwhole : n.whole with - | ⟨d, ds⟩
  · intro c hc
    obtain ⟨-, hplus, hminus, -⟩ := hn.head_parts (fun h => hsome ⟨hwhole, h⟩) t c hc
    exact ⟨hplus, hminus⟩
  · intro c hc
    cases hc
    exact not_sign_of_isDigit (hn.whole _ (by simp [hwhole]))

/-- No numeral at the head of a text is longer than the one that a scan finds. -/
theorem Shaped.length_rest_scan_le (hn : n.Shaped) (t : List Char) :
    (scan (n.text ++ t)).2.length ≤ t.length := by
  rw [text_eq, List.append_assoc, List.append_assoc, List.append_assoc, scan_eq]
  by_cases hempty : n.sign = none ∧ n.whole = [] ∧ n.fraction = none ∧ n.exponent = none
  · rw [hempty.1, hempty.2.1, hempty.2.2.1, hempty.2.2.2]
    exact (length_takeExponent_le _).trans ((length_takeFraction_le _).trans
      ((List.length_dropWhile_le _ _).trans (length_takeSign_le t)))
  · have hsigned : (takeSign (n.sign.toList ++ (n.whole ++ (fractionChars n.fraction ++
        (exponentChars n.exponent ++ t))))).2 =
        n.whole ++ (fractionChars n.fraction ++ (exponentChars n.exponent ++ t)) := by
      obtain hsign | hsign | hsign := hn.sign
      · rw [hsign, takeSign_append (Or.inl rfl) (hn.head_unsigned (fun h => hempty ⟨hsign, h⟩) t)]
      · rw [hsign]
        rfl
      · rw [hsign]
        rfl
    rw [hsigned]
    exact hn.whole_le t

end Numeral
end Sortie.Decimal
