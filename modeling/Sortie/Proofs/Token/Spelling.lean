import Sortie.Proofs.Decimal.Longest
import Sortie.Proofs.Token.Names

/-! How tokens are written. At the head of a text the longest spelling of a token is taken, and a
fault is found exactly where no token is spelled. -/
namespace Sortie

lemma Mark.ofChar?_eq_some_iff {c : Char} {m : Mark} :
    ofChar? c = some m ↔ m.spelling.toList = [c] := by
  constructor
  · intro h
    unfold ofChar? at h
    split at h <;> cases h <;> rfl
  · intro h
    cases m with
    | arrow => cases h
    | _ => cases h; rfl

/-- No mark begins with a character of a class that has none of the marks. -/
lemma Mark.ofChar?_eq_none {p : Char → Bool} (hp : ∀ m c, ofChar? c = some m → p c = false)
    {c : Char} (hc : p c = true) : ofChar? c = none := by
  cases hm : ofChar? c with
  | none => rfl
  | some m =>
    rw [hp m c hm] at hc
    cases hc

namespace Token
open Decimal (Numeral)

/-- The numerals of integers: without minus, point and exponent, and of at most 64 bits. -/
def IsInteger (n : Numeral) : Prop :=
  n.sign ≠ some '-' ∧ n.fraction = none ∧ n.exponent = none ∧ Decimal.digitsValue n.whole < UInt64.size

/-- The ways to write a token of each kind. The end of the input is not written. -/
inductive Spells : Kind → List Char → Prop
  | keyword (k : Keyword) : Spells (.keyword k) k.word.toList
  | name {s : String} (word : IsName s) (free : ∀ k : Keyword, k.word ≠ s) :
      Spells (.name s) s.toList
  | text {s : String} (inside : ∀ c ∈ s.toList, c ≠ '"' ∧ c ≠ '\n') :
      Spells (.text s) ('"' :: s.toList ++ ['"'])
  | integer {n : Numeral} {v : UInt64} (formed : n.WellFormed) (integer : IsInteger n)
      (value : v.toNat = Decimal.digitsValue n.whole) : Spells (.integer v) n.text
  | number {n : Numeral} (formed : n.WellFormed) (other : ¬ IsInteger n) :
      Spells (.number n.toFloat) n.text
  | mark (m : Mark) : Spells (.mark m) m.spelling.toList

/-- A spelling at the head of a text that no longer one covers. -/
structure Leads (k : Kind) (l rest : List Char) : Prop where
  spells : Spells k l
  longest : ∀ {k' l'}, Spells k' l' → l' <+: l ++ rest → l'.length ≤ l.length

/-- The characters that part tokens: blanks, and the slash that begins a comment. -/
def Parts (c : Char) : Prop := Text.isBlank c = true ∨ c = '/'

instance (c : Char) : Decidable (Parts c) :=
  inferInstanceAs (Decidable (Text.isBlank c = true ∨ c = '/'))

/-! The kinds of words and of numerals. -/

lemma ofWord?_eq_some_iff {s : String} {k : Keyword} :
    Keyword.ofWord? s = some k ↔ k.word = s := by
  constructor
  · intro h
    simpa using List.find?_some h
  · rintro rfl
    cases k <;> rfl

lemma spells_scanWord {c : Char} (hc : isWordStart c = true) (cs : List Char) :
    Spells (scanWord (c :: cs)).kind (scanWord (c :: cs)).spelling := by
  have hname := isName_takeWhile hc cs
  unfold scanWord
  generalize (c :: cs).takeWhile isWordPart = word at hname
  have hword : (String.ofList word).toList = word := String.toList_ofList
  simp only
  split
  · rename_i k hk
    rw [← hword, ← ofWord?_eq_some_iff.1 hk]
    exact .keyword k
  · rename_i hk
    nth_rewrite 2 [← hword]
    refine .name hname ?_
    intro k hfree
    rw [ofWord?_eq_some_iff.2 hfree] at hk
    cases hk

lemma numeralKind_of_isInteger {n : Numeral} {v : UInt64} (h : IsInteger n)
    (hv : v.toNat = Decimal.digitsValue n.whole) : numeralKind n = .integer v := by
  have hkind : numeralKind n = .integer (UInt64.ofNat (Decimal.digitsValue n.whole)) := if_pos h
  rw [hkind, ← hv, UInt64.ofNat_toNat]

lemma numeralKind_of_not_isInteger {n : Numeral} (h : ¬ IsInteger n) :
    numeralKind n = .number n.toFloat := if_neg h

lemma spells_numeralKind {n : Numeral} (hn : n.WellFormed) : Spells (numeralKind n) n.text := by
  by_cases h : IsInteger n
  · have hvalue : (UInt64.ofNat (Decimal.digitsValue n.whole)).toNat =
        Decimal.digitsValue n.whole := UInt64.toNat_ofNat_of_lt h.2.2.2
    rw [numeralKind_of_isInteger h hvalue]
    exact .integer hn h hvalue
  · rw [numeralKind_of_not_isInteger h]
    exact .number hn h

/-! What the scanner does with a text that begins with a given spelling. -/

/-- What a token can be: a mark, a quoted text, an arrow, a numeral or a word. -/
lemma scanOne_cases {c : Char} {cs : List Char} {lexeme : Lexeme}
    (h : scanOne c cs = .ok lexeme) :
    (∃ m, Mark.ofChar? c = some m ∧ lexeme = ⟨.mark m, [c], cs⟩) ∨
      (c = '"' ∧ scanText cs = .ok lexeme) ∨
      (∃ rest, c = '-' ∧ cs = '>' :: rest ∧ lexeme = ⟨.mark .arrow, ['-', '>'], rest⟩) ∨
      scanNumeral (c :: cs) = .ok lexeme ∨
      (isWordStart c = true ∧ lexeme = scanWord (c :: cs)) := by
  unfold scanOne at h
  extract_lets next at h
  split at h
  · rename_i m hm
    exact Or.inl ⟨m, hm, (Except.ok.inj h).symm⟩
  · split at h
    · rename_i hquote
      exact Or.inr (Or.inl ⟨hquote, h⟩)
    · refine Or.inr (Or.inr ?_)
      split at h
      · rename_i hminus
        split at h
        · rename_i rest
          exact Or.inl ⟨rest, hminus, rfl, (Except.ok.inj h).symm⟩
        · split_ifs at h
          exact Or.inr (Or.inl h)
      · refine Or.inr ?_
        split_ifs at h with hplus hpoint hdigit hstart
        · exact Or.inl h
        · exact Or.inl h
        · exact Or.inl h
        · exact Or.inr ⟨hstart, (Except.ok.inj h).symm⟩

lemma scanOne_text {body : List Char} (h : ∀ c ∈ body, c ≠ '"' ∧ c ≠ '\n') (rest : List Char) :
    scanOne '"' (body ++ '"' :: rest) =
      .ok ⟨.text (String.ofList body), '"' :: body ++ ['"'], rest⟩ := by
  have hpass : ∀ c ∈ body, (c != '"' && c != '\n') = true := by
    intro c hc
    simpa using h c hc
  change scanText (body ++ '"' :: rest) = _
  unfold scanText
  simp only
  rw [List.takeWhile_append_of_pos hpass, List.dropWhile_append_of_pos hpass]
  simp

lemma not_isDigit_of_isWordStart {c : Char} (h : isWordStart c = true) : c.isDigit = false := by
  simp only [Bool.eq_false_iff, Ne, Char.isDigit_iff_toNat, Char.reduceToNat]
  rcases Bool.or_eq_true_iff.1 h with h | h
  · rw [isAlpha_iff] at h
    omega
  · obtain rfl : c = '_' := by simpa using h
    decide

lemma scanOne_word {c : Char} (h : isWordStart c = true) (cs : List Char) :
    scanOne c cs = .ok (scanWord (c :: cs)) := by
  have hne : ∀ d : Char, isWordStart d = false → c ≠ d :=
    fun d hd => ne_of_apply_ne isWordStart (by simp [h, hd])
  have hmark : Mark.ofChar? c = none := by
    refine Mark.ofChar?_eq_none (fun m d hm => ?_) h
    have hspelling := Mark.ofChar?_eq_some_iff.1 hm
    cases m <;> cases hspelling <;> rfl
  unfold scanOne
  simp [hmark, hne '"' rfl, hne '-' rfl, hne '+' rfl, hne '.' rfl, not_isDigit_of_isWordStart h, h]

lemma scanOne_digit {c : Char} (h : c.isDigit = true) (cs : List Char) :
    scanOne c cs = scanNumeral (c :: cs) := by
  have hne : ∀ d : Char, d.isDigit = false → c ≠ d := fun d => Decimal.ne_of_isDigit h
  have hmark : Mark.ofChar? c = none := by
    refine Mark.ofChar?_eq_none (fun m d hm => ?_) h
    have hspelling := Mark.ofChar?_eq_some_iff.1 hm
    cases m <;> cases hspelling <;> rfl
  unfold scanOne
  simp [hmark, hne '"' rfl, hne '-' rfl, hne '+' rfl, hne '.' rfl, h]

lemma scanOne_sign {c d : Char} (hc : c = '+' ∨ c = '-') (hd : d.isDigit = true ∨ d = '.')
    (cs : List Char) : scanOne c (d :: cs) = scanNumeral (c :: d :: cs) := by
  have hgreater : d ≠ '>' := by
    rintro rfl
    simp at hd
  have hnext : (d.isDigit || d == '.') = true := by simpa using hd
  obtain rfl | rfl := hc
  · change (if '+' = '+' ∧ (d.isDigit || d == '.') = true then _ else _) = _
    exact if_pos ⟨rfl, hnext⟩
  · unfold scanOne
    simp [Mark.ofChar?, hgreater, hnext]

/-- Where a numeral is read: at a digit, at a sign in front of a digit or a point, and at a point in
front of a digit. -/
def BeginsNumeral (c : Char) (cs : List Char) : Prop :=
  c.isDigit = true ∨
    ((c = '+' ∨ c = '-') ∧ ∃ d ∈ cs.head?, d.isDigit = true ∨ d = '.') ∨
    (c = '.' ∧ ∃ d ∈ cs.head?, d.isDigit = true)

lemma scanOne_of_beginsNumeral {c : Char} {cs : List Char} (h : BeginsNumeral c cs) :
    scanOne c cs = scanNumeral (c :: cs) := by
  rcases h with hc | ⟨hc, d, hhead, hd⟩ | ⟨rfl, d, hhead, hd⟩
  · exact scanOne_digit hc cs
  · obtain ⟨rest, rfl⟩ := List.head?_eq_some_iff.1 hhead
    exact scanOne_sign hc hd rest
  · obtain ⟨rest, rfl⟩ := List.head?_eq_some_iff.1 hhead
    change (if '.' = '.' ∧ d.isDigit = true then _ else _) = _
    exact if_pos ⟨rfl, hd⟩

lemma beginsNumeral_of_text {n : Numeral} (hn : n.WellFormed) {t : List Char} {c : Char}
    {cs : List Char} (h : c :: cs = n.text ++ t) : BeginsNumeral c cs := by
  obtain ⟨d, rest, hbody, hd⟩ := hn.head_body (Decimal.exponentChars n.exponent ++ t)
  have hfirst : d.isDigit = true ∨ d = '.' := hd.imp_right And.left
  rw [Decimal.Numeral.text_eq, List.append_assoc, List.append_assoc, List.append_assoc, hbody] at h
  obtain hsign | hsign | hsign := hn.sign
  · rw [hsign] at h
    cases h
    rcases hd with hd | ⟨rfl, e, more, rfl, he⟩
    · exact .inl hd
    · exact .inr (.inr ⟨rfl, e, rfl, he⟩)
  · rw [hsign] at h
    cases h
    exact .inr (.inl ⟨.inl rfl, d, rfl, hfirst⟩)
  · rw [hsign] at h
    cases h
    exact .inr (.inl ⟨.inr rfl, d, rfl, hfirst⟩)

/-- What is scanned as a numeral is one, and no longer one stands there. -/
lemma scanNumeral_eq_ok_iff {cs : List Char} {lexeme : Lexeme} :
    scanNumeral cs = .ok lexeme ↔ (Numeral.scan cs).1.WellFormed ∧
      lexeme = ⟨numeralKind (Numeral.scan cs).1, (Numeral.scan cs).1.text, (Numeral.scan cs).2⟩ := by
  unfold scanNumeral
  simp only
  by_cases hdigit : (Numeral.scan cs).1.hasDigit = true
  · rw [if_pos hdigit]
    simp [Numeral.wellFormed_iff, Numeral.shaped_scan cs, hdigit, eq_comm]
  · rw [if_neg hdigit]
    simp [Numeral.wellFormed_iff, hdigit]

lemma scanText_eq_ok_iff {cs : List Char} {lexeme : Lexeme} :
    scanText cs = .ok lexeme ↔ ∃ body rest, cs = body ++ '"' :: rest ∧
      (∀ c ∈ body, c ≠ '"' ∧ c ≠ '\n') ∧
      lexeme = ⟨.text (String.ofList body), '"' :: body ++ ['"'], rest⟩ := by
  constructor
  · intro h
    have hcut := List.takeWhile_append_dropWhile (p := fun c => c != '"' && c != '\n') (l := cs)
    unfold scanText at h
    simp only at h
    split at h
    · rename_i rest hrest
      cases h
      rw [hrest] at hcut
      refine ⟨_, rest, hcut.symm, ?_, rfl⟩
      intro c hc
      simpa using List.mem_takeWhile_imp hc
    · cases h
  · rintro ⟨body, rest, rfl, hbody, rfl⟩
    exact scanOne_text hbody rest

/-- A token that is scanned is spelled as it was found, in front of what is left. -/
lemma spells_of_scanOne {c : Char} {cs : List Char} {lexeme : Lexeme}
    (h : scanOne c cs = .ok lexeme) :
    Spells lexeme.kind lexeme.spelling ∧ c :: cs = lexeme.spelling ++ lexeme.rest := by
  rcases scanOne_cases h with ⟨m, hm, rfl⟩ | ⟨rfl, h⟩ | ⟨rest, rfl, rfl, rfl⟩ | h | ⟨hstart, rfl⟩
  · rw [Mark.ofChar?_eq_some_iff] at hm
    refine ⟨?_, rfl⟩
    rw [← hm]
    exact .mark m
  · obtain ⟨body, rest, rfl, hbody, rfl⟩ := scanText_eq_ok_iff.1 h
    have htext := Spells.text (s := String.ofList body) (by rwa [String.toList_ofList])
    rw [String.toList_ofList] at htext
    exact ⟨htext, by simp⟩
  · exact ⟨.mark .arrow, rfl⟩
  · obtain ⟨hn, rfl⟩ := scanNumeral_eq_ok_iff.1 h
    exact ⟨spells_numeralKind hn, (Numeral.text_scan_append _).symm⟩
  · exact ⟨spells_scanWord hstart cs, List.takeWhile_append_dropWhile.symm⟩

/-- Where a word stands, a word is scanned, and it is no shorter. -/
lemma scanOne_of_name {s : String} (hs : IsName s) {c : Char} {cs t : List Char}
    (ht : c :: cs = s.toList ++ t) :
    scanOne c cs = .ok (scanWord (c :: cs)) ∧
      s.toList.length ≤ (scanWord (c :: cs)).spelling.length := by
  constructor
  · obtain ⟨d, ds, hd, hstart, -⟩ := hs
    rw [hd] at ht
    cases ht
    exact scanOne_word hstart _
  · change s.toList.length ≤ ((c :: cs).takeWhile isWordPart).length
    rw [ht, List.takeWhile_append_of_pos hs.isWordPart, List.length_append]
    omega

lemma kind_scanWord {cs : List Char} {s : String} (h : (scanWord cs).spelling = s.toList) :
    (∀ k : Keyword, k.word = s → (scanWord cs).kind = .keyword k) ∧
      ((∀ k : Keyword, k.word ≠ s) → (scanWord cs).kind = .name s) := by
  have hword : String.ofList (cs.takeWhile isWordPart) = s := by
    change cs.takeWhile isWordPart = s.toList at h
    rw [h, String.ofList_toList]
  unfold scanWord
  simp only [hword]
  constructor
  · intro k hk
    rw [ofWord?_eq_some_iff.2 hk]
  · intro hfree
    cases hk : Keyword.ofWord? s with
    | none => rfl
    | some k => exact absurd (ofWord?_eq_some_iff.1 hk) (hfree k)

/-- Where a numeral stands, a numeral is scanned, and it is no shorter. -/
lemma scanOne_of_numeral {n : Numeral} (hn : n.WellFormed) {c : Char} {cs t : List Char}
    (ht : c :: cs = n.text ++ t) :
    ∃ m rest, m.WellFormed ∧ scanOne c cs = .ok ⟨numeralKind m, m.text, rest⟩ ∧
      n.text.length ≤ m.text.length := by
  have hm : (Numeral.scan (c :: cs)).1.WellFormed := by
    rw [Numeral.wellFormed_iff, ht]
    exact ⟨Numeral.shaped_scan _, hn.hasDigit_scan t⟩
  refine ⟨_, (Numeral.scan (c :: cs)).2, hm, ?_, ?_⟩
  · rw [scanOne_of_beginsNumeral (beginsNumeral_of_text hn ht)]
    exact scanNumeral_eq_ok_iff.2 ⟨hm, rfl⟩
  · have hlength := congrArg List.length (Numeral.text_scan_append (n.text ++ t))
    have hrest := hn.shaped.length_rest_scan_le t
    rw [List.length_append, List.length_append] at hlength
    rw [ht]
    omega

lemma eq_of_text_eq {n m : Numeral} (hn : n.WellFormed) (hm : m.WellFormed) (h : m.text = n.text) :
    m = n := by
  have hscan := Numeral.scan_text hm
  rw [h, Numeral.scan_text hn] at hscan
  exact (congrArg Prod.fst hscan).symm

lemma isName_word (k : Keyword) : IsName k.word := by
  cases k <;> exact ⟨_, _, rfl, rfl, List.all_eq_true.1 rfl⟩

/-- Where a token is spelled, a token is scanned. It is no shorter, and it is the same where it is
no longer. -/
lemma scanOne_of_spells {k : Kind} {l : List Char} (h : Spells k l) {c : Char} {cs t : List Char}
    (ht : c :: cs = l ++ t) :
    ∃ lexeme, scanOne c cs = .ok lexeme ∧ l.length ≤ lexeme.spelling.length ∧
      (lexeme.spelling = l → lexeme.kind = k) := by
  cases h with
  | keyword k =>
    obtain ⟨hscan, hlength⟩ := scanOne_of_name (isName_word k) ht
    exact ⟨_, hscan, hlength, fun heq => (kind_scanWord heq).1 k rfl⟩
  | name word free =>
    obtain ⟨hscan, hlength⟩ := scanOne_of_name word ht
    exact ⟨_, hscan, hlength, fun heq => (kind_scanWord heq).2 free⟩
  | @text s inside =>
    rw [List.append_assoc, List.cons_append] at ht
    cases ht
    refine ⟨_, scanOne_text inside t, le_refl _, fun _ => ?_⟩
    rw [String.ofList_toList]
  | @integer n v formed integer value =>
    obtain ⟨m, rest, hm, hscan, hlength⟩ := scanOne_of_numeral formed ht
    refine ⟨_, hscan, hlength, fun heq => ?_⟩
    rw [eq_of_text_eq formed hm heq]
    exact numeralKind_of_isInteger integer value
  | @number n formed other =>
    obtain ⟨m, rest, hm, hscan, hlength⟩ := scanOne_of_numeral formed ht
    refine ⟨_, hscan, hlength, fun heq => ?_⟩
    rw [eq_of_text_eq formed hm heq]
    exact numeralKind_of_not_isInteger other
  | mark m =>
    cases m <;> cases ht <;> exact ⟨_, rfl, le_refl _, fun _ => rfl⟩

/-- The scanner takes the longest spelling at the head of a text. -/
theorem scanOne_eq_ok_iff {c : Char} {cs : List Char} {k : Kind} {l rest : List Char} :
    scanOne c cs = .ok ⟨k, l, rest⟩ ↔ c :: cs = l ++ rest ∧ Leads k l rest := by
  constructor
  · intro h
    obtain ⟨hspells, hcut⟩ := spells_of_scanOne h
    refine ⟨hcut, hspells, ?_⟩
    rintro k' l' hspells' ⟨t, ht⟩
    obtain ⟨lexeme, hscan, hlength, -⟩ := scanOne_of_spells hspells' (hcut.trans ht.symm)
    rw [h] at hscan
    cases hscan
    exact hlength
  · rintro ⟨hcut, hleads⟩
    obtain ⟨lexeme, hscan, hlength, hkind⟩ := scanOne_of_spells hleads.spells hcut
    obtain ⟨hspells, hcut'⟩ := spells_of_scanOne hscan
    have hle : lexeme.spelling.length ≤ l.length :=
      hleads.longest hspells ⟨lexeme.rest, hcut'.symm.trans hcut⟩
    obtain ⟨hspelling, hrest⟩ := List.append_inj (hcut'.symm.trans hcut) (le_antisymm hle hlength)
    rw [hscan, ← hkind hspelling, ← hspelling, ← hrest]

/-- The scanner finds a fault where no token is spelled. -/
theorem exists_scanOne_error_iff {c : Char} {cs : List Char} :
    (∃ fault, scanOne c cs = .error fault) ↔ ∀ k l, Spells k l → ¬ l <+: c :: cs := by
  constructor
  · rintro ⟨fault, h⟩ k l hspells ⟨t, ht⟩
    obtain ⟨lexeme, hscan, -⟩ := scanOne_of_spells hspells ht.symm
    rw [h] at hscan
    cases hscan
  · intro h
    cases hscan : scanOne c cs with
    | error fault => exact ⟨fault, rfl⟩
    | ok lexeme =>
      obtain ⟨hspells, hcut⟩ := spells_of_scanOne hscan
      exact absurd ⟨lexeme.rest, hcut.symm⟩ (h _ _ hspells)

/-! The characters of spellings. -/

/-- The characters that stand in no token but a quoted text. -/
def Foreign (c : Char) : Prop := Parts c ∨ c = '"'

instance (c : Char) : Decidable (Foreign c) := inferInstanceAs (Decidable (Parts c ∨ c = '"'))

lemma Foreign.bounds {c : Char} (h : Foreign c) :
    c.toNat ≤ 0x22 ∨ c.toNat = 0x2F ∨ 0x85 ≤ c.toNat := by
  rcases h with (h | rfl) | rfl
  · simp only [Text.isBlank, Bool.or_eq_true, Bool.and_eq_true, decide_eq_true_eq,
      beq_iff_eq] at h
    omega
  · decide
  · decide

lemma not_foreign_of_isWordPart {c : Char} (h : isWordPart c = true) : ¬ Foreign c := by
  intro hforeign
  have hword := bounds_of_isWordPart h
  have hbounds := hforeign.bounds
  omega

lemma not_foreign_of_isNumeralChar {c : Char} (h : Decimal.isNumeralChar c = true) :
    ¬ Foreign c := by
  simp only [Decimal.isNumeralChar, Bool.or_eq_true, beq_iff_eq] at h
  rcases h with ((((h | rfl) | rfl) | rfl) | rfl) | rfl
  · exact not_foreign_of_isWordPart (by simp [isWordPart, Char.isAlphanum, h])
  all_goals decide

lemma Spells.not_foreign {k : Kind} {l : List Char} (h : Spells k l) (hk : ∀ s, k ≠ .text s) :
    ∀ c ∈ l, ¬ Foreign c := by
  cases h with
  | keyword k => exact fun c hc => not_foreign_of_isWordPart ((isName_word k).isWordPart c hc)
  | name word free => exact fun c hc => not_foreign_of_isWordPart (word.isWordPart c hc)
  | @text s inside => exact absurd rfl (hk s)
  | integer formed integer value =>
    have hchars := Decimal.isNumeralChar_of_mem_text formed.shaped
    exact fun c hc => not_foreign_of_isNumeralChar (hchars c hc)
  | number formed other =>
    have hchars := Decimal.isNumeralChar_of_mem_text formed.shaped
    exact fun c hc => not_foreign_of_isNumeralChar (hchars c hc)
  | mark m => cases m <;> simp [Mark.spelling, Foreign, Parts, Text.isBlank]

lemma text_ne_nil {n : Numeral} (hn : n.WellFormed) : n.text ≠ [] := by
  obtain ⟨d, rest, hbody, -⟩ := hn.head_body (Decimal.exponentChars n.exponent)
  rw [Decimal.Numeral.text_eq, hbody]
  simp

lemma Spells.ne_nil {k : Kind} {l : List Char} (h : Spells k l) : l ≠ [] := by
  cases h with
  | keyword k => cases k <;> decide
  | name word free =>
    obtain ⟨c, cs, hs, -⟩ := word
    rw [hs]
    exact List.cons_ne_nil c cs
  | text inside => exact List.cons_ne_nil _ _
  | integer formed integer value => exact text_ne_nil formed
  | number formed other => exact text_ne_nil formed
  | mark m => cases m <;> decide

lemma Spells.ne_finish {k : Kind} {l : List Char} (h : Spells k l) : k ≠ .finish := by
  rintro rfl
  cases h

/-- A token begins with a character that parts none. -/
lemma Spells.exists_head {k : Kind} {l : List Char} (h : Spells k l) :
    ∃ c cs, l = c :: cs ∧ ¬ Parts c := by
  obtain ⟨c, cs, rfl⟩ := List.exists_cons_of_ne_nil h.ne_nil
  refine ⟨c, cs, rfl, ?_⟩
  by_cases hk : ∃ s, k = .text s
  · obtain ⟨s, rfl⟩ := hk
    cases h
    decide
  · exact fun hparts =>
      h.not_foreign (fun s hs => hk ⟨s, hs⟩) c (List.mem_cons_self ..) (.inl hparts)

/-- A token ends where a blank, a comment or the end of the input follows. -/
theorem Spells.leads {k : Kind} {l rest : List Char} (h : Spells k l)
    (hrest : ∀ c ∈ rest.head?, Parts c) : Leads k l rest := by
  by_cases hk : ∃ s, k = .text s
  · -- A quoted text ends at its quote, whatever follows.
    obtain ⟨s, rfl⟩ := hk
    cases h with
    | text inside =>
      have hscan := scanOne_text inside rest
      rw [String.ofList_toList] at hscan
      exact (scanOne_eq_ok_iff.1 hscan).2
  refine ⟨h, fun {k' l'} h' hinside => ?_⟩
  have hl := h.not_foreign fun s hs => hk ⟨s, hs⟩
  by_contra hlonger
  obtain ⟨t, rfl⟩ : l <+: l' :=
    List.prefix_of_prefix_length_le (List.prefix_append l rest) hinside (by omega)
  by_cases hk' : ∃ s, k' = .text s
  · obtain ⟨s, rfl⟩ := hk'
    obtain ⟨c, cs, rfl, -⟩ := h.exists_head
    generalize htext : c :: cs ++ t = l' at h'
    cases h'
    obtain rfl : c = '"' := (List.cons.inj htext).1
    exact hl '"' (List.mem_cons_self ..) (.inr rfl)
  · obtain ⟨c, t, rfl⟩ : ∃ c t', t = c :: t' := by
      refine List.exists_cons_of_ne_nil ?_
      rintro rfl
      simp at hlonger
    obtain ⟨u, rfl⟩ := (List.prefix_append_right_inj l).1 hinside
    exact h'.not_foreign (fun s hs => hk' ⟨s, hs⟩) c (by simp) (.inl (hrest c rfl))

end Token
end Sortie
