import Sortie.Proofs.Decimal.Language
import Sortie.Proofs.Decimal.Rounding
import Sortie.Proofs.Token.Layout

/-! Numerals in a script. Wherever the scanner comes to a numeral it takes the longest one that
stands there and goes on behind it. A numeral without a digit before its exponent is a fault; of the
others the plain ones that fit 64 bits are integers and all else are numbers. -/
namespace Sortie.Token
open Decimal (Numeral Digitless Plain decimalValue)

/-- The places at which the scanner of a text looks for a token: the text before such a place, the
tokens found in it and the text ahead. -/
inductive Reached (source : List Char) : List Char → List Token → List Char → Prop
  | start : Reached source (spanTrivia false source).1 [] (spanTrivia false source).2
  | next {before : List Char} {tokens : List Token} {c : Char} {cs : List Char} {lexeme : Lexeme}
      (reached : Reached source before tokens (c :: cs)) (found : scanOne c cs = .ok lexeme) :
      Reached source (before ++ lexeme.spelling ++ (spanTrivia false lexeme.rest).1)
        (tokens ++ [⟨lexeme.kind, .behind before⟩]) (spanTrivia false lexeme.rest).2

/-- The token that a numeral with a digit before its exponent stands for: an integer where it is
plain and its value fits 64 bits, and else the number that it is read as. -/
structure Denotes (l : List Char) (k : Kind) : Prop where
  integer : ∀ v : UInt64, k = .integer v ↔ Plain l ∧ decimalValue l = v.toNat
  number : ∀ x : Float, k = .number x ↔
    ¬ (Plain l ∧ decimalValue l < UInt64.size) ∧ Decimal.read (String.ofList l) = some x

/-- What scanning makes of the numeral `l` that stands behind `before` and in front of `rest`. -/
structure TakesNumeral (source : String) (before : List Char) (tokens : List Token)
    (l rest : List Char) : Prop where
  cut : source.toList = before ++ (l ++ rest)
  longest : Decimal.LongestNumeral l rest
  /-- No part of an exponent is taken without the rest of it. -/
  ends : ∀ d ∈ l.getLast?, d.isDigit = true ∨ d = '.'
  fault_iff : ∀ fault, scan source = .error ⟨fault, .behind before⟩ ↔
    Digitless l ∧ fault = .badNumeral (String.ofList l)
  token : ¬ Digitless l → ∃ k, Denotes l k ∧
    scan source = (scanFrom (.behind (before ++ l)) rest).map
      fun later => tokens ++ ⟨k, .behind before⟩ :: later

/-! The run of the scanner. -/

lemma spanTrivia_cut (cs : List Char) :
    (spanTrivia false cs).1 ++ (spanTrivia false cs).2 = cs ∧ Clear (spanTrivia false cs).2 := by
  obtain ⟨w, rest, rfl, trivia, hclear⟩ := exists_trivia cs
  rw [spanTrivia_of_trivia trivia hclear]
  exact ⟨rfl, hclear⟩

lemma scanFrom_found (before : List Char) {c : Char} {cs : List Char} {lexeme : Lexeme}
    (h : scanOne c cs = .ok lexeme) :
    scanFrom (.behind before) (c :: cs) =
      (scanFrom (.behind (before ++ lexeme.spelling)) lexeme.rest).map
        (⟨lexeme.kind, .behind before⟩ :: ·) := by
  obtain ⟨hcut, leads⟩ := scanOne_eq_ok_iff.1 h
  have hscan := scanFrom_token before .nil leads
  rw [List.nil_append, List.append_nil] at hscan
  rw [hcut, hscan]

lemma scanFrom_not_found (before : List Char) {c : Char} {cs : List Char} {fault : Fault}
    (hclear : Clear (c :: cs)) (h : scanOne c cs = .error fault) :
    scanFrom (.behind before) (c :: cs) = .error ⟨fault, .behind before⟩ := by
  have hscan := scanFrom_fault before .nil hclear h
  rwa [List.nil_append, List.append_nil] at hscan

/-- Scanning may as well begin behind the blanks and comments. -/
lemma scanFrom_spanTrivia (before cs : List Char) :
    scanFrom (.behind before) cs =
      scanFrom (.behind (before ++ (spanTrivia false cs).1)) (spanTrivia false cs).2 := by
  obtain ⟨w, body, rfl, trivia, hclear⟩ := exists_trivia cs
  rw [spanTrivia_of_trivia trivia hclear]
  cases body with
  | nil => rw [List.append_nil, scanFrom_finish _ trivia, scanFrom_finish _ .nil, List.append_nil]
  | cons c rest =>
    cases hscan : scanOne c rest with
    | ok lexeme =>
      obtain ⟨hcut, leads⟩ := scanOne_eq_ok_iff.1 hscan
      rw [scanFrom_found _ hscan, hcut]
      rw [hcut] at trivia
      exact scanFrom_token before trivia leads
    | error fault => rw [scanFrom_fault before trivia hclear hscan, scanFrom_not_found _ hclear hscan]

namespace Reached
variable {source before ahead : List Char} {tokens : List Token}

lemma cut (h : Reached source before tokens ahead) : before ++ ahead = source := by
  induction h with
  | start => exact (spanTrivia_cut source).1
  | @next before tokens c cs lexeme reached found ih =>
    rw [List.append_assoc, (spanTrivia_cut lexeme.rest).1, List.append_assoc,
      ← (scanOne_eq_ok_iff.1 found).1, ih]

lemma clear (h : Reached source before tokens ahead) : Clear ahead := by
  cases h with
  | start => exact (spanTrivia_cut source).2
  | next reached found => exact (spanTrivia_cut _).2

/-- Scanning goes on from every place that is reached, behind the tokens found so far. -/
theorem scanFrom (h : Reached source before tokens ahead) :
    scanFrom .first source = (scanFrom (.behind before) ahead).map (tokens ++ ·) := by
  induction h with
  | start =>
    change Token.scanFrom (.behind []) source = _
    rw [scanFrom_spanTrivia, List.nil_append]
    cases Token.scanFrom (.behind (spanTrivia false source).1) (spanTrivia false source).2 <;> rfl
  | @next before tokens c cs lexeme reached found ih =>
    rw [ih, scanFrom_found _ found, scanFrom_spanTrivia]
    cases Token.scanFrom _ (spanTrivia false lexeme.rest).2 with
    | error e => rfl
    | ok later => simp [Except.map]

variable {source : String} {c : Char} {cs : List Char}

lemma scan_of_found (h : Reached source.toList before tokens (c :: cs)) {lexeme : Lexeme}
    (found : scanOne c cs = .ok lexeme) :
    scan source = (Token.scanFrom (.behind (before ++ lexeme.spelling)) lexeme.rest).map
      fun later => tokens ++ ⟨lexeme.kind, .behind before⟩ :: later := by
  have hscan : scan source = _ := h.scanFrom
  rw [hscan, scanFrom_found before found]
  cases Token.scanFrom (.behind (before ++ lexeme.spelling)) lexeme.rest <;> rfl

/-- The scan stops at a place that it reaches exactly where no token is found there. -/
lemma scan_eq_error_iff (h : Reached source.toList before tokens (c :: cs)) {fault : Fault} :
    scan source = .error ⟨fault, .behind before⟩ ↔ scanOne c cs = .error fault := by
  have hscan : scan source = _ := h.scanFrom
  cases hone : scanOne c cs with
  | error fault' =>
    rw [hscan, scanFrom_not_found before h.clear hone]
    simp [Except.map]
  | ok lexeme =>
    -- A fault that is found later stands behind the token.
    refine iff_of_false (fun herror => ?_) (by simp)
    rw [h.scan_of_found hone] at herror
    cases hlater : Token.scanFrom (.behind (before ++ lexeme.spelling)) lexeme.rest with
    | ok later =>
      rw [hlater] at herror
      cases herror
    | error e =>
      rw [hlater] at herror
      cases herror
      obtain ⟨pre, post, -, hposition, -⟩ := exists_stuck_of_scanFrom hlater
      have hne : lexeme.spelling ++ pre ≠ [] := by
        simp [(scanOne_eq_ok_iff.1 hone).2.spells.ne_nil]
      rw [List.append_assoc] at hposition
      exact Position.behind_append_ne before hne hposition.symm

end Reached

/-! Where numerals are read. -/

lemma beginsNumeral_of_badNumeral {c : Char} {cs : List Char} {written : String}
    (h : scanOne c cs = .error (.badNumeral written)) : BeginsNumeral c cs := by
  unfold scanOne at h
  extract_lets next at h
  have hnext : ∀ p : Char → Bool, next p = true → ∃ d ∈ cs.head?, p d = true := by
    intro p hp
    cases cs with
    | nil => cases hp
    | cons d rest => exact ⟨d, rfl, hp⟩
  split at h
  · cases h
  · split at h
    · unfold scanText at h
      simp only at h
      split at h <;> cases h
    · split at h
      · rename_i hminus
        split at h
        · cases h
        · split_ifs at h with hbody
          · obtain ⟨d, hd, hp⟩ := hnext _ hbody
            exact .inr (.inl ⟨.inr hminus, d, hd, by simpa using hp⟩)
          · cases h
      · split_ifs at h with hplus hpoint hdigit hstart
        · obtain ⟨d, hd, hp⟩ := hnext _ hplus.2
          exact .inr (.inl ⟨.inl hplus.1, d, hd, by simpa using hp⟩)
        · obtain ⟨d, hd, hp⟩ := hnext _ hpoint.2
          exact .inr (.inr ⟨hpoint.1, d, hd, hp⟩)
        · exact .inl hdigit
        · cases h

/-- A numeral is read at the places where one may begin, and at no other. -/
lemma scanOne_eq_scanNumeral_iff {c : Char} {cs : List Char} :
    scanOne c cs = scanNumeral (c :: cs) ↔ BeginsNumeral c cs := by
  refine ⟨fun h => ?_, scanOne_of_beginsNumeral⟩
  by_cases hdigit : (Numeral.scan (c :: cs)).1.hasDigit = true
  · have hformed := Numeral.wellFormed_iff.2 ⟨Numeral.shaped_scan (c :: cs), hdigit⟩
    exact beginsNumeral_of_text hformed (Numeral.text_scan_append (c :: cs)).symm
  · exact beginsNumeral_of_badNumeral (h.trans (if_neg hdigit))

/-- Behind the sign, if there is one, a digit or a point follows where a numeral begins. -/
lemma exists_body_of_beginsNumeral {c : Char} {cs : List Char} (h : BeginsNumeral c cs) :
    ∃ d rest, (Decimal.takeSign (c :: cs)).2 = d :: rest ∧ (d.isDigit = true ∨ d = '.') := by
  rcases h with hc | ⟨rfl | rfl, d, hhead, hd⟩ | ⟨rfl, -⟩
  · have hsign : Decimal.takeSign (Option.toList none ++ c :: cs) = (none, c :: cs) := by
      refine Decimal.takeSign_append (.inl rfl) ?_
      rintro _ ⟨⟩
      exact Decimal.not_sign_of_isDigit hc
    exact ⟨c, cs, congrArg Prod.snd hsign, .inl hc⟩
  · obtain ⟨rest, rfl⟩ := List.head?_eq_some_iff.1 hhead
    exact ⟨d, rest, rfl, hd⟩
  · obtain ⟨rest, rfl⟩ := List.head?_eq_some_iff.1 hhead
    exact ⟨d, rest, rfl, hd⟩
  · exact ⟨'.', cs, rfl, .inr rfl⟩

/-- Where a numeral begins, more than a sign is taken. -/
lemma scan_ne_sign {c : Char} {cs : List Char} (h : BeginsNumeral c cs) :
    ¬ ((Numeral.scan (c :: cs)).1.whole = [] ∧ (Numeral.scan (c :: cs)).1.fraction = none ∧
      (Numeral.scan (c :: cs)).1.exponent = none) := by
  obtain ⟨d, rest, hbody, hd⟩ := exists_body_of_beginsNumeral h
  rw [Numeral.scan_eq, hbody]
  rintro ⟨hwhole, hfraction, -⟩
  obtain hd | rfl := hd
  · simp [hd] at hwhole
  · simp [Decimal.takeFraction] at hfraction

/-! What numerals stand for. -/

lemma isInteger_iff {n : Numeral} (hn : n.Shaped) :
    IsInteger n ↔ Plain n.text ∧ decimalValue n.text < UInt64.size := by
  constructor
  · rintro ⟨hsign, hfraction, hexponent, hlt⟩
    have hplain := hn.plain_iff.2 ⟨hsign, hfraction, hexponent⟩
    exact ⟨hplain, by rwa [hn.decimalValue_text hplain]⟩
  · rintro ⟨hplain, hlt⟩
    obtain ⟨hsign, hfraction, hexponent⟩ := hn.plain_iff.1 hplain
    rw [hn.decimalValue_text hplain] at hlt
    exact ⟨hsign, hfraction, hexponent, hlt⟩

lemma numeralKind_eq_integer_iff {n : Numeral} {v : UInt64} :
    numeralKind n = .integer v ↔ IsInteger n ∧ Decimal.digitsValue n.whole = v.toNat := by
  constructor
  · intro hkind
    by_cases hint : IsInteger n
    · have hvalue : (UInt64.ofNat (Decimal.digitsValue n.whole)).toNat =
          Decimal.digitsValue n.whole := UInt64.toNat_ofNat_of_lt hint.2.2.2
      rw [numeralKind_of_isInteger hint hvalue] at hkind
      cases hkind
      exact ⟨hint, hvalue.symm⟩
    · rw [numeralKind_of_not_isInteger hint] at hkind
      cases hkind
  · rintro ⟨hint, hvalue⟩
    exact numeralKind_of_isInteger hint hvalue.symm

lemma numeralKind_eq_number_iff {n : Numeral} {x : Float} :
    numeralKind n = .number x ↔ ¬ IsInteger n ∧ n.toFloat = x := by
  constructor
  · intro hkind
    have hother : ¬ IsInteger n := by
      intro hint
      rw [numeralKind_of_isInteger hint (UInt64.toNat_ofNat_of_lt hint.2.2.2)] at hkind
      cases hkind
    rw [numeralKind_of_not_isInteger hother] at hkind
    exact ⟨hother, Kind.number.inj hkind⟩
  · rintro ⟨hother, rfl⟩
    exact numeralKind_of_not_isInteger hother

lemma denotes_numeralKind {n : Numeral} (hn : n.WellFormed) : Denotes n.text (numeralKind n) := by
  constructor
  · intro v
    rw [numeralKind_eq_integer_iff, isInteger_iff hn.shaped]
    constructor
    · rintro ⟨⟨hplain, -⟩, hvalue⟩
      exact ⟨hplain, by rw [hn.shaped.decimalValue_text hplain, hvalue]⟩
    · rintro ⟨hplain, hvalue⟩
      exact ⟨⟨hplain, hvalue ▸ v.toNat_lt⟩, by rw [← hvalue, hn.shaped.decimalValue_text hplain]⟩
  · intro x
    rw [numeralKind_eq_number_iff, isInteger_iff hn.shaped, hn.shaped.read_text,
      if_pos hn.hasDigit, Option.some.injEq]

/-- A number token holds the float that is nearest to the value of its numeral. -/
theorem Denotes.rounds {n : Numeral} (hn : n.WellFormed) {x : Float}
    (h : Denotes n.text (.number x)) :
    Decimal.Binary.Rounds (n.sign = some '-') n.value (Decimal.Binary.ofFloat x) := by
  have hread := ((h.number x).1 rfl).2
  rw [hn.shaped.read_text, if_pos hn.hasDigit] at hread
  cases hread
  exact n.rounds_toFloat

/-- Whatever spells a number token is a numeral, and the token holds the float that is nearest to its
value. -/
theorem rounds_of_spells {x : Float} {l : List Char} (h : Spells (.number x) l) :
    ∃ n : Numeral, n.WellFormed ∧ n.text = l ∧
      Decimal.Binary.Rounds (n.sign = some '-') n.value (Decimal.Binary.ofFloat x) := by
  cases h with
  | @number n formed other => exact ⟨n, formed, rfl, n.rounds_toFloat⟩

/-- Wherever the scanner comes to a numeral, it takes the longest one and does with it what its
characters say. -/
theorem takesNumeral_of_reached {source : String} {before : List Char} {tokens : List Token}
    {c : Char} {cs : List Char} (hreached : Reached source.toList before tokens (c :: cs))
    (hbegins : BeginsNumeral c cs) : ∃ l rest, TakesNumeral source before tokens l rest := by
  have hcall := scanOne_eq_scanNumeral_iff.2 hbegins
  have hcut := Numeral.text_scan_append (c :: cs)
  have hshaped := Numeral.shaped_scan (c :: cs)
  refine ⟨(Numeral.scan (c :: cs)).1.text, (Numeral.scan (c :: cs)).2, ?_,
    Decimal.longestNumeral_scan (c :: cs),
    hshaped.getLast_text (scan_ne_sign hbegins), ?_, ?_⟩
  · rw [hcut, hreached.cut]
  · intro fault
    rw [hreached.scan_eq_error_iff, hcall, hshaped.digitless_iff]
    unfold scanNumeral
    cases hdigit : (Numeral.scan (c :: cs)).1.hasDigit with
    | true => simp [hdigit]
    | false => simp [hdigit, eq_comm]
  · intro hdigit
    rw [hshaped.digitless_iff, Bool.not_eq_false] at hdigit
    have hformed := Numeral.wellFormed_iff.2 ⟨hshaped, hdigit⟩
    exact ⟨_, denotes_numeralKind hformed,
      hreached.scan_of_found (hcall.trans (scanNumeral_eq_ok_iff.2 ⟨hformed, rfl⟩))⟩

theorem takesNumeral_behind_name :
    ∃ l rest, TakesNumeral "T1 +.5e-3e+x" "T1 ".toList [⟨.name "T1", ⟨1, 1⟩⟩] l rest := by
  have hstart : Reached "T1 +.5e-3e+x".toList [] [] ('T' :: "1 +.5e-3e+x".toList) := .start
  have hfound := scanOne_word (c := 'T') rfl "1 +.5e-3e+x".toList
  have hnext : Reached "T1 +.5e-3e+x".toList "T1 ".toList [⟨.name "T1", ⟨1, 1⟩⟩]
      ('+' :: ".5e-3e+x".toList) := .next hstart hfound
  exact takesNumeral_of_reached hnext (.inr (.inl ⟨.inl rfl, '.', rfl, .inr rfl⟩))

end Sortie.Token
