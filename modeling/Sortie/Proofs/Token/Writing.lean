import Sortie.Proofs.Decimal.ReadBack
import Sortie.Proofs.Token.Layout

/-! Writing tokens down. Tokens that are written with a gap between neighbours are scanned again as
they were, whatever blanks and comments make up the gaps. -/
namespace Sortie

open Decimal (Binary Layout)

namespace Kind

/-- How a token is written. A number has the fewest digits that read back. -/
def spelling : Kind → List Char
  | keyword k => k.word.toList
  | name s => s.toList
  | text s => '"' :: s.toList ++ ['"']
  | number v => (Layout.literal.write v).toList
  | integer n => (toString n.toNat).toList
  | mark m => m.spelling.toList
  | finish => []

/-- The kinds that can be written. -/
def IsWritable : Kind → Prop
  | name s => Token.IsName s ∧ ∀ k : Keyword, k.word ≠ s
  | text s => ∀ c ∈ s.toList, c ≠ '"' ∧ c ≠ '\n'
  | number v => ∃ negative mantissa exponent, Binary.ofFloat v = .finite negative mantissa exponent
  | finish => False
  | _ => True

end Kind

namespace Token

/-- Blanks and whole comments, each with the newline that ends it. -/
inductive Gap : List Char → Prop
  | nil : Gap []
  | blank {c : Char} {w : List Char} (is : Text.isBlank c = true) (tail : Gap w) : Gap (c :: w)
  | comment {body w : List Char} (line : '\n' ∉ body) (tail : Gap w) :
      Gap ('/' :: '/' :: (body ++ '\n' :: w))

/-- A text that begins with a gap and has each token written with the gap behind it. -/
def layOut (lead : List Char) (pieces : List (Kind × List Char)) : List Char :=
  lead ++ pieces.flatMap fun p => p.1.spelling ++ p.2

/-! Spellings. -/

lemma spells_number {v : Float} {negative : Bool} {mantissa : ℕ} {exponent : ℤ}
    (hv : Binary.ofFloat v = .finite negative mantissa exponent) :
    Spells (.number v) (Kind.number v).spelling := by
  have hother : ¬ IsInteger (Layout.literalNumeral negative mantissa exponent) := by
    rintro ⟨-, hfraction, hexponent, -⟩
    rcases Layout.literalNumeral_not_integer negative mantissa exponent with h | h
    · exact h hfraction
    · exact h hexponent
  have hspells := Spells.number (Layout.wellFormed_literalNumeral negative mantissa exponent) hother
  rw [Layout.toFloat_literalNumeral hv, Layout.text_literalNumeral] at hspells
  have htext : (Kind.number v).spelling = Layout.literal.finiteText negative mantissa exponent := by
    change (Layout.literal.write v).toList = _
    unfold Layout.write
    rw [hv, String.toList_ofList]
  rw [htext]
  exact hspells

lemma spells_integer (n : UInt64) : Spells (.integer n) (Kind.integer n).spelling := by
  have hvalue : Decimal.digitsValue (Nat.toDigits 10 n.toNat) = n.toNat := by
    rw [Decimal.digitsValue_eq, Nat.ofDigitChars_ten_toDigits]
  have hformed : (⟨none, Nat.toDigits 10 n.toNat, none, none⟩ : Decimal.Numeral).WellFormed := by
    refine ⟨.inl rfl, ?_, by simp, by simp, ?_⟩
    · exact fun c hc => Nat.isDigit_of_mem_toDigits (by norm_num) (by norm_num) hc
    · have := Nat.toDigits_ne_nil (n := n.toNat) (b := 10)
      simp [Decimal.Numeral.hasDigit, this]
  have hspells := Spells.integer hformed ⟨by simp, rfl, rfl, by simpa [hvalue] using n.toNat_lt⟩
    hvalue.symm
  rw [Decimal.Numeral.text_eq] at hspells
  simpa [Kind.spelling, Decimal.fractionChars, Decimal.exponentChars] using hspells

lemma spells_spelling {k : Kind} (h : k.IsWritable) : Spells k k.spelling := by
  cases k with
  | keyword k => exact .keyword k
  | name s => exact .name h.1 h.2
  | text s => exact .text h
  | number v =>
    obtain ⟨negative, mantissa, exponent, hv⟩ := h
    exact spells_number hv
  | integer n => exact spells_integer n
  | mark m => exact .mark m
  | finish => cases h

/-! Gaps. -/

lemma Gap.trivia {w : List Char} (h : Gap w) (rest : List Char) : Trivia rest w := by
  induction h with
  | nil => exact .nil
  | blank is tail ih => exact .blank is ih
  | comment line tail ih =>
    refine .comment line ?_ (.blank rfl ih)
    intro c hc
    exact (Option.some.inj hc).symm

lemma Gap.parts_head {w : List Char} (h : Gap w) (hw : w ≠ []) (rest : List Char) :
    ∀ c ∈ (w ++ rest).head?, Parts c := by
  intro c hc
  cases h with
  | nil => exact absurd rfl hw
  | blank is tail =>
    cases hc
    exact .inl is
  | comment line tail =>
    cases hc
    exact .inr rfl

/-- Tokens that are written with gaps between them lie in the text as they were. -/
lemma exists_laidOut_layOut (before lead : List Char) (pieces : List (Kind × List Char))
    (hlead : Gap lead) (hpieces : ∀ p ∈ pieces, p.1.IsWritable ∧ Gap p.2)
    (hbetween : ∀ p ∈ pieces.dropLast, p.2 ≠ []) :
    ∃ tokens, LaidOut before (layOut lead pieces) tokens ∧
      tokens.map Token.kind = pieces.map Prod.fst ++ [.finish] := by
  induction pieces generalizing before lead with
  | nil =>
    have htext : layOut lead [] = lead := List.append_nil lead
    rw [htext]
    exact ⟨_, .finish (hlead.trivia []), rfl⟩
  | cons p pieces ih =>
    obtain ⟨k, w⟩ := p
    obtain ⟨⟨hk, hw⟩, hpieces⟩ := List.forall_mem_cons.1 hpieces
    have hbetween' : ∀ p ∈ pieces.dropLast, p.2 ≠ [] :=
      fun p hp => hbetween p (by cases pieces <;> simp_all)
    obtain ⟨tokens, htokens, hkinds⟩ := ih (before ++ lead ++ k.spelling) w hw hpieces hbetween'
    -- Either a gap follows or the input ends here.
    have hend : ∀ c ∈ (layOut w pieces).head?, Parts c := by
      cases pieces with
      | nil =>
        by_cases hempty : w = []
        · simp [hempty, layOut]
        · exact hw.parts_head hempty _
      | cons q pieces => exact hw.parts_head (hbetween (k, w) (by simp)) _
    have htext : layOut lead ((k, w) :: pieces) = lead ++ (k.spelling ++ layOut w pieces) := by
      simp [layOut]
    rw [htext]
    refine ⟨_, .token (hlead.trivia _) ((spells_spelling hk).leads hend) htokens, ?_⟩
    simp [hkinds]

/-- Scanning gives back what was written. -/
theorem scan_layOut (lead : List Char) (pieces : List (Kind × List Char)) (hlead : Gap lead)
    (hpieces : ∀ p ∈ pieces, p.1.IsWritable ∧ Gap p.2)
    (hbetween : ∀ p ∈ pieces.dropLast, p.2 ≠ []) :
    ∃ tokens, scan (String.ofList (layOut lead pieces)) = .ok tokens ∧
      tokens.map Token.kind = pieces.map Prod.fst ++ [.finish] := by
  obtain ⟨tokens, htokens, hkinds⟩ := exists_laidOut_layOut [] lead pieces hlead hpieces hbetween
  refine ⟨tokens, ?_, hkinds⟩
  rw [scan_eq_ok_iff, String.toList_ofList]
  exact htokens

theorem scan_layOut_mixed :
    ∃ tokens, scan (String.ofList (layOut "// \"-> 7\n".toList
        [(.keyword .task, " ".toList), (.name "tasks", "//1.5\n".toList),
          (.mark .arrow, "\t\n".toList), (.number (-2.5), "\u3000".toList),
          (.integer 18446744073709551615, "\n//\n".toList), (.text "// -> ", [])])) =
        .ok tokens ∧
      tokens.map Token.kind =
        [.keyword .task, .name "tasks", .mark .arrow, .number (-2.5),
          .integer 18446744073709551615, .text "// -> ", .finish] := by
  refine scan_layOut _ _ ?_ ?_ ?_
  · exact @Gap.comment " \"-> 7".toList [] (by decide) .nil
  · have hnumber : Binary.ofFloat (-2.5) = .finite true 5629499534213120 (-51) := by decide +kernel
    have hname : IsName "tasks" := ⟨_, _, rfl, rfl, List.all_eq_true.1 rfl⟩
    have htext : ∀ c ∈ "// -> ".toList, c ≠ '"' ∧ c ≠ '\n' := by simp
    have hspace : Gap "\u3000".toList := .blank (by decide) .nil
    simp only [List.forall_mem_cons, Kind.IsWritable]
    refine ⟨⟨trivial, .blank rfl .nil⟩, ⟨⟨hname, ?_⟩, ?_⟩,
      ⟨trivial, .blank rfl (.blank rfl .nil)⟩, ⟨⟨_, _, _, hnumber⟩, hspace⟩,
      ⟨trivial, .blank rfl ?_⟩, ⟨htext, .nil⟩, by simp⟩
    · intro k
      cases k <;> decide
    · exact @Gap.comment "1.5".toList [] (by decide) .nil
    · exact @Gap.comment [] [] (by decide) .nil
  · decide

end Token
end Sortie
