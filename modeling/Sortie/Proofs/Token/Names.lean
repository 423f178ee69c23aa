import Mathlib.Data.List.TakeWhile
import Mathlib.Tactic.Common
import Sortie.Token.Scan

/-! The names of a script are words: a letter or an underscore, then letters, digits and
underscores. -/
namespace Sortie.Token

/-- The texts that may stand as names. -/
def IsName (s : String) : Prop :=
  ∃ c cs, s.toList = c :: cs ∧ isWordStart c = true ∧ ∀ d ∈ c :: cs, isWordPart d = true

lemma isWordPart_of_isWordStart {c : Char} (h : isWordStart c = true) : isWordPart c = true := by
  unfold isWordStart at h
  unfold isWordPart Char.isAlphanum
  rcases Bool.or_eq_true_iff.1 h with h | h
  · simp [h]
  · simp [h]

lemma isAlpha_iff {c : Char} :
    c.isAlpha = true ↔
      (0x41 ≤ c.toNat ∧ c.toNat ≤ 0x5A) ∨ (0x61 ≤ c.toNat ∧ c.toNat ≤ 0x7A) := by
  change (decide (c.val ≥ 0x41 ∧ c.val ≤ 0x5A) ||
    (decide (c.val ≥ 0x61) && decide (c.val ≤ 0x7A))) = true ↔ _
  simp only [Bool.or_eq_true, Bool.and_eq_true, decide_eq_true_eq, ge_iff_le,
    UInt32.le_iff_toNat_le]
  rfl

lemma bounds_of_isWordPart {c : Char} (h : isWordPart c = true) :
    0x30 ≤ c.toNat ∧ c.toNat ≤ 0x7A := by
  have hc : (c.isAlpha = true ∨ c.isDigit = true) ∨ c = '_' := by
    simpa [isWordPart, Char.isAlphanum] using h
  simp only [isAlpha_iff, Char.isDigit_iff_toNat, Char.reduceToNat] at hc
  rcases hc with h | rfl
  · omega
  · decide

lemma IsName.isWordPart {s : String} (h : IsName s) :
    ∀ c ∈ s.toList, Token.isWordPart c = true := by
  obtain ⟨c, cs, hs, -, hparts⟩ := h
  rw [hs]
  exact hparts

lemma isName_takeWhile {c : Char} (hc : isWordStart c = true) (cs : List Char) :
    IsName (String.ofList ((c :: cs).takeWhile isWordPart)) := by
  have hword : (c :: cs).takeWhile isWordPart = c :: cs.takeWhile isWordPart :=
    List.takeWhile_cons_of_pos (isWordPart_of_isWordStart hc)
  refine ⟨c, cs.takeWhile isWordPart, ?_, hc, ?_⟩
  · rw [hword, String.toList_ofList]
  · rw [← hword]
    exact fun d hd => List.mem_takeWhile_imp hd

end Sortie.Token
