import Mathlib.Tactic.Common
import Sortie.Text.Blank

/-! The pieces of a text between separators, and its lines. -/
namespace Sortie.Text
variable {sep : Char}

lemma splitAtChars_ne_nil (cs : List Char) : splitAtChars sep cs ≠ [] := by
  cases cs with
  | nil => simp [splitAtChars]
  | cons c cs =>
    rw [splitAtChars]
    split
    · simp
    · split <;> simp

lemma splitAtChars_append_cons (cs ds : List Char) :
    splitAtChars sep (cs ++ sep :: ds) = splitAtChars sep cs ++ splitAtChars sep ds := by
  induction cs with
  | nil => simp [splitAtChars]
  | cons c cs ih =>
    rw [List.cons_append, splitAtChars, splitAtChars, ih]
    by_cases hc : c = sep
    · simp [hc]
    · cases hcs : splitAtChars sep cs with
      | nil => exact absurd hcs (splitAtChars_ne_nil cs)
      | cons w ws => simp [hc]

lemma splitAtChars_of_notMem {cs : List Char} (h : sep ∉ cs) : splitAtChars sep cs = [cs] := by
  induction cs with
  | nil => rfl
  | cons c cs ih =>
    rw [List.mem_cons, not_or] at h
    rw [splitAtChars, if_neg (Ne.symm h.1), ih h.2]

lemma notMem_of_mem_splitAtChars {w cs : List Char} (h : w ∈ splitAtChars sep cs) : sep ∉ w := by
  induction cs generalizing w with
  | nil => simp_all [splitAtChars]
  | cons c cs ih =>
    rw [splitAtChars] at h
    by_cases hc : c = sep
    · rw [if_pos hc, List.mem_cons] at h
      rcases h with rfl | h
      · simp
      · exact ih h
    · rw [if_neg hc] at h
      cases hcs : splitAtChars sep cs with
      | nil => exact absurd hcs (splitAtChars_ne_nil cs)
      | cons v vs =>
        rw [hcs] at h ih
        rcases List.mem_cons.1 h with rfl | h
        · simp [Ne.symm hc, ih List.mem_cons_self]
        · exact ih (List.mem_cons_of_mem _ h)

/-- The first piece of a text, and what is cut after the separator that ends it. -/
lemma splitAtChars_eq_cons {cs w : List Char} {ws : List (List Char)}
    (h : splitAtChars sep cs = w :: ws) :
    ws = [] ∧ cs = w ∨ ∃ rest, cs = w ++ sep :: rest ∧ ws = splitAtChars sep rest := by
  induction cs generalizing w with
  | nil =>
    cases h
    exact .inl ⟨rfl, rfl⟩
  | cons c cs ih =>
    rw [splitAtChars] at h
    by_cases hc : c = sep
    · rw [if_pos hc] at h
      cases h
      exact .inr ⟨cs, by rw [hc]; rfl, rfl⟩
    · rw [if_neg hc] at h
      cases hcs : splitAtChars sep cs with
      | nil => exact absurd hcs (splitAtChars_ne_nil cs)
      | cons v vs =>
        rw [hcs] at h
        cases h
        rcases ih hcs with ⟨rfl, rfl⟩ | ⟨rest, rfl, rfl⟩
        · exact .inl ⟨rfl, rfl⟩
        · exact .inr ⟨rest, rfl, rfl⟩

/-- The lines of a text, without the line feeds between them. -/
def lines (cs : List Char) : List (List Char) := splitAtChars '\n' cs

lemma length_lines (cs : List Char) : (lines cs).length = 1 + cs.count '\n' := by
  unfold lines
  induction cs with
  | nil => rfl
  | cons c cs ih =>
    rw [splitAtChars]
    by_cases hc : c = '\n'
    · simp [hc, ih, Nat.add_comm]
    · rw [if_neg hc, List.count_cons_of_ne hc, ← ih]
      cases hcs : splitAtChars '\n' cs with
      | nil => exact absurd hcs (splitAtChars_ne_nil cs)
      | cons l ls => rfl

/-- The first line of a text begins with what stands before any line feed. -/
lemma exists_lines_append {cs : List Char} (h : '\n' ∉ cs) (ds : List Char) :
    ∃ l ls, lines (cs ++ ds) = (cs ++ l) :: ls := by
  unfold lines
  induction cs with
  | nil => exact ⟨_, _, (List.cons_head_tail (splitAtChars_ne_nil ds)).symm⟩
  | cons c cs ih =>
    rw [List.mem_cons, not_or] at h
    obtain ⟨l, ls, hcs⟩ := ih h.2
    refine ⟨l, ls, ?_⟩
    rw [List.cons_append, splitAtChars, if_neg (Ne.symm h.1), hcs]
    rfl

end Sortie.Text
