import Mathlib.Data.List.Induction
import Sortie.Proofs.Text.Split
import Sortie.Source.Position

/-! Places found by counting. Walking through a text character by character ends where the line
feeds of the text and the characters since the last of them say, and such a place is on a line of
every text that goes on from there. -/
namespace Sortie

namespace Position

/-- The place behind a piece of text: one line more than it has line feeds, one column more than it
has characters since the last of them. -/
def behind (before : List Char) : Position :=
  ⟨1 + before.count '\n', 1 + (before.reverse.takeWhile (· != '\n')).length⟩

lemma behind_concat (before : List Char) (c : Char) :
    behind (before ++ [c]) = (behind before).step c := by
  by_cases hc : c = '\n'
  · simp [behind, step, hc, Nat.add_assoc]
  · simp [behind, step, hc, Nat.add_comm]

lemma first_after (before : List Char) : first.after before = behind before := by
  induction before using List.reverseRecOn with
  | nil => rfl
  | append_singleton before c ih =>
    rw [after_append, ih, behind_concat]
    rfl

lemma behind_after (before cs : List Char) : (behind before).after cs = behind (before ++ cs) := by
  rw [← first_after, ← after_append, first_after]

lemma after_of_notMem (p : Position) {cs : List Char} (h : '\n' ∉ cs) :
    p.after cs = ⟨p.line, p.column + cs.length⟩ := by
  induction cs generalizing p with
  | nil => rfl
  | cons c cs ih =>
    rw [List.mem_cons, not_or] at h
    change (p.step c).after cs = _
    rw [ih _ h.2, step, if_neg (Ne.symm h.1), List.length_cons]
    simp only [mk.injEq, true_and]
    omega

/-- Behind more text is a later place. -/
lemma behind_append_ne (before : List Char) {cs : List Char} (h : cs ≠ []) :
    behind (before ++ cs) ≠ behind before := by
  intro heq
  by_cases hline : '\n' ∈ cs
  · have hcount := congrArg line heq
    have hpos := List.count_pos_iff.2 hline
    simp only [behind, List.count_append] at hcount
    omega
  · have hcolumn := congrArg column heq
    have hpos := List.length_pos_iff.2 h
    rw [← behind_after, after_of_notMem _ hline] at hcolumn
    simp only at hcolumn
    omega

/-- The line on which a part of a text ends, among the lines of the text. -/
lemma exists_lines_behind (before after : List Char) :
    ∃ earlier l later, Text.lines (before ++ after) = earlier ++ l :: later ∧
      (behind before).line = earlier.length + 1 ∧ (behind before).column ≤ l.length + 1 := by
  by_cases hmem : '\n' ∈ before
  · -- The last line feed parts this line from the earlier ones.
    obtain ⟨current, earlier, hsplit, hcurrent⟩ :=
      List.eq_append_cons_of_mem (List.mem_reverse.2 hmem)
    have hbefore : before = earlier.reverse ++ '\n' :: current.reverse := by
      rw [← List.reverse_inj, hsplit]
      simp
    have hline : '\n' ∉ current.reverse := by simpa using hcurrent
    have hplace : behind before =
        ⟨(Text.lines earlier.reverse).length + 1, 1 + current.reverse.length⟩ := by
      rw [hbefore, ← behind_after, Text.length_lines]
      exact after_of_notMem _ hline
    obtain ⟨l, later, hlines⟩ := Text.exists_lines_append hline after
    refine ⟨Text.lines earlier.reverse, current.reverse ++ l, later, ?_, ?_, ?_⟩
    · rw [hbefore, List.append_assoc, List.cons_append, ← hlines]
      exact Text.splitAtChars_append_cons _ _
    · rw [hplace]
    · rw [hplace, List.length_append]
      change 1 + _ ≤ _
      omega
  · have hplace : behind before = ⟨1, 1 + before.length⟩ := by
      rw [← first_after]
      exact after_of_notMem _ hmem
    obtain ⟨l, later, hlines⟩ := Text.exists_lines_append hmem after
    refine ⟨[], before ++ l, later, hlines, ?_, ?_⟩
    · rw [hplace]
      rfl
    · rw [hplace, List.length_append]
      change 1 + _ ≤ _
      omega

/-- A place behind a part of a text lies on a line of the text, at most one column behind it. -/
theorem exists_line_of_behind (before after : List Char) :
    (behind before).line ≤ (Text.lines (before ++ after)).length ∧
      ∃ l, (Text.lines (before ++ after))[(behind before).line - 1]? = some l ∧
        (behind before).column ≤ l.length + 1 := by
  obtain ⟨earlier, l, later, hlines, hline, hcolumn⟩ := exists_lines_behind before after
  rw [hlines, hline]
  refine ⟨?_, l, ?_, hcolumn⟩
  · rw [List.length_append, List.length_cons]
    omega
  · rw [Nat.add_sub_cancel, List.getElem?_append_right (Nat.le_refl _), Nat.sub_self]
    rfl

end Position
end Sortie
