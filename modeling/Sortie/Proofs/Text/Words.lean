import Mathlib.Tactic.Common
import Sortie.Text.Blank

/-! The words of a text, said without the function that cuts them. -/
namespace Sortie.Text
variable {isGap : Char → Bool} {c : Char} {cs : List Char} {ws : List (List Char)}

/-- A text and its maximal runs without gaps, in order. -/
inductive Fields (isGap : Char → Bool) : List Char → List (List Char) → Prop
  | done {gap} (blank : ∀ c ∈ gap, isGap c = true) : Fields isGap gap []
  | word {gap w rest ws} (blank : ∀ c ∈ gap, isGap c = true) (nonempty : w ≠ [])
      (solid : ∀ c ∈ w, isGap c = false) (apart : ∀ c ∈ rest.head?, isGap c = true)
      (more : Fields isGap rest ws) : Fields isGap (gap ++ (w ++ rest)) (w :: ws)

lemma fieldsChars_gap {gap : List Char} (h : ∀ c ∈ gap, isGap c = true) (cs : List Char) :
    fieldsChars isGap (gap ++ cs) = fieldsChars isGap cs := by
  induction gap with
  | nil => rfl
  | cons c gap ih =>
    rw [List.forall_mem_cons] at h
    rw [List.cons_append, fieldsChars.eq_def]
    simp only [h.1, if_true]
    exact ih h.2

lemma fieldsChars_word {w rest : List Char} (hne : w ≠ []) (hw : ∀ c ∈ w, isGap c = false)
    (hrest : ∀ c ∈ rest.head?, isGap c = true) :
    fieldsChars isGap (w ++ rest) = w :: fieldsChars isGap rest := by
  induction w with
  | nil => exact absurd rfl hne
  | cons c w ih =>
    rw [List.forall_mem_cons] at hw
    rw [List.cons_append, fieldsChars.eq_def]
    cases w with
    | nil =>
      cases rest with
      | nil => simp [hw.1, fieldsChars]
      | cons d rest => simp [hw.1, hrest d (by simp)]
    | cons d w =>
      simp only [List.cons_append, hw.1, hw.2 d (by simp)]
      rw [← List.cons_append, ih (by simp) hw.2]
      rfl

lemma Fields.eq_fieldsChars (h : Fields isGap cs ws) : ws = fieldsChars isGap cs := by
  induction h with
  | done blank =>
    have hgap := fieldsChars_gap blank []
    rw [List.append_nil] at hgap
    rw [hgap]
    rfl
  | word blank nonempty solid apart more ih =>
    rw [fieldsChars_gap blank, fieldsChars_word nonempty solid apart, ← ih]

lemma Fields.cons_gap (hc : isGap c = true) (h : Fields isGap cs ws) : Fields isGap (c :: cs) ws := by
  cases h with
  | done blank => exact .done (List.forall_mem_cons.2 ⟨hc, blank⟩)
  | word blank nonempty solid apart more =>
    exact .word (List.forall_mem_cons.2 ⟨hc, blank⟩) nonempty solid apart more

/-- A character that is no gap begins a word, or is put in front of the word that begins here. -/
lemma Fields.exists_cons (hc : isGap c = false) (h : Fields isGap cs ws) :
    ∃ vs, Fields isGap (c :: cs) vs := by
  have hone : ∀ d ∈ [c], isGap d = false := by simpa using hc
  have hnone : ∀ d ∈ ([] : List Char), isGap d = true := by simp
  by_cases hhead : ∀ d ∈ cs.head?, isGap d = true
  · exact ⟨[c] :: ws, .word hnone (by simp) hone hhead h⟩
  · cases h with
    | done blank =>
      refine absurd (fun d hd => blank d ?_) hhead
      exact List.mem_of_mem_head? hd
    | @word gap w rest ws blank nonempty solid apart more =>
      cases gap with
      | nil =>
        have hsolid : ∀ b ∈ c :: w, isGap b = false := List.forall_mem_cons.2 ⟨hc, solid⟩
        exact ⟨(c :: w) :: ws, .word hnone (by simp) hsolid apart more⟩
      | cons d gap => exact absurd (by simpa using blank d (by simp)) hhead

lemma fields_fieldsChars (isGap : Char → Bool) (cs : List Char) :
    Fields isGap cs (fieldsChars isGap cs) := by
  have hexists : ∃ ws, Fields isGap cs ws := by
    induction cs with
    | nil => exact ⟨[], .done (by simp)⟩
    | cons c cs ih =>
      obtain ⟨ws, hws⟩ := ih
      cases hc : isGap c with
      | true => exact ⟨ws, hws.cons_gap hc⟩
      | false => exact hws.exists_cons hc
  obtain ⟨ws, hws⟩ := hexists
  rw [← hws.eq_fieldsChars]
  exact hws

lemma Fields.solid_of_mem {w : List Char} (h : Fields isGap cs ws) (hw : w ∈ ws) :
    ∀ c ∈ w, isGap c = false := by
  induction h with
  | done => cases hw
  | word _ _ solid _ _ ih =>
    rcases List.mem_cons.1 hw with rfl | hw
    · exact solid
    · exact ih hw

/-- The words of a text: its maximal runs without blanks, in order. -/
def Worded (s : String) (ws : List String) : Prop := Fields isBlank s.toList (ws.map String.toList)

lemma worded_iff {s : String} {ws : List String} : Worded s ws ↔ ws = words s := by
  have hround : (words s).map String.toList = fieldsChars isBlank s.toList := by
    unfold words
    rw [List.map_map]
    exact List.map_id'' (fun cs => String.toList_ofList) _
  constructor
  · intro h
    have heq := h.eq_fieldsChars
    rw [← hround] at heq
    exact (List.map_inj_right fun _ _ => String.toList_inj.1).1 heq
  · rintro rfl
    unfold Worded
    rw [hround]
    exact fields_fieldsChars isBlank s.toList

end Sortie.Text
