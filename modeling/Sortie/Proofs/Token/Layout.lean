import Sortie.Proofs.Source.Position
import Sortie.Proofs.Token.Spelling

/-! The layout of a script. Its text is the spellings of its tokens with blanks and comments between
them, each token is placed where its spelling begins, and scanning stops only in front of a text
that begins no token. -/
namespace Sortie.Token

/-- Blanks and comments in front of `rest`. A comment ends before a newline or with the input. -/
inductive Trivia (rest : List Char) : List Char → Prop
  | nil : Trivia rest []
  | blank {c : Char} {w : List Char} (is : Text.isBlank c = true) (tail : Trivia rest w) :
      Trivia rest (c :: w)
  | comment {body w : List Char} (line : '\n' ∉ body)
      (ends : ∀ c ∈ (w ++ rest).head?, c = '\n') (tail : Trivia rest w) :
      Trivia rest ('/' :: '/' :: (body ++ w))

/-- Texts that begin with neither blank nor comment. -/
def Clear (cs : List Char) : Prop :=
  (∀ c ∈ cs.head?, Text.isBlank c = false) ∧ ¬ ['/', '/'] <+: cs

/-- Texts at whose head the scanner can go no further. -/
structure Stuck (cs : List Char) : Prop where
  clear : Clear cs
  unspelled : ∀ k l, Spells k l → ¬ l <+: cs

/-- How tokens lie in a text that follows the text `before`. -/
inductive LaidOut : List Char → List Char → List Token → Prop
  | finish {before w : List Char} (trivia : Trivia [] w) :
      LaidOut before w [⟨.finish, .behind (before ++ w)⟩]
  | token {before w l rest : List Char} {k : Kind} {tokens : List Token}
      (trivia : Trivia (l ++ rest) w) (leads : Leads k l rest)
      (tail : LaidOut (before ++ w ++ l) rest tokens) :
      LaidOut before (w ++ (l ++ rest)) (⟨k, .behind (before ++ w)⟩ :: tokens)

/-! Blanks and comments. -/

/-- Of what follows, only the first character bears on a comment. -/
lemma Trivia.mono {r r' w : List Char} (h : Trivia r w) (hr : ∀ c ∈ r'.head?, c ∈ r.head?) :
    Trivia r' w := by
  induction h with
  | nil => exact .nil
  | blank is tail ih => exact .blank is ih
  | @comment body w line ends tail ih =>
    refine .comment line ?_ ih
    cases w with
    | nil => exact fun c hc => ends c (hr c hc)
    | cons d w => exact ends

lemma Spells.clear {k : Kind} {l : List Char} (h : Spells k l) (rest : List Char) :
    Clear (l ++ rest) := by
  obtain ⟨c, cs, rfl, hc⟩ := h.exists_head
  constructor
  · intro d hd
    cases hd
    exact Bool.eq_false_iff.2 fun hblank => hc (.inl hblank)
  · rintro ⟨t, ht⟩
    exact hc (.inr (List.cons.inj ht).1.symm)

lemma clear_nil : Clear [] := by
  constructor
  · intro c hc
    cases hc
  · simp

lemma spanTrivia_line {body t : List Char} (line : '\n' ∉ body)
    (ends : ∀ c ∈ t.head?, c = '\n') :
    spanTrivia true (body ++ t) = (body ++ (spanTrivia false t).1, (spanTrivia false t).2) := by
  induction body with
  | nil =>
    cases t with
    | nil => rfl
    | cons c t =>
      obtain rfl : c = '\n' := ends c rfl
      rfl
  | cons c body ih =>
    have hc : (c != '\n') = true := by simpa using fun h : c = '\n' => line (by simp [h])
    rw [List.cons_append, spanTrivia, hc, ih fun h => line (List.mem_cons_of_mem c h)]
    rfl

lemma spanTrivia_clear {cs : List Char} (h : Clear cs) : spanTrivia false cs = ([], cs) := by
  cases cs with
  | nil => rfl
  | cons c cs =>
    have hblank : Text.isBlank c = false := h.1 c rfl
    have hcomment : ¬ (c = '/' ∧ cs.head? = some '/') := by
      rintro ⟨rfl, hhead⟩
      obtain ⟨ds, rfl⟩ := List.head?_eq_some_iff.1 hhead
      exact h.2 ⟨ds, rfl⟩
    unfold spanTrivia
    rw [hblank, if_neg hcomment]
    rfl

/-- All blanks and comments in front of a clear text are split off. -/
lemma spanTrivia_of_trivia {rest w : List Char} (h : Trivia rest w) (hrest : Clear rest) :
    spanTrivia false (w ++ rest) = (w, rest) := by
  induction h with
  | nil => exact spanTrivia_clear hrest
  | blank is tail ih => rw [List.cons_append, spanTrivia, if_pos is, ih]
  | @comment body w line ends tail ih =>
    -- Within a comment the second slash is a character like any other.
    have hslash : '\n' ∉ '/' :: body := by simpa using line
    have hspan := spanTrivia_line hslash ends
    rw [ih] at hspan
    rw [List.cons_append, List.cons_append, List.append_assoc, spanTrivia,
      if_neg (by decide), if_pos ⟨rfl, rfl⟩]
    rw [← List.cons_append, hspan]
    rfl

/-- Every text begins with blanks and comments, up to a clear rest. -/
lemma exists_trivia (cs : List Char) : ∃ w rest, cs = w ++ rest ∧ Trivia rest w ∧ Clear rest := by
  induction cs using (measure List.length).wf.induction with
  | h cs ih =>
    by_cases hclear : Clear cs
    · exact ⟨[], cs, rfl, .nil, hclear⟩
    by_cases hcomment : ['/', '/'] <+: cs
    · obtain ⟨ds, rfl⟩ := hcomment
      have hlength := List.length_dropWhile_le (· != '\n') ds
      obtain ⟨w, rest, hcut, htrivia, hrest⟩ := ih (ds.dropWhile (· != '\n'))
        (by change (ds.dropWhile (· != '\n')).length < ds.length + 2; omega)
      refine ⟨'/' :: '/' :: (ds.takeWhile (· != '\n') ++ w), rest, ?_, .comment ?_ ?_ htrivia, hrest⟩
      · simp [List.append_assoc, ← hcut]
      · intro hmem
        simpa using List.mem_takeWhile_imp hmem
      · intro c hc
        rw [← hcut] at hc
        have := List.head?_dropWhile_not (· != '\n') ds
        rw [hc] at this
        simpa using this
    · obtain ⟨c, hc, hblank⟩ : ∃ c ∈ cs.head?, Text.isBlank c = true := by
        by_contra hnone
        refine hclear ⟨fun c hc => ?_, hcomment⟩
        exact Bool.eq_false_iff.2 fun hblank => hnone ⟨c, hc, hblank⟩
      obtain ⟨ds, rfl⟩ := List.head?_eq_some_iff.1 hc
      obtain ⟨w, rest, rfl, htrivia, hrest⟩ := ih ds (Nat.lt_succ_self ds.length)
      exact ⟨c :: w, rest, rfl, .blank hblank htrivia, hrest⟩

/-! The scanner, one token at a time. -/

lemma scanFrom_finish (before : List Char) {w : List Char} (h : Trivia [] w) :
    scanFrom (.behind before) w = .ok [⟨.finish, .behind (before ++ w)⟩] := by
  have hspan := spanTrivia_of_trivia h clear_nil
  rw [List.append_nil] at hspan
  unfold scanFrom
  rw [hspan, Position.behind_after]

lemma scanFrom_token (before : List Char) {w l rest : List Char} {k : Kind}
    (trivia : Trivia (l ++ rest) w) (leads : Leads k l rest) :
    scanFrom (.behind before) (w ++ (l ++ rest)) =
      (scanFrom (.behind (before ++ w ++ l)) rest).map
        (⟨k, .behind (before ++ w)⟩ :: ·) := by
  have hspan := spanTrivia_of_trivia trivia (leads.spells.clear rest)
  obtain ⟨c, cs, hl, -⟩ := leads.spells.exists_head
  have hcut : c :: (cs ++ rest) = l ++ rest := by rw [hl, List.cons_append]
  have hscan := scanOne_eq_ok_iff.2 ⟨hcut, leads⟩
  have hlength : rest.length < (w ++ (l ++ rest)).length := by
    simp [hl]
    omega
  rw [scanFrom, hspan, ← hcut]
  simp only [hscan, Position.behind_after]
  rw [hcut, if_pos hlength]
  cases scanFrom (.behind (before ++ w ++ l)) rest <;> rfl

lemma scanFrom_fault (before : List Char) {w rest : List Char} {c : Char} {fault : Fault}
    (trivia : Trivia (c :: rest) w) (clear : Clear (c :: rest))
    (hscan : scanOne c rest = .error fault) :
    scanFrom (.behind before) (w ++ c :: rest) = .error ⟨fault, .behind (before ++ w)⟩ := by
  have hspan := spanTrivia_of_trivia trivia clear
  rw [scanFrom, hspan]
  simp only [hscan, Position.behind_after]

/-! The whole scan. -/

/-- A token that is the longest in a text is so where the text ends earlier. -/
lemma Leads.shorten {k : Kind} {l rest rest' : List Char} (h : Leads k l rest)
    (hrest : rest' <+: rest) : Leads k l rest' := by
  refine ⟨h.spells, fun hspells hl => h.longest hspells ?_⟩
  exact hl.trans ((List.prefix_append_right_inj l).2 hrest)

lemma Trivia.exchange {l rest rest' w : List Char} (h : Trivia (l ++ rest) w) (hl : l ≠ []) :
    Trivia (l ++ rest') w := by
  refine h.mono ?_
  obtain ⟨c, l, rfl⟩ := List.exists_cons_of_ne_nil hl
  exact fun _ => id

/-- A clear text is empty, begins with a token or is stuck. -/
lemma Clear.cases {cs : List Char} (h : Clear cs) :
    cs = [] ∨ (∃ k l rest, cs = l ++ rest ∧ Leads k l rest) ∨
      ∃ c rest, cs = c :: rest ∧ Stuck (c :: rest) := by
  cases cs with
  | nil => exact .inl rfl
  | cons c rest =>
    cases hscan : scanOne c rest with
    | ok lexeme => exact .inr (.inl ⟨_, _, _, scanOne_eq_ok_iff.1 hscan⟩)
    | error fault => exact .inr (.inr ⟨c, rest, rfl, h, exists_scanOne_error_iff.1 ⟨fault, hscan⟩⟩)

lemma LaidOut.scanFrom {before cs : List Char} {tokens : List Token}
    (h : LaidOut before cs tokens) : scanFrom (.behind before) cs = .ok tokens := by
  induction h with
  | finish trivia => exact scanFrom_finish _ trivia
  | token trivia leads tail ih =>
    rw [scanFrom_token _ trivia leads, ih]
    rfl

/-- A scan gives the tokens of the text, or it stops behind a text that has tokens. -/
lemma scanFrom_laidOut_or_stuck (before cs : List Char) :
    (∃ tokens, LaidOut before cs tokens) ∨
      ∃ fault pre c post tokens, cs = pre ++ c :: post ∧ Stuck (c :: post) ∧
        LaidOut before pre tokens ∧
        scanFrom (.behind before) cs = .error ⟨fault, .behind (before ++ pre)⟩ := by
  -- What follows a token is shorter, since no token is written without a character.
  induction cs using (measure List.length).wf.induction generalizing before with
  | h cs ih =>
    obtain ⟨w, body, rfl, trivia, hclear⟩ := exists_trivia cs
    obtain rfl | ⟨k, l, rest, rfl, leads⟩ | ⟨c, rest, rfl, stuck⟩ := hclear.cases
    · rw [List.append_nil]
      exact .inl ⟨_, .finish trivia⟩
    · have hlength : rest.length < (w ++ (l ++ rest)).length := by
        have := List.length_pos_iff.2 leads.spells.ne_nil
        simp
        omega
      rcases ih rest hlength (before ++ w ++ l) with
        ⟨tokens, htokens⟩ | ⟨fault, pre, c, post, tokens, rfl, stuck, htokens, hscan⟩
      · exact .inl ⟨_, .token trivia leads htokens⟩
      · refine .inr ⟨fault, w ++ (l ++ pre), c, post, _, by simp, stuck,
          .token (trivia.exchange leads.spells.ne_nil)
            (leads.shorten (List.prefix_append pre _)) htokens, ?_⟩
        rw [scanFrom_token _ trivia leads, hscan]
        simp [Except.map]
    · obtain ⟨fault, hfault⟩ := exists_scanOne_error_iff.2 stuck.unspelled
      exact .inr ⟨fault, w, c, rest, _, rfl, stuck, .finish (trivia.mono (by simp)),
        scanFrom_fault before trivia stuck.clear hfault⟩

theorem scanFrom_eq_ok_iff {before cs : List Char} {tokens : List Token} :
    scanFrom (.behind before) cs = .ok tokens ↔ LaidOut before cs tokens := by
  refine ⟨fun h => ?_, LaidOut.scanFrom⟩
  rcases scanFrom_laidOut_or_stuck before cs with ⟨tokens', htokens⟩ | ⟨_, _, _, _, _, _, _, _, hscan⟩
  · rw [htokens.scanFrom] at h
    cases h
    exact htokens
  · rw [hscan] at h
    cases h

theorem scan_eq_ok_iff {source : String} {tokens : List Token} :
    scan source = .ok tokens ↔ LaidOut [] source.toList tokens := by
  change scanFrom (.behind []) source.toList = .ok tokens ↔ _
  exact scanFrom_eq_ok_iff

lemma exists_stuck_of_scanFrom {before cs : List Char} {e : Located Fault}
    (h : scanFrom (.behind before) cs = .error e) :
    ∃ pre post, cs = pre ++ post ∧ e.position = .behind (before ++ pre) ∧ Stuck post := by
  rcases scanFrom_laidOut_or_stuck before cs with
    ⟨tokens, htokens⟩ | ⟨fault, pre, c, post, _, hcut, stuck, _, hscan⟩
  · rw [htokens.scanFrom] at h
    cases h
  · rw [hscan] at h
    cases h
    exact ⟨pre, c :: post, hcut, rfl, stuck⟩

lemma exists_stuck_of_scan {source : String} {e : Located Fault} (h : scan source = .error e) :
    ∃ before after, source.toList = before ++ after ∧ e.position = .behind before ∧
      Stuck after :=
  @exists_stuck_of_scanFrom [] _ _ h

/-- A token stands where its spelling begins, or at the end of the input. -/
lemma LaidOut.exists_spelling {before cs : List Char} {tokens : List Token}
    (h : LaidOut before cs tokens) {t : Token} (ht : t ∈ tokens) :
    ∃ pre post, cs = pre ++ post ∧ t.position = .behind (before ++ pre) ∧
      ((t.kind = .finish ∧ post = []) ∨ ∃ l, Spells t.kind l ∧ l <+: post) := by
  induction h with
  | @finish before w trivia =>
    obtain rfl := List.mem_singleton.1 ht
    exact ⟨w, [], by simp, rfl, .inl ⟨rfl, rfl⟩⟩
  | @token before w l rest k tokens trivia leads tail ih =>
    rcases List.mem_cons.1 ht with rfl | ht
    · exact ⟨w, l ++ rest, rfl, rfl, .inr ⟨l, leads.spells, List.prefix_append l rest⟩⟩
    · obtain ⟨pre, post, rfl, hposition, hpost⟩ := ih ht
      exact ⟨w ++ (l ++ pre), post, by simp, by simp [hposition], hpost⟩

lemma isName_of_mem_scan {source : String} {tokens : List Token} (h : scan source = .ok tokens)
    {s : String} {p : Position} (hs : ⟨.name s, p⟩ ∈ tokens) : IsName s := by
  obtain ⟨_, _, -, -, ⟨hfinish, -⟩ | ⟨l, hspells, -⟩⟩ := (scan_eq_ok_iff.1 h).exists_spelling hs
  · cases hfinish
  · cases hspells with
    | name word free => exact word

/-- The end of the input is the last token, and no other. -/
lemma LaidOut.exists_finish {before cs : List Char} {tokens : List Token}
    (h : LaidOut before cs tokens) :
    ∃ body, tokens = body ++ [⟨.finish, .behind (before ++ cs)⟩] ∧
      ∀ t ∈ body, t.kind ≠ .finish := by
  induction h with
  | finish trivia => exact ⟨[], rfl, by simp⟩
  | @token before w l rest k tokens trivia leads tail ih =>
    obtain ⟨body, rfl, hbody⟩ := ih
    refine ⟨⟨k, .behind (before ++ w)⟩ :: body, by simp, ?_⟩
    intro t ht
    rcases List.mem_cons.1 ht with rfl | ht
    · exact leads.spells.ne_finish
    · exact hbody t ht

/-- Every script either is laid out as its tokens say, or scanning stops exactly in front of the
first text that begins no token, and all before it is laid out. -/
theorem scan_laidOut_or_stuck (source : String) :
    (∃ tokens, scan source = .ok tokens ∧ LaidOut [] source.toList tokens ∧
      ∃ body, tokens = body ++ [⟨.finish, .behind source.toList⟩] ∧
        ∀ t ∈ body, t.kind ≠ .finish) ∨
      ∃ fault before c after tokens, scan source = .error ⟨fault, .behind before⟩ ∧
        source.toList = before ++ c :: after ∧ Stuck (c :: after) ∧
        scan (String.ofList before) = .ok tokens := by
  rcases scanFrom_laidOut_or_stuck [] source.toList with
    ⟨tokens, htokens⟩ | ⟨fault, before, c, after, tokens, hcut, stuck, htokens, hscan⟩
  · exact .inl ⟨tokens, htokens.scanFrom, htokens, htokens.exists_finish⟩
  · refine .inr ⟨fault, before, c, after, tokens, hscan, hcut, stuck, ?_⟩
    rw [scan_eq_ok_iff, String.toList_ofList]
    exact htokens

end Sortie.Token
