import Sortie.Proofs.Script.Guidance

/-! Reading stops at the first token that cannot continue a script. What stands before it can be
completed to a sentence of the relaxed grammar; together with it, it cannot. -/
namespace Sortie.Script
open Grammar Reader

/-- The tokens that reading looks at: those before the first end mark, and the end mark. -/
def ended (ts : List Token) : List Token := content ts ++ [⟨.finish, finishPosition ts⟩]

/-- Tokens with which a relaxed sentence and its end mark can begin. -/
def Viable (us : List Token) : Prop :=
  ∃ body s e, Sentence Loose body s ∧ e.kind = .finish ∧ us <+: body ++ [e]

/-- A parenthesised attribute value among tokens: it stands right behind a colon. -/
structure Parenthesised (ts before group after : List Token) (values : List Float) : Prop where
  split : ts = before ++ (group ++ after)
  colon : ∃ init p, before = init ++ [⟨.mark .colon, p⟩]
  tuple : Tuple group values

lemma kind_ne_finish_of_mem_content (ts : List Token) : ∀ t ∈ content ts, t.kind ≠ .finish := by
  intro t ht hkind
  have hall := List.all_eq_true.1 List.all_takeWhile t ht
  rw [hkind] at hall
  cases hall

/-- What follows the content begins with an end mark. -/
lemma exists_append_content (ts : List Token) :
    ∃ rest, ts = content ts ++ rest ∧ ∀ t us, rest = t :: us → t.kind = .finish := by
  induction ts with
  | nil => exact ⟨[], rfl, by simp⟩
  | cons t ts ih =>
    rw [content_cons]
    by_cases hkind : t.kind = .finish
    · refine ⟨t :: ts, by rw [hkind]; rfl, ?_⟩
      intro u us hu
      cases hu
      exact hkind
    · obtain ⟨rest, hts, hrest⟩ := ih
      refine ⟨rest, ?_, hrest⟩
      split
      · exact absurd ‹_› hkind
      · rw [List.cons_append, ← hts]

/-- The end mark is the first one, or without any is added. -/
lemma ended_cases (ts : List Token) :
    ended ts <+: ts ∨ ended ts = ts ++ [⟨.finish, lastPosition ts⟩] := by
  obtain ⟨rest, hts, hrest⟩ := exists_append_content ts
  have hdrop : ts.drop (content ts).length = rest := by
    conv_lhs => arg 2; rw [hts]
    exact List.drop_left
  unfold ended finishPosition
  rw [hdrop]
  cases rest with
  | nil =>
    rw [List.append_nil] at hts
    right
    rw [← hts]
    rfl
  | cons t us =>
    left
    have ht : t = ⟨.finish, t.position⟩ := by
      rw [← hrest t us rfl]
    refine ⟨us, ?_⟩
    conv_rhs => rw [hts, ht]
    simp

lemma viable_of_sentence {us more : List Token} {s : Script} (h : Sentence Loose (us ++ more) s) :
    Viable us := by
  refine ⟨us ++ more, s, ⟨.finish, .first⟩, h, rfl, ?_⟩
  rw [List.append_assoc]
  exact List.prefix_append us _

/-- A token at which reading stops cannot continue a sentence. -/
lemma not_viable {used rest after : List Token} {t : Token} {expected : String} {p : Position}
    (hcontent : ∀ u ∈ rest, u.kind ≠ .finish) (ht : rest ++ [⟨.finish, p⟩] = t :: after)
    (hstop : ∀ more, more.head? = rest.head? →
      script (used ++ more) = .error ⟨.unexpected expected (next rest), more⟩) :
    ¬ Viable (used ++ [t]) := by
  rintro ⟨body, s, e, hbody, he, hbegins⟩
  -- On a relaxed sentence that goes on like these tokens, reading would stop as well.
  have hpassed : ∀ more, more.head? = rest.head? → body ≠ used ++ more := by
    rintro more hmore rfl
    have h := passed_script hbody
    rw [hstop more hmore] at h
    cases h
  rw [List.prefix_concat_iff] at hbegins
  cases rest with
  | nil =>
    cases ht
    rcases hbegins with hwhole | hpart
    · obtain ⟨rfl, -⟩ := List.append_inj' hwhole rfl
      exact hpassed [] rfl (List.append_nil _).symm
    · exact hbody.kind_ne_finish ⟨.finish, p⟩ (hpart.subset (by simp)) rfl
  | cons u rest =>
    cases ht
    rcases hbegins with hwhole | ⟨more, rfl⟩
    · obtain ⟨-, hlast⟩ := List.append_inj' hwhole rfl
      cases hlast
      exact hcontent t List.mem_cons_self he
    · exact hpassed (t :: more) rfl (by simp)

lemma parse_eq_error {ts : List Token} {e : Located Fault} (h : parse ts = .error e) :
    ∃ rest, script (content ts) = .error ⟨e.fault, rest⟩ ∧
      e.position = headPosition (rest ++ [⟨.finish, finishPosition ts⟩]) := by
  unfold parse at h
  cases hscript : script (content ts) with
  | ok r =>
    rw [hscript] at h
    cases h
  | error stop =>
    rw [hscript] at h
    cases h
    refine ⟨stop.rest, rfl, ?_⟩
    cases stop.rest <;> rfl

/-- A colon stands before every end mark that stands for a value. -/
def Stubbed (us : List Token) : Prop :=
  ∀ before after, us = before ++ ⟨.finish, .first⟩ :: after →
    ∃ init p, before = init ++ [⟨.mark .colon, p⟩]

lemma stubbed_append {us vs : List Token} (hus : Stubbed us) (hvs : Stubbed vs) :
    Stubbed (us ++ vs) := by
  intro before after hsplit
  rcases append_eq_append_cons hsplit with ⟨mid, hmid, -⟩ | ⟨mid, rfl, hmid⟩
  · exact hus before mid hmid
  · obtain ⟨init, p, rfl⟩ := hvs mid after hmid
    exact ⟨us ++ init, p, by simp⟩

lemma stubbed_of_notMem {us : List Token} (h : ⟨.finish, .first⟩ ∉ us) : Stubbed us := by
  intro before after hsplit
  exact absurd (by simp [hsplit]) h

lemma stubbed_keyValue {ts : List Token} {a : Attribute} (h : KeyValue Stub ts a) : Stubbed ts := by
  obtain ⟨hword, hvalue⟩ := h
  intro before after hsplit
  match before with
  | [] =>
    cases hsplit
    exact absurd rfl hword.isPlain.1
  | [_] => cases hsplit
  | _ :: _ :: before =>
    simp only [List.cons_append, List.cons.injEq] at hsplit
    obtain ⟨rfl, rfl, rfl⟩ := hsplit
    have hmem : (⟨.finish, .first⟩ : Token) ∈ before ++ ⟨.finish, .first⟩ :: after := by simp
    rcases hvalue.isPlain_or with hplain | htriple | hstub
    · exact absurd rfl (hplain _ hmem).1
    · exact absurd rfl (htriple.isPlain _ hmem).1
    · obtain ⟨rfl, -⟩ : before = [] ∧ after = [] := by
        cases before <;> simp_all
      exact ⟨[_], _, rfl⟩

lemma Grammar.Sentence.stubbed {ts : List Token} {s : Script} (h : Sentence Stub ts s) :
    Stubbed ts := by
  have hspreads : Spreads Stub Stubbed := by
    refine ⟨?_, stubbed_append, ?_, ?_, stubbed_keyValue⟩
    · exact stubbed_of_notMem (by simp)
    · intro t ht
      refine stubbed_of_notMem fun hmem => ht.1 ?_
      rw [← List.mem_singleton.1 hmem]
    · exact fun p q s => stubbed_of_notMem (by simp)
  exact hspreads.sentence h

lemma exists_triple : ∃ ts e, Triple ts e := by
  refine ⟨[⟨.mark .openParen, .first⟩, ⟨.integer 0, .first⟩, ⟨.mark .comma, .first⟩,
    ⟨.integer 0, .first⟩, ⟨.mark .comma, .first⟩, ⟨.integer 0, .first⟩, ⟨.mark .closeParen, .first⟩],
    .triple (UInt64.toFloat 0) (UInt64.toFloat 0) (UInt64.toFloat 0), ?_⟩
  exact .mk (.mk (.mk .integer (.cons (.mk .integer) (.cons (.mk .integer) .nil))))

/-- A parenthesised value before a place for values ends before it, and has three numbers. -/
lemma length_of_parenthesised {used ahead rest before group after : List Token}
    {values : List Float} {s : Script} (hcolon : ∃ init p, used = init ++ [⟨.mark .colon, p⟩])
    (hsentence : Sentence Triple (used ++ ahead) s)
    (h : Parenthesised (used ++ rest) before group after values)
    (hlt : before.length < used.length) : values.length = 3 := by
  obtain ⟨init, p, rfl⟩ := h.colon
  obtain ⟨mid, rfl⟩ : init ++ [⟨.mark .colon, p⟩] <+: used :=
    List.prefix_of_prefix_length_le ⟨_, h.split.symm⟩ (List.prefix_append _ _) (by omega)
  have hsplit : mid ++ rest = group ++ after := by
    have := h.split
    simpa using this
  have hgroup : group <+: mid := by
    rcases List.prefix_or_prefix_of_prefix ⟨after, hsplit.symm⟩ (List.prefix_append mid rest) with
      hgroup | hmid
    · exact hgroup
    · -- Otherwise the colon before the place would lie within the value.
      rcases List.eq_nil_or_concat mid with rfl | ⟨mid, t, rfl⟩
      · simp at hlt
      · obtain ⟨init', p', hused⟩ := hcolon
        rw [List.concat_eq_append, ← List.append_assoc] at hused
        obtain ⟨-, hlast⟩ := List.append_inj' hused rfl
        cases hlast
        exact absurd rfl (h.tuple.isPlain ⟨.mark .colon, p'⟩ (hmid.subset (by simp))).2
  obtain ⟨tail, rfl⟩ := hgroup
  refine hsentence.tripled init p (group ++ tail ++ ahead) [] group (tail ++ ahead) values ?_ ?_
    h.tuple
  · simp
  · simp

section Failure
variable {ts : List Token} {e : Located Fault}

lemma exists_misfit (h : parse ts = .error e) {expected : String} {found : Kind}
    (hfault : e.fault = .unexpected expected found) :
    ∃ before t after, ended ts = before ++ t :: after ∧ t.position = e.position ∧ t.kind = found ∧
      Viable before ∧ ¬ Viable (before ++ [t]) := by
  obtain ⟨rest, hstop, hposition⟩ := parse_eq_error h
  rw [hfault] at hstop
  obtain ⟨used, ahead, hcontent, rfl, ⟨s, hs⟩, again⟩ :=
    (guided_script.outcome (content ts)).of_unexpected hstop
  obtain ⟨t, after, ht⟩ : ∃ t after, rest ++ [⟨.finish, finishPosition ts⟩] = t :: after :=
    List.exists_cons_of_ne_nil (by simp)
  rw [ht] at hposition
  refine ⟨used, t, after, ?_, hposition.symm, ?_, viable_of_sentence hs, ?_⟩
  · rw [ended, hcontent, List.append_assoc, ht]
  · cases rest <;> cases ht <;> rfl
  · refine not_viable (fun u hu => kind_ne_finish_of_mem_content ts u ?_) ht again
    rw [hcontent]
    exact List.mem_append_right _ hu

lemma exists_miscount (h : parse ts = .error e) {key : String} {count : ℕ}
    (hfault : e.fault = .arity key count) :
    ∃ before group after values, Parenthesised (ended ts) before group after values ∧
      headPosition group = e.position ∧ values.length = count ∧ count ≠ 3 ∧
      Viable (before ++ group) ∧
      ∀ before' group' after' values', Parenthesised (ended ts) before' group' after' values' →
        before'.length < before.length → values'.length = 3 := by
  obtain ⟨rest, hstop, hposition⟩ := parse_eq_error h
  rw [hfault] at hstop
  obtain ⟨used, ahead, group, after, values, hcontent, rfl, tuple, hlength, hcount, mem⟩ :=
    (guided_script.outcome (content ts)).of_arity hstop
  have hended : ended ts = used ++ (group ++ (after ++ [⟨.finish, finishPosition ts⟩])) := by
    rw [ended, hcontent]
    simp
  have hcolon : ∃ init p, used = init ++ [⟨.mark .colon, p⟩] := by
    obtain ⟨s, hs⟩ := mem Stub admits_stub [⟨.finish, .first⟩] (.text "") (.inr rfl)
    exact hs.stubbed used ahead rfl
  refine ⟨used, group, _, values, ⟨hended, hcolon, tuple⟩, ?_, hlength, hcount, ?_, ?_⟩
  · rw [hposition]
    obtain ⟨-⟩ := tuple
    rfl
  · obtain ⟨s, hs⟩ := mem Loose admits_loose group _ (.other tuple)
    rw [← List.append_assoc] at hs
    exact viable_of_sentence hs
  · intro before' group' after' values' hat hlt
    obtain ⟨vs, v, hv⟩ := exists_triple
    obtain ⟨s, hs⟩ := mem Triple admits_triple vs v hv
    rw [hended] at hat
    exact length_of_parenthesised hcolon hs hat hlt

end Failure

/-- Reading a script fails at the first token that cannot continue one. A token that does not fit
comes after tokens with which a relaxed sentence can begin, and with it none can. A parenthesised
value without three numbers is the first of its kind, the place is that of its first token, and a
relaxed sentence can begin with all up to its end. -/
theorem parse_error_viable {ts : List Token} {e : Located Fault} (h : parse ts = .error e) :
    (ended ts <+: ts ∨ ended ts = ts ++ [⟨.finish, lastPosition ts⟩]) ∧
    (∀ expected found, e.fault = .unexpected expected found →
      ∃ before t after, ended ts = before ++ t :: after ∧ t.position = e.position ∧ t.kind = found ∧
        Viable before ∧ ¬ Viable (before ++ [t])) ∧
    (∀ key count, e.fault = .arity key count →
      ∃ before group after values, Parenthesised (ended ts) before group after values ∧
        headPosition group = e.position ∧ values.length = count ∧ count ≠ 3 ∧
        Viable (before ++ group) ∧
        ∀ before' group' after' values', Parenthesised (ended ts) before' group' after' values' →
          before'.length < before.length → values'.length = 3) :=
  ⟨ended_cases ts, fun _ _ hfault => exists_misfit h hfault,
    fun _ _ hfault => exists_miscount h hfault⟩

/-- A task with a triple and a pair for values, and an arrow. -/
def pairTask (x y : Float) : List Token :=
  [⟨.keyword .task, ⟨1, 1⟩⟩, ⟨.mark .openBrace, ⟨1, 6⟩⟩, ⟨.keyword .test, ⟨1, 8⟩⟩,
    ⟨.name "A", ⟨1, 13⟩⟩, ⟨.mark .openBrace, ⟨1, 15⟩⟩, ⟨.name "low", ⟨2, 1⟩⟩,
    ⟨.mark .colon, ⟨2, 4⟩⟩, ⟨.mark .openParen, ⟨2, 6⟩⟩, ⟨.number x, ⟨2, 7⟩⟩, ⟨.mark .comma, ⟨2, 8⟩⟩,
    ⟨.number y, ⟨2, 9⟩⟩, ⟨.mark .comma, ⟨2, 10⟩⟩, ⟨.number x, ⟨2, 11⟩⟩,
    ⟨.mark .closeParen, ⟨2, 12⟩⟩, ⟨.name "high", ⟨3, 1⟩⟩, ⟨.mark .colon, ⟨3, 5⟩⟩,
    ⟨.mark .openParen, ⟨3, 7⟩⟩, ⟨.number x, ⟨3, 8⟩⟩, ⟨.mark .comma, ⟨3, 9⟩⟩,
    ⟨.number y, ⟨3, 10⟩⟩, ⟨.mark .closeParen, ⟨3, 11⟩⟩, ⟨.mark .arrow, ⟨3, 12⟩⟩]

/-- The pair is reported before the arrow that does not fit, and without the end of the pair its
missing end is reported. -/
theorem parse_error_viable_pair :
    (parse (pairTask 4 5) = .error ⟨.arity "high" 2, ⟨3, 7⟩⟩ ∧
      ∃ before group after values, Parenthesised (ended (pairTask 4 5)) before group after values ∧
        headPosition group = ⟨3, 7⟩ ∧ values.length = 2 ∧ Viable (before ++ group)) ∧
    (parse ((pairTask 4 5).take 20) =
        .error ⟨.unexpected "')' to close the tuple" .finish, ⟨3, 10⟩⟩ ∧
      ∃ before t after, ended ((pairTask 4 5).take 20) = before ++ t :: after ∧
        t.position = ⟨3, 10⟩ ∧ t.kind = .finish ∧ Viable before ∧ ¬ Viable (before ++ [t])) := by
  have hpair : ∀ x y, parse (pairTask x y) = .error ⟨.arity "high" 2, ⟨3, 7⟩⟩ := by
    intro x y
    cbv
  have hopen : ∀ x y, parse ((pairTask x y).take 20) =
      .error ⟨.unexpected "')' to close the tuple" .finish, ⟨3, 10⟩⟩ := by
    intro x y
    cbv
  refine ⟨⟨hpair 4 5, ?_⟩, hopen 4 5, (parse_error_viable (hopen 4 5)).2.1 _ _ rfl⟩
  obtain ⟨before, group, after, values, hat, hposition, hcount, -, hviable, -⟩ :=
    (parse_error_viable (hpair 4 5)).2.2 _ _ rfl
  exact ⟨before, group, after, values, hat, hposition, hcount, hviable⟩

end Sortie.Script
