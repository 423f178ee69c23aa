import Mathlib.Data.List.Basic
import Sortie.Proofs.Script.Reading

/-! The grammar in which a parenthesised value holds any positive number of numbers. On its sentences
the reader either succeeds or stops at a parenthesised value. -/
namespace Sortie.Script
open Grammar

namespace Grammar

/-- A parenthesised value of any positive number of numbers. -/
inductive Loose : Phrase Expr
  | triple {ts a b c} (body : Tuple ts [a, b, c]) : Loose ts (.triple a b c)
  | other {ts values} (body : Tuple ts values) : Loose ts (.tuples [values])

/-! The tokens of a sentence. -/

/-- Tokens that stand anywhere but after a key and at the end. -/
def IsPlain (t : Token) : Prop := t.kind ≠ .finish ∧ t.kind ≠ .mark .colon

lemma Word.isPlain {t : Token} {s : String} (h : Word t s) : IsPlain t := by
  cases h <;> simp [IsPlain]

lemma Number.isPlain {ts : List Token} {v : Float} (h : Number ts v) : ∀ t ∈ ts, IsPlain t := by
  cases h <;> simp [IsPlain]

lemma ArgumentToken.isPlain {t : Token} {a : Argument} (h : ArgumentToken t a) : IsPlain t := by
  cases h with
  | text => simp [IsPlain]
  | word hword => exact hword.isPlain
  | number hnumber => exact hnumber.isPlain t List.mem_cons_self

section
variable {α : Type} {item : Phrase α} {ts : List Token}

lemma Sequence.isPlain {as : List α} (hitem : ∀ {us a}, item us a → ∀ t ∈ us, IsPlain t)
    (h : Sequence item ts as) : ∀ t ∈ ts, IsPlain t := by
  induction h with
  | nil => simp
  | cons head _ ih => exact List.forall_mem_append.2 ⟨hitem head, ih⟩

lemma CommaList.isPlain {as : List α} (hitem : ∀ {us a}, item us a → ∀ t ∈ us, IsPlain t)
    (h : CommaList item ts as) : ∀ t ∈ ts, IsPlain t := by
  obtain ⟨head, tail⟩ := h
  refine List.forall_mem_append.2 ⟨hitem head, tail.isPlain ?_⟩
  rintro _ _ ⟨body⟩
  exact List.forall_mem_cons.2 ⟨by simp [IsPlain], hitem body⟩

end

lemma Tuple.isPlain {ts : List Token} {values : List Float} (h : Tuple ts values) :
    ∀ t ∈ ts, IsPlain t := by
  obtain ⟨body⟩ := h
  have hbody := body.isPlain Number.isPlain
  simpa [IsPlain, or_imp, forall_and] using hbody

lemma Triple.isPlain {ts : List Token} {e : Expr} (h : Triple ts e) : ∀ t ∈ ts, IsPlain t := by
  obtain ⟨body⟩ := h
  exact body.isPlain

lemma Loose.isPlain {ts : List Token} {e : Expr} (h : Loose ts e) : ∀ t ∈ ts, IsPlain t := by
  cases h with
  | triple body => exact body.isPlain
  | other body => exact body.isPlain

/-- All but a parenthesised value is known to be of plain tokens. -/
lemma Value.isPlain_or {paren : Phrase Expr} {ts : List Token} {e : Expr} (h : Value paren ts e) :
    (∀ t ∈ ts, IsPlain t) ∨ paren ts e := by
  cases h with
  | number => exact .inl (by simp [IsPlain])
  | integer => exact .inl (by simp [IsPlain])
  | text => exact .inl (by simp [IsPlain])
  | word hword => exact .inl (by simpa using hword.isPlain)
  | area => exact .inl (by simp [IsPlain])
  | tuples body =>
    have hbody := body.isPlain Tuple.isPlain
    exact .inl (by simpa [IsPlain, or_imp, forall_and] using hbody)
  | paren body => exact .inr body

/-- What a property of lists of tokens needs to hold of every sentence. -/
structure Spreads (paren : Phrase Expr) (P : List Token → Prop) : Prop where
  nil : P []
  append : ∀ {us vs}, P us → P vs → P (us ++ vs)
  plain : ∀ {t}, IsPlain t → P [t]
  start : ∀ p q s, P [⟨.mark .colon, p⟩, ⟨.name s, q⟩]
  keyValue : ∀ {ts a}, KeyValue paren ts a → P ts

namespace Spreads
variable {paren : Phrase Expr} {P : List Token → Prop} {α : Type}

lemma list (h : Spreads paren P) {ts : List Token} (hts : ∀ t ∈ ts, IsPlain t) : P ts := by
  induction ts with
  | nil => exact h.nil
  | cons t ts ih =>
    rw [List.forall_mem_cons] at hts
    exact h.append (h.plain hts.1) (ih hts.2)

lemma sequence (h : Spreads paren P) {item : Phrase α} (hitem : ∀ {us a}, item us a → P us)
    {ts : List Token} {as : List α} (hs : Sequence item ts as) : P ts := by
  induction hs with
  | nil => exact h.nil
  | cons head _ ih => exact h.append (hitem head) ih

lemma item (h : Spreads paren P) {ts : List Token} {a : Attribute} (hitem : Item paren ts a) :
    P ts := by
  cases hitem with
  | plain body => exact h.keyValue body
  | comma body => exact h.append (h.keyValue body) (h.plain (by simp [IsPlain]))

lemma declaration (h : Spreads paren P) {ts : List Token} {d : TaskDecl}
    (hd : Declaration paren ts d) : P ts := by
  cases hd with
  | @mk k kind name ts attributes p q r s _ body =>
    have hhead : P [⟨.keyword k, p⟩, ⟨.name name, q⟩, ⟨.mark .openBrace, r⟩] :=
      h.list (by simp [IsPlain])
    exact h.append (h.append hhead (h.sequence h.item body)) (h.plain (by simp [IsPlain]))

lemma edge (h : Spreads paren P) {ts : List Token} {d : TransitionDecl} (hd : Edge ts d) : P ts := by
  apply h.list
  obtain ⟨parens⟩ := hd
  cases parens with
  | none => simp [IsPlain]
  | some body =>
    have hbody := body.isPlain
    simpa [IsPlain] using hbody

lemma sentence (h : Spreads paren P) {ts : List Token} {s : Script} (hs : Sentence paren ts s) :
    P ts := by
  cases hs with
  | @mk us vs tasks transitions start p₁ p₂ p₃ p₄ p₅ p₆ p₇ p₈ p₉ declared written =>
    have htask : P [⟨.keyword .task, p₁⟩, ⟨.mark .openBrace, p₂⟩] := h.list (by simp [IsPlain])
    have hmission : P [⟨.mark .closeBrace, p₃⟩, ⟨.keyword .mission, p₄⟩, ⟨.mark .openBrace, p₅⟩,
        ⟨.keyword .start, p₆⟩] := h.list (by simp [IsPlain])
    have hclose : P [⟨.mark .closeBrace, p₉⟩] := h.plain (by simp [IsPlain])
    have hblock := h.append htask (h.sequence h.declaration declared)
    have hentries := h.append (h.append (h.start p₇ p₈ start) (h.sequence h.edge written)) hclose
    simpa using h.append hblock (h.append hmission hentries)

end Spreads

/-- No end mark stands within a sentence. -/
lemma Sentence.kind_ne_finish {ts : List Token} {s : Script} (h : Sentence Loose ts s) :
    ∀ t ∈ ts, t.kind ≠ .finish := by
  have hspreads : Spreads Loose fun us => ∀ t ∈ us, t.kind ≠ .finish := by
    constructor
    · simp
    · exact fun hus hvs => List.forall_mem_append.2 ⟨hus, hvs⟩
    · intro t ht
      simpa using ht.1
    · simp
    · rintro _ _ ⟨hword, hvalue⟩
      have hplain := hvalue.isPlain_or.elim id Loose.isPlain
      exact List.forall_mem_cons.2 ⟨hword.isPlain.1,
        List.forall_mem_cons.2 ⟨by simp, fun t ht => (hplain t ht).1⟩⟩
  exact hspreads.sentence h

/-- Whatever follows, the tuples right behind a colon hold three numbers. -/
def Tripled (us : List Token) : Prop :=
  ∀ init p tail rest group after values, us = init ++ ⟨.mark .colon, p⟩ :: tail →
    tail ++ rest = group ++ after → Tuple group values → values.length = 3

end Grammar
open Reader

lemma triple_of_tuple {key : String} {ts rest : List Token} {values : List Float}
    (h : tuple ts = .ok (values, rest)) (hcount : values.length ≠ 3) :
    triple key ts = .error ⟨.arity key values.length, ts⟩ := by
  unfold triple
  rw [h]
  split
  · rename_i heq
    cases heq
  · rename_i heq
    cases heq
    exact absurd rfl hcount
  · rename_i heq
    cases heq
    rfl

lemma expr_of_openParen {key : String} {ts : List Token} (h : next ts = .mark .openParen) :
    expr key ts = triple key ts := by
  unfold expr
  rw [h]

lemma Grammar.Tuple.next_append {ts : List Token} {values : List Float} (h : Tuple ts values)
    (rest : List Token) : next (ts ++ rest) = .mark .openParen := by
  obtain ⟨-⟩ := h
  rfl

/-- A tuple where a value of the strict grammar stands holds three numbers. -/
lemma length_of_value {us rest group after : List Token} {e : Expr} {values : List Float}
    (hvalue : Value Triple us e) (htuple : Tuple group values)
    (hsplit : us ++ rest = group ++ after) : values.length = 3 := by
  by_contra hcount
  have hread := (reads_expr "").complete rest hvalue trivial
  rw [hsplit, expr_of_openParen (htuple.next_append after),
    triple_of_tuple (reads_tuple.complete after htuple trivial) hcount] at hread
  cases hread

/-- A token of two lists is in the first or in the second. -/
lemma append_eq_append_cons {us vs init tail : List Token} {t : Token}
    (h : us ++ vs = init ++ t :: tail) :
    (∃ mid, us = init ++ t :: mid ∧ tail = mid ++ vs) ∨
      ∃ mid, init = us ++ mid ∧ vs = mid ++ t :: tail := by
  rcases List.append_eq_append_iff.1 h with ⟨mid, hinit, hvs⟩ | ⟨mid, hus, htail⟩
  · exact .inr ⟨mid, hinit, hvs⟩
  · cases mid with
    | nil => exact .inr ⟨[], by simpa using hus.symm, htail.symm⟩
    | cons u mid =>
      rw [List.cons_append] at htail
      obtain ⟨rfl, rfl⟩ := List.cons_eq_cons.1 htail
      exact .inl ⟨mid, hus, rfl⟩

lemma tripled_append {us vs : List Token} (hus : Tripled us) (hvs : Tripled vs) :
    Tripled (us ++ vs) := by
  intro init p tail rest group after values hsplit hgroup htuple
  rcases append_eq_append_cons hsplit with ⟨mid, hmid, rfl⟩ | ⟨mid, rfl, hmid⟩
  · rw [List.append_assoc] at hgroup
    exact hus init p mid (vs ++ rest) group after values hmid hgroup htuple
  · exact hvs mid p tail rest group after values hmid hgroup htuple

lemma tripled_keyValue {ts : List Token} {a : Attribute} (h : KeyValue Triple ts a) : Tripled ts := by
  obtain ⟨hword, hvalue⟩ := h
  have hplain := hvalue.isPlain_or.elim id Triple.isPlain
  intro init p tail rest group after values hsplit hgroup htuple
  match init with
  | [] =>
    cases hsplit
    exact absurd rfl hword.isPlain.2
  | [_] =>
    cases hsplit
    exact length_of_value hvalue htuple hgroup
  | _ :: _ :: init =>
    simp only [List.cons_append, List.cons.injEq] at hsplit
    have hcolon : (⟨.mark .colon, p⟩ : Token) ∈ init ++ ⟨.mark .colon, p⟩ :: tail := by simp
    rw [← hsplit.2.2] at hcolon
    exact absurd rfl (hplain _ hcolon).2

/-- In a sentence of the strict grammar, parenthesised attribute values hold three numbers. -/
lemma Grammar.Sentence.tripled {ts : List Token} {s : Script} (h : Sentence Triple ts s) :
    Tripled ts := by
  have hspreads : Spreads Triple Tripled := by
    refine ⟨?_, tripled_append, ?_, ?_, tripled_keyValue⟩
    · intro init p tail rest group after values hsplit
      simp at hsplit
    · intro t ht init p tail rest group after values hsplit
      have hcolon : (⟨.mark .colon, p⟩ : Token) ∈ [t] := by simp [hsplit]
      rw [List.mem_singleton] at hcolon
      exact absurd (congrArg Token.kind hcolon.symm) ht.2
    · intro p q s init p tail rest group after values hsplit hgroup htuple
      have hnext := htuple.next_append after
      rw [← hgroup] at hnext
      match init with
      | [] =>
        cases hsplit
        cases hnext
      | [_] => cases hsplit
      | _ :: _ :: init => simp at hsplit
  exact hspreads.sentence h

/-! Reading of relaxed sentences. -/

namespace Reader
variable {α β : Type}

lemma bind_of_error {x : Reader α} {ts : List Token} {e : Stop} (h : x ts = .error e)
    (f : α → Reader β) : (x >>= f) ts = .error e := by
  change Reader.bind x f ts = .error e
  simp only [Reader.bind, h]

/-- A repetition goes on as its first item and the rest, if every item takes a token. -/
lemma manyUntil_of_go {stop : Kind → Bool} {item : Reader α} {ts : List Token}
    (hgo : ¬ stop (next ts) = true)
    (hlt : ∀ {a rest}, item ts = .ok (a, rest) → rest.length < ts.length) :
    manyUntil stop item ts =
      (item >>= fun a => (manyUntil stop item : Reader _) >>= fun as => pure (a :: as)) ts := by
  rw [manyUntil, if_neg hgo]
  cases hitem : item ts with
  | error e => exact (bind_of_error hitem _).symm
  | ok r =>
    obtain ⟨a, rest⟩ := r
    rw [bind_of_ok hitem]
    simp only [if_pos (hlt hitem)]
    cases hmany : manyUntil stop item rest with
    | error e => exact (bind_of_error hmany _).symm
    | ok r =>
      obtain ⟨as, rest⟩ := r
      rw [bind_of_ok hmany]
      rfl

/-- What comes of reading a phrase that `rest` follows: it is taken, or the reader stops at a
parenthesised value. -/
inductive Passed (rest : List Token) : Except Stop (α × List Token) → Prop
  | ok {a} : Passed rest (.ok (a, rest))
  | arity {key count left} : Passed rest (.error ⟨.arity key count, left⟩)

def Passes (r : Reader α) (phrase : Phrase α) (follow : Kind → Prop) : Prop :=
  ∀ {used a} rest, phrase used a → follow (next rest) → Passed rest (r (used ++ rest))

lemma Reads.passes {r : Reader α} {phrase : Phrase α} {follow : Kind → Prop}
    (h : Reads r phrase follow) : Passes r phrase follow := by
  intro used a rest hphrase hfollow
  rw [h.complete rest hphrase hfollow]
  exact .ok

lemma Passed.bind {x : Reader α} {f : α → Reader β} {ts mid rest : List Token}
    (hx : Passed mid (x ts)) (hf : ∀ a, Passed rest (f a mid)) : Passed rest ((x >>= f) ts) := by
  change Passed rest (Reader.bind x f ts)
  unfold Reader.bind
  generalize x ts = r at hx
  cases hx with
  | ok => exact hf _
  | arity => exact .arity

lemma passes_manyUntil {stop : Kind → Bool} (first : Kind → Prop) {item : Reader α}
    {phrase : Phrase α} {follow : Kind → Prop} (h : Passes item phrase follow)
    (hb : Begins phrase first) (hgo : ∀ k, first k → stop k = false) (hnext : ∀ k, first k → follow k)
    (hlast : ∀ k, stop k = true → follow k) :
    Passes (manyUntil stop item) (Sequence phrase) (fun k => stop k = true) := by
  intro used as rest hs hrest
  induction hs with
  | nil =>
    rw [List.nil_append, manyUntil, if_pos hrest]
    exact .ok
  | @cons ts us a as head tail ih =>
    obtain ⟨t, vs, hts, ht⟩ := hb head
    have hstop : ¬ stop (next (ts ++ us ++ rest)) = true := by
      rw [hts]
      simpa [next] using hgo _ ht
    have hfollow : follow (next (us ++ rest)) := by
      rcases hb.next_sequence tail rest with hfirst | rfl
      · exact hnext _ hfirst
      · exact hlast _ hrest
    have hitem := h (us ++ rest) head hfollow
    rw [← List.append_assoc] at hitem
    have hlt : ∀ {b left}, item (ts ++ us ++ rest) = .ok (b, left) →
        left.length < (ts ++ us ++ rest).length := by
      intro b left hleft
      rw [hleft] at hitem
      cases hitem
      simp only [hts, List.length_append, List.length_cons]
      omega
    rw [manyUntil_of_go hstop hlt]
    exact hitem.bind fun a => ih.bind fun as => .ok

end Reader

lemma passes_tuple (key : String) {ts : List Token} {values : List Float} (h : Tuple ts values)
    (rest : List Token) : Passed rest (triple key (ts ++ rest)) := by
  by_cases hcount : values.length = 3
  · obtain ⟨a, b, c, rfl⟩ := List.length_eq_three.1 hcount
    rw [(reads_triple key).complete rest (.mk h) trivial]
    exact .ok
  · rw [triple_of_tuple (reads_tuple.complete rest h trivial) hcount]
    exact .arity

lemma passes_expr (key : String) : Passes (expr key) (Value Loose) fun _ => True := by
  intro used e rest hvalue _
  have hstrict : Value Triple used e → Passed rest (expr key (used ++ rest)) := fun h =>
    (reads_expr key).passes rest h trivial
  have hparen : ∀ {values}, Tuple used values → Passed rest (expr key (used ++ rest)) := by
    intro values h
    rw [expr_of_openParen (h.next_append rest)]
    exact passes_tuple key h rest
  cases hvalue with
  | number => exact hstrict .number
  | integer => exact hstrict .integer
  | word hword => exact hstrict (.word hword)
  | text => exact hstrict .text
  | tuples body => exact hstrict (.tuples body)
  | area => exact hstrict .area
  | paren body =>
    cases body with
    | triple body => exact hparen body
    | other body => exact hparen body

lemma passes_keyValue : Passes keyValue (KeyValue Loose) fun _ => True := by
  rintro _ _ rest ⟨hword, hvalue⟩ -
  unfold keyValue
  simp only [List.cons_append]
  rw [bind_of_ok (place_eq_ok_iff.2 ⟨rfl, rfl⟩), bind_of_ok (word_eq_ok_iff.2 ⟨_, rfl, hword⟩),
    bind_of_ok (mark_cons _ _ _ _)]
  exact (passes_expr _ rest hvalue trivial).bind fun e => .ok

lemma passes_attributeItem :
    Passes attributeItem (Item Loose) (fun k => k.isMark .comma = false) := by
  rintro _ a rest (hbody | hbody) hfollow
  · refine (passes_keyValue rest hbody trivial).bind fun b => ?_
    rw [bind_of_ok (looking_eq_ok_iff.2 ⟨hfollow, rfl⟩)]
    exact .ok
  · rw [List.append_assoc]
    refine (passes_keyValue _ hbody trivial).bind fun b => ?_
    rw [bind_of_ok (looking_eq_ok_iff.2 ⟨rfl, rfl⟩)]
    exact .ok

lemma passes_attributes : Passes (manyUntil endsBlock attributeItem) (Sequence (Item Loose))
    (fun k => endsBlock k = true) :=
  passes_manyUntil (fun k => k.word?.isSome) passes_attributeItem (begins_item Loose)
    endsBlock_of_word isMark_comma_of_word isMark_comma_of_endsBlock

lemma passes_taskDecl : Passes taskDecl (Declaration Loose) fun _ => True := by
  rintro _ _ rest ⟨hk, hbody⟩ -
  unfold taskDecl
  simp only [List.cons_append, List.append_assoc, List.nil_append]
  rw [bind_of_ok (place_eq_ok_iff.2 ⟨rfl, rfl⟩), bind_of_ok (taskKind_eq_ok_iff.2 ⟨_, _, rfl, hk⟩),
    bind_of_ok (name_eq_ok_iff.2 ⟨_, rfl⟩), bind_of_ok (mark_cons _ _ _ _)]
  refine (passes_attributes _ hbody rfl).bind fun attributes => ?_
  rw [bind_of_ok (mark_cons _ _ _ _)]
  exact .ok

lemma passes_tasks : Passes (manyUntil endsBlock taskDecl) (Sequence (Declaration Loose))
    (fun k => endsBlock k = true) := by
  refine passes_manyUntil (fun k => ∃ w, k = .keyword w) passes_taskDecl
    (begins_declaration Loose) ?_ (fun _ _ => trivial) (fun _ _ => trivial)
  rintro _ ⟨w, rfl⟩
  rfl

lemma passed_taskBlock {used : List Token} {tasks : List TaskDecl} {p q r : Position}
    (h : Sequence (Declaration Loose) used tasks) (rest : List Token) :
    Passed rest (taskBlock (⟨.keyword .task, p⟩ :: ⟨.mark .openBrace, q⟩ ::
      (used ++ ⟨.mark .closeBrace, r⟩ :: rest))) := by
  unfold taskBlock
  rw [bind_of_ok (keyword_cons _ _ _ _), bind_of_ok (mark_cons _ _ _ _)]
  refine (passes_tasks _ h rfl).bind fun tasks => ?_
  rw [bind_of_ok (mark_cons _ _ _ _)]
  exact .ok

/-- Reading succeeds on a relaxed sentence, or fails at a parenthesised value. -/
lemma passed_script {ts : List Token} {s : Script} (h : Sentence Loose ts s) :
    Passed [] (script ts) := by
  obtain ⟨htasks, hedges⟩ := h
  unfold script
  simp only [List.cons_append, List.append_assoc]
  refine (passed_taskBlock htasks _).bind fun tasks => ?_
  rw [bind_of_ok (keyword_cons _ _ _ _), bind_of_ok (mark_cons _ _ _ _),
    bind_of_ok (keyword_cons _ _ _ _), bind_of_ok (mark_cons _ _ _ _),
    bind_of_ok (place_eq_ok_iff.2 ⟨rfl, rfl⟩), bind_of_ok (name_eq_ok_iff.2 ⟨_, rfl⟩),
    bind_of_ok (reads_transitions.complete _ hedges rfl), bind_of_ok (mark_cons _ _ _ _)]
  exact .ok

end Sortie.Script
