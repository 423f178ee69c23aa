import Mathlib.Computability.Language
import Sortie.Proofs.Script.Relaxed

/-! What the readers of a script make of any tokens. What was read when a reader stops can be
completed to a phrase of the relaxed grammar, and whether it stops is decided by one more token. -/
namespace Sortie.Script
open Grammar

namespace Reader
variable {α β : Type}

/-- The token strings of a phrase. -/
def strings (phrase : Phrase α) : Language Token := {ts | ∃ a, phrase ts a}

/-- Single tokens that stand for something. -/
def singles (stands : Token → α → Prop) : Language Token := {ts | ∃ t a, ts = [t] ∧ stands t a}

abbrev ofKind (k : Kind) : Language Token := singles fun t p => t = ⟨k, p⟩

abbrev names : Language Token := singles fun t s => ∃ p, t = ⟨.name s, p⟩

section Membership
variable {lang : Language Token} {ts : List Token}

lemma mem_strings_mul {phrase : Phrase α} :
    ts ∈ strings phrase * lang ↔ ∃ a us vs, ts = us ++ vs ∧ phrase us a ∧ vs ∈ lang := by
  constructor
  · rintro ⟨us, ⟨a, ha⟩, vs, hvs, rfl⟩
    exact ⟨a, us, vs, rfl, ha, hvs⟩
  · rintro ⟨a, us, vs, rfl, ha, hvs⟩
    exact ⟨us, ⟨a, ha⟩, vs, hvs, rfl⟩

lemma mem_singles_mul {stands : Token → α → Prop} :
    ts ∈ singles stands * lang ↔ ∃ t a us, ts = t :: us ∧ stands t a ∧ us ∈ lang := by
  constructor
  · rintro ⟨_, ⟨t, a, rfl, ha⟩, us, hus, rfl⟩
    exact ⟨t, a, us, rfl, ha, hus⟩
  · rintro ⟨t, a, us, rfl, ha, hus⟩
    exact ⟨_, ⟨t, a, rfl, ha⟩, us, hus, rfl⟩

end Membership

/-- Triples may stand in parentheses. -/
def Admits (paren : Phrase Expr) : Prop := ∀ ts e, Triple ts e → paren ts e

/-- What a reader makes of tokens, against a language that depends on what may stand in parentheses.
The reader looks at one token past those that it takes. What it takes is in the language of every
grammar that admits triples. Where it stops, what it took can be completed in the relaxed grammar.
Where it stops at a tuple, parenthesised values may stand there. -/
inductive Outcome (lang : Phrase Expr → Language Token) (r : Reader α) : List Token → Prop
  | read (used : List Token) (a : α) {rest} (mem : ∀ paren, Admits paren → used ∈ lang paren)
      (again : ∀ more, more.head? = rest.head? → r (used ++ more) = .ok (a, more)) :
      Outcome lang r (used ++ rest)
  | unexpected (used ahead : List Token) (expected : String) {rest}
      (mem : used ++ ahead ∈ lang Loose)
      (again : ∀ more, more.head? = rest.head? →
        r (used ++ more) = .error ⟨.unexpected expected (next rest), more⟩) :
      Outcome lang r (used ++ rest)
  | arity (used ahead : List Token) {key group after values} (tuple : Tuple group values)
      (count : values.length ≠ 3)
      (mem : ∀ paren, Admits paren → ∀ ts e, paren ts e → used ++ (ts ++ ahead) ∈ lang paren)
      (stop : r (used ++ (group ++ after)) = .error ⟨.arity key values.length, group ++ after⟩) :
      Outcome lang r (used ++ (group ++ after))

/-- A reader whose every outcome is accounted for by a language that is not empty. -/
structure Guided (lang : Phrase Expr → Language Token) (r : Reader α) : Prop where
  value : Nonempty α
  sample : ∃ ts, ∀ paren, Admits paren → ts ∈ lang paren
  outcome : ∀ ts, Outcome lang r ts

lemma admits_triple : Admits Triple := fun _ _ h => h

lemma admits_loose : Admits Loose := by
  rintro _ _ ⟨body⟩
  exact .triple body

/-- Triples, or an end mark in their place. Elsewhere no end mark stands in a sentence, so it shows
where parenthesised values may stand. -/
def Stub : Phrase Expr := fun ts e => Triple ts e ∨ ts = [⟨.finish, .first⟩]

lemma admits_stub : Admits Stub := fun _ _ h => .inl h

lemma head?_append_congr {us vs ws : List Token} (h : us.head? = vs.head?) :
    (ws ++ us).head? = (ws ++ vs).head? := by
  rw [List.head?_append, List.head?_append, h]

lemma next_congr {us vs : List Token} (h : us.head? = vs.head?) : next us = next vs := by
  cases us <;> cases vs <;> simp_all [next]

section Rules
variable {lang lang' : Phrase Expr → Language Token} {r r' : Reader α}

lemma Outcome.mono {ts : List Token} (h : Outcome lang r ts)
    (hle : ∀ paren ts, ts ∈ lang paren → ts ∈ lang' paren) : Outcome lang' r ts := by
  cases h with
  | read used a mem again =>
    exact .read used a (fun paren hparen => hle paren _ (mem paren hparen)) again
  | unexpected used ahead expected mem again =>
    exact .unexpected used ahead expected (hle _ _ mem) again
  | arity used ahead tuple count mem stop =>
    exact .arity used ahead tuple count
      (fun paren hparen ts e h => hle paren _ (mem paren hparen ts e h)) stop

lemma Guided.mono (h : Guided lang r) (hle : ∀ paren ts, ts ∈ lang paren → ts ∈ lang' paren) :
    Guided lang' r where
  value := h.value
  sample := by
    obtain ⟨ts, hts⟩ := h.sample
    exact ⟨ts, fun paren hparen => hle paren ts (hts paren hparen)⟩
  outcome ts := (h.outcome ts).mono hle

/-- Readers that agree on all tokens with a given first one have the same outcome there. -/
lemma Outcome.congr {ts : List Token} (h : Outcome lang r ts)
    (heq : ∀ us, us.head? = ts.head? → r' us = r us) : Outcome lang r' ts := by
  cases h with
  | read used a mem again =>
    exact .read used a mem fun more hmore =>
      (heq _ (head?_append_congr hmore)).trans (again more hmore)
  | unexpected used ahead expected mem again =>
    exact .unexpected used ahead expected mem fun more hmore =>
      (heq _ (head?_append_congr hmore)).trans (again more hmore)
  | arity used ahead tuple count mem stop =>
    exact .arity used ahead tuple count mem ((heq _ rfl).trans stop)

variable {ts rest : List Token}

lemma Outcome.of_ok {a : α} (h : Outcome lang r ts) (hr : r ts = .ok (a, rest)) :
    ∃ used, ts = used ++ rest ∧ ∀ paren, Admits paren → used ∈ lang paren := by
  cases h with
  | read used b mem again =>
    rw [again _ rfl] at hr
    cases hr
    exact ⟨used, rfl, mem⟩
  | unexpected used ahead expected mem again =>
    rw [again _ rfl] at hr
    cases hr
  | arity used ahead tuple count mem stop =>
    rw [stop] at hr
    cases hr

lemma Outcome.of_unexpected {expected : String} {found : Kind} (h : Outcome lang r ts)
    (hr : r ts = .error ⟨.unexpected expected found, rest⟩) :
    ∃ used ahead, ts = used ++ rest ∧ found = next rest ∧ used ++ ahead ∈ lang Loose ∧
      ∀ more, more.head? = rest.head? →
        r (used ++ more) = .error ⟨.unexpected expected found, more⟩ := by
  cases h with
  | read used b mem again =>
    rw [again _ rfl] at hr
    cases hr
  | unexpected used ahead expected mem again =>
    rw [again _ rfl] at hr
    cases hr
    exact ⟨used, ahead, rfl, rfl, mem, again⟩
  | arity used ahead tuple count mem stop =>
    rw [stop] at hr
    cases hr

lemma Outcome.of_arity {key : String} {count : ℕ} (h : Outcome lang r ts)
    (hr : r ts = .error ⟨.arity key count, rest⟩) :
    ∃ used ahead group after values, ts = used ++ rest ∧ rest = group ++ after ∧
      Tuple group values ∧ values.length = count ∧ count ≠ 3 ∧
      ∀ paren, Admits paren → ∀ us e, paren us e → used ++ (us ++ ahead) ∈ lang paren := by
  cases h with
  | read used b mem again =>
    rw [again _ rfl] at hr
    cases hr
  | unexpected used ahead expected mem again =>
    rw [again _ rfl] at hr
    cases hr
  | arity used ahead tuple hcount mem stop =>
    rw [stop] at hr
    cases hr
    exact ⟨used, ahead, _, _, _, rfl, rfl, tuple, rfl, hcount, mem⟩

end Rules

lemma guided_pure (a : α) : Guided (fun _ => 1) (pure a : Reader α) where
  value := ⟨a⟩
  sample := ⟨[], fun _ _ => rfl⟩
  outcome _ := .read [] a (fun _ _ => rfl) fun _ _ => rfl

/-- One step of a chain of readers: what was read and what is left to read carry over. -/
lemma Outcome.bind {lang lang' : Phrase Expr → Language Token} {x : Reader α} {f : α → Reader β}
    {ts : List Token} (hx : Outcome lang x ts)
    (hsample : ∃ vs, ∀ paren, Admits paren → vs ∈ lang' paren)
    (hf : ∀ a rest, x ts = .ok (a, rest) → Outcome lang' (f a) rest) :
    Outcome (fun paren => lang paren * lang' paren) (x >>= f) ts := by
  obtain ⟨vs, hvs⟩ := hsample
  cases hx with
  | unexpected used ahead expected mem again =>
    refine .unexpected used (ahead ++ vs) expected ?_ fun more hmore =>
      bind_of_error (again more hmore) f
    rw [← List.append_assoc]
    exact Language.append_mem_mul mem (hvs _ admits_loose)
  | arity used ahead tuple count mem stop =>
    refine .arity used (ahead ++ vs) tuple count (fun paren hparen ts e h => ?_)
      (bind_of_error stop f)
    rw [← List.append_assoc, ← List.append_assoc, List.append_assoc used]
    exact Language.append_mem_mul (mem paren hparen ts e h) (hvs paren hparen)
  | @read used a rest mem again =>
    have hrun : ∀ us rest' more, rest = us ++ rest' → more.head? = rest'.head? →
        (x >>= f) (used ++ us ++ more) = f a (us ++ more) := by
      rintro us rest' more rfl hmore
      rw [List.append_assoc, bind_of_ok (again _ (head?_append_congr hmore))]
    cases hf a rest (again rest rfl) with
    | read used' b mem' again' =>
      rw [← List.append_assoc]
      refine .read (used ++ used') b ?_ fun more hmore =>
        (hrun _ _ more rfl hmore).trans (again' more hmore)
      exact fun paren hparen => Language.append_mem_mul (mem paren hparen) (mem' paren hparen)
    | unexpected used' ahead expected mem' again' =>
      rw [← List.append_assoc]
      refine .unexpected (used ++ used') ahead expected ?_ fun more hmore =>
        (hrun _ _ more rfl hmore).trans (again' more hmore)
      rw [List.append_assoc]
      exact Language.append_mem_mul (mem _ admits_loose) mem'
    | arity used' ahead tuple count mem' stop =>
      rw [← List.append_assoc]
      refine .arity (used ++ used') ahead tuple count (fun paren hparen ts e h => ?_)
        ((hrun _ _ _ rfl rfl).trans stop)
      rw [List.append_assoc]
      exact Language.append_mem_mul (mem paren hparen) (mem' paren hparen ts e h)

lemma Guided.bind {lang lang' : Phrase Expr → Language Token} {x : Reader α} {f : α → Reader β}
    (hx : Guided lang x) (hf : ∀ a, Guided lang' (f a)) :
    Guided (fun paren => lang paren * lang' paren) (x >>= f) := by
  obtain ⟨a⟩ := hx.value
  obtain ⟨us, hus⟩ := hx.sample
  obtain ⟨vs, hvs⟩ := (hf a).sample
  refine ⟨(hf a).value, ⟨us ++ vs, fun paren hparen => ?_⟩, fun ts => ?_⟩
  · exact Language.append_mem_mul (hus paren hparen) (hvs paren hparen)
  · exact (hx.outcome ts).bind (hf a).sample fun b rest _ => (hf b).outcome rest

lemma Guided.ite {lang lang' : Phrase Expr → Language Token} {x y : Reader α} {c : Prop}
    [Decidable c] (hx : Guided lang x) (hy : Guided lang' y) :
    Guided (fun paren => lang paren + lang' paren) (if c then x else y) := by
  split
  · exact hx.mono fun _ _ h => .inl h
  · exact hy.mono fun _ _ h => .inr h

/-- A reader of one token, which takes tokens of at least one kind. -/
lemma guided_take {expected : String} {choose : Kind → Option α}
    {lang : Phrase Expr → Language Token} {k : Kind} {a : α} (h : choose k = some a)
    (hlang : ∀ ts b, take expected choose ts = .ok (b, []) → ∀ paren, ts ∈ lang paren) :
    Guided lang (take expected choose) := by
  have hsample := hlang [⟨k, .first⟩] a (take_eq_ok_iff.2 ⟨_, rfl, h⟩)
  refine ⟨⟨a⟩, ⟨_, fun paren _ => hsample paren⟩, fun ts => ?_⟩
  cases ts with
  | nil =>
    refine .unexpected [] _ expected (hsample Loose) fun more hmore => ?_
    rw [List.head?_nil, List.head?_eq_none_iff] at hmore
    rw [hmore]
    rfl
  | cons t ts =>
    cases ht : choose t.kind with
    | some b =>
      have hread : ∀ more, take expected choose ([t] ++ more) = .ok (b, more) := fun more =>
        take_eq_ok_iff.2 ⟨t, rfl, ht⟩
      exact .read [t] b (fun paren _ => hlang _ b (hread []) paren) fun more _ => hread more
    | none =>
      refine .unexpected [] _ expected (hsample Loose) fun more hmore => ?_
      obtain ⟨more, rfl⟩ := List.head?_eq_some_iff.1 hmore
      simp only [List.nil_append, take, ht]
      rfl

lemma guided_mark (m : Mark) (context : String) :
    Guided (fun _ => ofKind (.mark m)) (mark m context) := by
  refine guided_take (k := .mark m) (if_pos (by simp [Kind.isMark])) fun ts u h _ => ?_
  obtain ⟨p, rfl⟩ := mark_eq_ok_iff.1 h
  exact ⟨_, p, rfl, rfl⟩

lemma guided_keyword (k : Keyword) (context : String) :
    Guided (fun _ => ofKind (.keyword k)) (keyword k context) := by
  refine guided_take (k := .keyword k) (if_pos (by simp [Kind.isKeyword])) fun ts u h _ => ?_
  obtain ⟨p, rfl⟩ := keyword_eq_ok_iff.1 h
  exact ⟨_, p, rfl, rfl⟩

lemma guided_name (context : String) : Guided (fun _ => names) (name context) := by
  refine guided_take (k := .name "") rfl fun ts s h _ => ?_
  obtain ⟨p, rfl⟩ := name_eq_ok_iff.1 h
  exact ⟨_, s, rfl, p, rfl⟩

lemma guided_number (context : String) : Guided (fun _ => strings Number) (number context) := by
  refine guided_take (k := .integer 0) rfl fun ts v h _ => ?_
  obtain ⟨t, rfl, ht⟩ := number_eq_ok_iff.1 h
  exact ⟨v, ht⟩

lemma guided_place : Guided (fun _ => 1) place where
  value := ⟨.first⟩
  sample := ⟨[], fun _ _ => rfl⟩
  outcome ts := by
    refine .read [] (headPosition ts) (fun _ _ => rfl) fun more hmore => ?_
    rw [List.nil_append, place_eq_ok_iff]
    refine ⟨?_, rfl⟩
    cases ts <;> cases more <;> simp_all [headPosition]

lemma guided_looking (test : Kind → Bool) : Guided (fun _ => 1) (looking test) where
  value := ⟨true⟩
  sample := ⟨[], fun _ _ => rfl⟩
  outcome ts := by
    refine .read [] (test (next ts)) (fun _ _ => rfl) fun more hmore => ?_
    rw [List.nil_append, looking, next_congr hmore]

/-- A repetition is guided by sequences, if every item takes a token. -/
lemma guided_manyUntil (stop : Kind → Bool) (first : Kind → Prop) {phrase : Phrase Expr → Phrase α}
    {item : Reader α} (h : Guided (fun paren => strings (phrase paren)) item)
    (hb : Begins (phrase Triple) first) :
    Guided (fun paren => strings (Sequence (phrase paren))) (manyUntil stop item) := by
  have hlt : ∀ {ts a rest}, item ts = .ok (a, rest) → rest.length < ts.length := by
    intro ts a rest hitem
    obtain ⟨used, rfl, mem⟩ := (h.outcome ts).of_ok hitem
    obtain ⟨b, hused⟩ := mem _ admits_triple
    obtain ⟨t, us, rfl, -⟩ := hb hused
    rw [List.length_append, List.length_cons]
    omega
  have hsample : ∃ us, ∀ paren, Admits paren → us ∈ strings (Sequence (phrase paren)) :=
    ⟨[], fun _ _ => ⟨[], .nil⟩⟩
  refine ⟨⟨[]⟩, hsample, fun ts => ?_⟩
  induction ts using (measure List.length).wf.induction with
  | h ts ih =>
    by_cases hstop : stop (next ts) = true
    · refine .read [] [] (fun _ _ => ⟨[], .nil⟩) fun more hmore => ?_
      rw [List.nil_append, manyUntil, if_pos (by rwa [next_congr hmore])]
    · have htail : ∀ a rest, item ts = .ok (a, rest) →
          Outcome (fun paren => strings (Sequence (phrase paren)) * 1)
            ((manyUntil stop item : Reader _) >>= fun as => pure (a :: as)) rest := by
        intro a rest hitem
        exact (ih rest (hlt hitem)).bind (guided_pure (a :: [])).sample fun as rest _ =>
          (guided_pure (a :: as)).outcome rest
      simp only [mul_one] at htail
      refine (((h.outcome ts).bind hsample htail).congr fun us hus => ?_).mono ?_
      · exact manyUntil_of_go (by rwa [next_congr hus]) hlt
      · rintro paren _ ⟨us, ⟨a, ha⟩, vs, ⟨as, has⟩, rfl⟩
        exact ⟨a :: as, .cons ha has⟩

lemma guided_separated {phrase : Phrase α} {item : Reader α}
    (h : Guided (fun _ => strings phrase) item) :
    Guided (fun _ => strings (CommaList phrase)) (separated item) := by
  have hcomma : Guided (fun _ => strings (AfterComma phrase))
      (do mark .comma "between items"; item) := by
    refine ((guided_mark _ _).bind fun _ => h).mono fun _ ts hts => ?_
    obtain ⟨_, p, us, rfl, rfl, a, ha⟩ := mem_singles_mul.1 hts
    exact ⟨a, .mk ha⟩
  have hbegins : Begins (AfterComma phrase) fun k => k = .mark .comma := by
    rintro _ a ⟨body⟩
    exact ⟨_, _, rfl, rfl⟩
  have hmany := guided_manyUntil (fun k => !k.isMark .comma) (fun k => k = .mark .comma) hcomma
    hbegins
  refine (h.bind fun a => hmany.bind fun as => guided_pure (a :: as)).mono fun _ ts hts => ?_
  simp only [mul_one, mem_strings_mul] at hts
  obtain ⟨a, us, vs, rfl, ha, as, has⟩ := hts
  exact ⟨a :: as, .mk ha has⟩

end Reader
open Reader

lemma guided_tuple : Guided (fun _ => strings Tuple) tuple := by
  refine ((guided_mark _ _).bind fun _ =>
    (guided_separated (guided_number _)).bind fun values =>
    (guided_mark _ _).bind fun _ => guided_pure values).mono fun _ ts hts => ?_
  simp only [mul_one, mem_singles_mul, mem_strings_mul] at hts
  obtain ⟨_, p, _, rfl, rfl, values, us, _, rfl, hus, _, q, rfl, rfl⟩ := hts
  exact ⟨values, .mk hus⟩

section Values
variable {key : String} {ts : List Token}

lemma guided_tupleList : Guided (fun paren => strings (Value paren)) tupleList := by
  refine ((guided_mark _ _).bind fun _ =>
    (guided_separated guided_tuple).bind fun values =>
    (guided_mark _ _).bind fun _ => guided_pure (Expr.tuples values)).mono fun _ ts hts => ?_
  simp only [mul_one, mem_singles_mul, mem_strings_mul] at hts
  obtain ⟨_, p, _, rfl, rfl, values, us, _, rfl, hus, _, q, rfl, rfl⟩ := hts
  exact ⟨_, .tuples hus⟩

lemma guided_areaReference : Guided (fun paren => strings (Value paren)) areaReference := by
  refine ((guided_mark _ _).bind fun _ =>
    (guided_name _).bind fun area =>
    (guided_mark _ _).bind fun _ => guided_pure (Expr.area area)).mono fun _ ts hts => ?_
  simp only [mul_one, mem_singles_mul] at hts
  obtain ⟨_, p, _, rfl, rfl, _, s, _, rfl, ⟨q, rfl⟩, _, r, rfl, rfl⟩ := hts
  exact ⟨_, .area⟩

/-- A parenthesised value is read as a tuple. -/
lemma outcome_triple (key : String) (ts : List Token) :
    Outcome (fun paren => strings (Value paren)) (triple key) ts := by
  cases guided_tuple.outcome ts with
  | unexpected used ahead expected mem again =>
    obtain ⟨values, hvalues⟩ := mem
    refine .unexpected used ahead expected ⟨_, .paren (.other hvalues)⟩ fun more hmore => ?_
    unfold triple
    rw [again more hmore]
  | arity used ahead tuple count mem stop =>
    -- There is no place for a value within a tuple.
    obtain ⟨values, hvalues⟩ := mem Stub admits_stub _ (.text "") (.inr rfl)
    exact absurd rfl (hvalues.isPlain ⟨.finish, .first⟩ (by simp)).1
  | @read used values rest mem again =>
    obtain ⟨values', htuple⟩ := mem _ admits_triple
    have hcomplete := reads_tuple.complete rest htuple trivial
    obtain rfl : values' = values := by
      rw [again rest rfl] at hcomplete
      cases hcomplete
      rfl
    by_cases hcount : values'.length = 3
    · obtain ⟨a, b, c, rfl⟩ := List.length_eq_three.1 hcount
      refine .read used (.triple a b c) ?_ fun more hmore => ?_
      · exact fun paren hparen => ⟨_, .paren (hparen _ _ (.mk htuple))⟩
      · exact (reads_triple key).complete more (.mk htuple) trivial
    · refine .arity [] [] htuple hcount ?_ (triple_of_tuple hcomplete hcount)
      intro paren _ us e hus
      rw [List.nil_append, List.append_nil]
      exact ⟨e, .paren hus⟩

lemma expr_of_openBracket (h : next ts = .mark .openBracket) : expr key ts = tupleList ts := by
  unfold expr
  rw [h]

lemma expr_of_openAngle (h : next ts = .mark .openAngle) : expr key ts = areaReference ts := by
  unfold expr
  rw [h]

/-- The values that are a single token. -/
def atom : Kind → Option Expr
  | .number v => some (.number v)
  | .integer n => some (.integer n)
  | .text s => some (.text s)
  | k => k.word?.map .name

lemma expr_of_atom (h₁ : next ts ≠ .mark .openBracket) (h₂ : next ts ≠ .mark .openAngle)
    (h₃ : next ts ≠ .mark .openParen) :
    expr key ts = take ("value for attribute '" ++ key ++ "'") atom ts := by
  unfold expr
  split
  · exact absurd ‹_› h₁
  · exact absurd ‹_› h₂
  · exact absurd ‹_› h₃
  · rfl

lemma guided_atom (expected : String) :
    Guided (fun paren => strings (Value paren)) (take expected atom) := by
  refine guided_take (k := .text "") rfl fun ts e h paren => ?_
  obtain ⟨⟨k, p⟩, rfl, hk⟩ := take_eq_ok_iff.1 h
  refine ⟨e, ?_⟩
  cases k with
  | number v => cases hk; exact .number
  | integer n => cases hk; exact .integer
  | text s => cases hk; exact .text
  | name s => cases hk; exact .word .name
  | keyword k => cases hk; exact .word (.keyword (keywordName_word k))
  | mark m => cases hk
  | finish => cases hk

lemma guided_expr (key : String) : Guided (fun paren => strings (Value paren)) (expr key) := by
  refine ⟨⟨.text ""⟩, guided_tupleList.sample, fun ts => ?_⟩
  by_cases h₁ : next ts = .mark .openBracket
  · refine (guided_tupleList.outcome ts).congr fun us hus => ?_
    exact expr_of_openBracket (by rwa [next_congr hus])
  by_cases h₂ : next ts = .mark .openAngle
  · refine (guided_areaReference.outcome ts).congr fun us hus => ?_
    exact expr_of_openAngle (by rwa [next_congr hus])
  by_cases h₃ : next ts = .mark .openParen
  · refine (outcome_triple key ts).congr fun us hus => ?_
    exact expr_of_openParen (by rwa [next_congr hus])
  refine ((guided_atom ("value for attribute '" ++ key ++ "'")).outcome ts).congr fun us hus => ?_
  rw [← next_congr hus] at h₁ h₂ h₃
  exact expr_of_atom h₁ h₂ h₃

end Values

lemma guided_key (context : String) : Guided (fun _ => singles Word) (word context) := by
  refine guided_take (k := .name "") rfl fun ts s h _ => ?_
  obtain ⟨t, rfl, ht⟩ := word_eq_ok_iff.1 h
  exact ⟨t, s, rfl, ht⟩

lemma guided_keyValue : Guided (fun paren => strings (KeyValue paren)) keyValue := by
  refine (guided_place.bind fun position =>
    (guided_key _).bind fun key =>
    (guided_mark _ _).bind fun _ =>
    (guided_expr key).bind fun value =>
    guided_pure (Attribute.mk key value position)).mono fun _ ts hts => ?_
  simp only [one_mul, mul_one, mem_singles_mul] at hts
  obtain ⟨t, key, _, rfl, hword, _, p, us, rfl, rfl, e, he⟩ := hts
  exact ⟨_, .mk hword he⟩

lemma guided_attributeItem : Guided (fun paren => strings (Item paren)) attributeItem := by
  refine (guided_keyValue.bind fun a =>
    (guided_looking _).bind fun _ =>
    ((guided_mark _ _).bind fun _ => guided_pure a).ite (guided_pure a)).mono fun _ ts hts => ?_
  simp only [one_mul, mul_one, mem_strings_mul] at hts
  obtain ⟨a, us, _, rfl, ha, ⟨_, p, rfl, rfl⟩ | rfl⟩ := hts
  · exact ⟨a, .comma ha⟩
  · exact ⟨a, by simpa using Item.plain ha⟩

/-- The token of a kind of task. -/
inductive KindToken : Token → TaskKind → Prop
  | mk {k kind p} (keyword : KindWord k kind) : KindToken ⟨.keyword k, p⟩ kind

lemma guided_taskKind : Guided (fun _ => singles KindToken) taskKind := by
  refine guided_take (k := .keyword .detect) rfl fun ts kind h _ => ?_
  obtain ⟨k, p, rfl, hk⟩ := taskKind_eq_ok_iff.1 h
  exact ⟨_, kind, rfl, .mk hk⟩

lemma guided_taskDecl : Guided (fun paren => strings (Declaration paren)) taskDecl := by
  have hattributes := guided_manyUntil endsBlock (fun k => k.word?.isSome) guided_attributeItem
    (begins_item Triple)
  refine (guided_place.bind fun position =>
    guided_taskKind.bind fun kind =>
    (guided_name _).bind fun name =>
    (guided_mark _ _).bind fun _ =>
    hattributes.bind fun attributes =>
    (guided_mark _ _).bind fun _ =>
    guided_pure (TaskDecl.mk kind name attributes position)).mono fun _ ts hts => ?_
  simp only [one_mul, mul_one, mem_singles_mul, mem_strings_mul] at hts
  obtain ⟨_, kind, _, rfl, ⟨hk⟩, _, name, _, rfl, ⟨q, rfl⟩, _, r, _, rfl, rfl, attributes, us, _,
    rfl, hus, _, s, rfl, rfl⟩ := hts
  exact ⟨_, .mk hk hus⟩

lemma guided_taskBlock :
    Guided (fun paren => ofKind (.keyword .task) * (ofKind (.mark .openBrace) *
      (strings (Sequence (Declaration paren)) * ofKind (.mark .closeBrace)))) taskBlock := by
  have htasks := guided_manyUntil endsBlock (fun k => ∃ w, k = .keyword w) guided_taskDecl
    (begins_declaration Triple)
  refine ((guided_keyword _ _).bind fun _ =>
    (guided_mark _ _).bind fun _ =>
    htasks.bind fun tasks =>
    (guided_mark _ _).bind fun _ => guided_pure tasks).mono fun _ ts hts => ?_
  rwa [mul_one] at hts

lemma guided_argument (condition : String) :
    Guided (fun _ => strings OptionalArgument) (argument condition) := by
  refine ((guided_looking _).bind fun _ =>
    ((guided_mark _ _).bind fun _ =>
      @Guided.bind _ _ (fun _ => singles ArgumentToken) _ _ _ ?_ fun a =>
      (guided_mark _ _).bind fun _ => guided_pure (some a)).ite (guided_pure none)).mono ?_
  · refine guided_take (k := .text "") rfl fun ts a h _ => ?_
    obtain ⟨t, rfl, ht⟩ := take_eq_ok_iff.1 h
    exact ⟨t, a, rfl, argumentToken_iff.1 ht⟩
  · intro _ ts hts
    simp only [one_mul, mul_one, Language.mem_add, mem_singles_mul] at hts
    obtain ⟨_, p, _, rfl, rfl, t, a, _, rfl, ht, _, q, rfl, rfl⟩ | rfl := hts
    · exact ⟨some a, .some ht⟩
    · exact ⟨none, .none⟩

lemma guided_transitionDecl : Guided (fun _ => strings Edge) transitionDecl := by
  refine (guided_place.bind fun position =>
    (guided_keyword _ _).bind fun _ =>
    (guided_mark _ _).bind fun _ =>
    (guided_name _).bind fun condition =>
    (guided_argument condition).bind fun argument =>
    (guided_mark _ _).bind fun _ =>
    (guided_name _).bind fun source =>
    (guided_mark _ _).bind fun _ =>
    (guided_name _).bind fun destination =>
    guided_pure (TransitionDecl.mk condition argument source destination position)).mono
      fun _ ts hts => ?_
  simp only [one_mul, mul_one, mem_singles_mul, mem_strings_mul] at hts
  obtain ⟨_, p, _, rfl, rfl, _, q, _, rfl, rfl, _, condition, _, rfl, ⟨r, rfl⟩, argument, us, _, rfl,
    hus, _, s, _, rfl, rfl, _, source, _, rfl, ⟨u, rfl⟩, _, v, _, rfl, rfl, _, destination, rfl, w,
    rfl⟩ := hts
  exact ⟨_, .mk hus⟩

lemma guided_finish : Guided (fun _ => 1) finish where
  value := ⟨()⟩
  sample := ⟨[], fun _ _ => rfl⟩
  outcome ts := by
    cases ts with
    | nil =>
      refine .read [] () (fun _ _ => rfl) fun more hmore => ?_
      rw [List.head?_nil, List.head?_eq_none_iff] at hmore
      rw [hmore]
      rfl
    | cons t ts =>
      refine .unexpected [] [] "end of input after mission block" rfl fun more hmore => ?_
      obtain ⟨more, rfl⟩ := List.head?_eq_some_iff.1 hmore
      rfl

lemma guided_script : Guided (fun paren => strings (Sentence paren)) script := by
  have hedges := guided_manyUntil (fun k => !k.isKeyword .transition) (fun _ => True)
    guided_transitionDecl (by rintro _ _ ⟨-⟩; exact ⟨_, _, rfl, trivial⟩)
  refine (guided_taskBlock.bind fun tasks =>
    (guided_keyword _ _).bind fun _ =>
    (guided_mark _ _).bind fun _ =>
    (guided_keyword _ _).bind fun _ =>
    (guided_mark _ _).bind fun _ =>
    guided_place.bind fun position =>
    (guided_name _).bind fun start =>
    hedges.bind fun transitions =>
    (guided_mark _ _).bind fun _ =>
    guided_finish.bind fun _ =>
    guided_pure (Script.mk tasks start position transitions)).mono fun _ ts hts => ?_
  simp only [mul_assoc, one_mul, mul_one, mem_singles_mul, mem_strings_mul] at hts
  obtain ⟨_, p, _, rfl, rfl, _, q, _, rfl, rfl, tasks, us, _, rfl, hus, _, r, _, rfl, rfl, _, s, _,
    rfl, rfl, _, t, _, rfl, rfl, _, u, _, rfl, rfl, _, v, _, rfl, rfl, _, start, _, rfl, ⟨w, rfl⟩,
    transitions, vs, _, rfl, hvs, _, x, rfl, rfl⟩ := hts
  exact ⟨_, by simpa using Sentence.mk hus hvs⟩

end Sortie.Script
