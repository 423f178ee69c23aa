import Sortie.Script.Parse
import Sortie.Proofs.Script.Grammar

/-! The reader accepts exactly the sentences of the grammar. -/
namespace Sortie.Script
open Grammar

namespace Reader
variable {α β : Type}

lemma bind_eq_ok_iff {x : Reader α} {f : α → Reader β} {ts : List Token} {b : β}
    {rest : List Token} :
    (x >>= f) ts = .ok (b, rest) ↔ ∃ a mid, x ts = .ok (a, mid) ∧ f a mid = .ok (b, rest) := by
  change Reader.bind x f ts = .ok (b, rest) ↔ _
  unfold Reader.bind
  cases h : x ts with
  | error e => simp
  | ok r =>
    obtain ⟨a, mid⟩ := r
    simp

lemma bind_of_ok {x : Reader α} {ts mid : List Token} {a : α} (h : x ts = .ok (a, mid))
    (f : α → Reader β) : (x >>= f) ts = f a mid := by
  change Reader.bind x f ts = f a mid
  simp only [Reader.bind, h]

lemma pure_eq_ok_iff {a b : α} {ts rest : List Token} :
    (pure a : Reader α) ts = .ok (b, rest) ↔ a = b ∧ ts = rest := by
  change Reader.pure a ts = .ok (b, rest) ↔ _
  simp [Reader.pure]

lemma take_eq_ok_iff {expected : String} {choose : Kind → Option α} {a : α}
    {ts rest : List Token} :
    take expected choose ts = .ok (a, rest) ↔ ∃ t, ts = t :: rest ∧ choose t.kind = some a := by
  cases ts with
  | nil => simp [take]
  | cons t us =>
    cases h : choose t.kind with
    | none =>
      simp only [take, h, List.cons.injEq, reduceCtorEq, false_iff]
      rintro ⟨u, ⟨rfl, -⟩, hu⟩
      rw [h] at hu
      cases hu
    | some b =>
      simp only [take, h, List.cons.injEq, Except.ok.injEq, Prod.mk.injEq]
      constructor
      · rintro ⟨rfl, rfl⟩
        exact ⟨t, ⟨rfl, rfl⟩, h⟩
      · rintro ⟨u, ⟨rfl, rfl⟩, hu⟩
        rw [h] at hu
        exact ⟨Option.some.inj hu, rfl⟩

lemma mark_eq_ok_iff {m : Mark} {context : String} {u : Unit} {ts rest : List Token} :
    mark m context ts = .ok (u, rest) ↔ ∃ p, ts = ⟨.mark m, p⟩ :: rest := by
  unfold mark
  rw [take_eq_ok_iff]
  constructor
  · rintro ⟨⟨k, p⟩, rfl, hk⟩
    cases k with
    | mark n =>
      obtain rfl : m = n := by simpa [Kind.isMark] using hk
      exact ⟨p, rfl⟩
    | _ => simp [Kind.isMark] at hk
  · rintro ⟨p, rfl⟩
    exact ⟨_, rfl, by simp [Kind.isMark]⟩

lemma mark_cons (m : Mark) (context : String) (p : Position) (rest : List Token) :
    mark m context (⟨.mark m, p⟩ :: rest) = .ok ((), rest) := mark_eq_ok_iff.2 ⟨p, rfl⟩

lemma keyword_eq_ok_iff {k : Keyword} {context : String} {u : Unit} {ts rest : List Token} :
    keyword k context ts = .ok (u, rest) ↔ ∃ p, ts = ⟨.keyword k, p⟩ :: rest := by
  unfold keyword
  rw [take_eq_ok_iff]
  constructor
  · rintro ⟨⟨l, p⟩, rfl, hl⟩
    cases l with
    | keyword l =>
      obtain rfl : k = l := by simpa [Kind.isKeyword] using hl
      exact ⟨p, rfl⟩
    | _ => simp [Kind.isKeyword] at hl
  · rintro ⟨p, rfl⟩
    exact ⟨_, rfl, by simp [Kind.isKeyword]⟩

lemma keyword_cons (k : Keyword) (context : String) (p : Position) (rest : List Token) :
    keyword k context (⟨.keyword k, p⟩ :: rest) = .ok ((), rest) := keyword_eq_ok_iff.2 ⟨p, rfl⟩

lemma name_eq_ok_iff {context s : String} {ts rest : List Token} :
    name context ts = .ok (s, rest) ↔ ∃ p, ts = ⟨.name s, p⟩ :: rest := by
  unfold name
  rw [take_eq_ok_iff]
  constructor
  · rintro ⟨⟨k, p⟩, rfl, hk⟩
    cases k with
    | name w =>
      obtain rfl : w = s := by simpa using hk
      exact ⟨p, rfl⟩
    | _ => simp at hk
  · rintro ⟨p, rfl⟩
    exact ⟨_, rfl, rfl⟩

lemma keywordName_word (k : Keyword) : KeywordName k k.word := by
  cases k <;> constructor

lemma word?_eq_some_iff {t : Token} {s : String} : t.kind.word? = some s ↔ Word t s := by
  obtain ⟨k, p⟩ := t
  constructor
  · intro h
    cases k with
    | name w =>
      obtain rfl : w = s := by simpa [Kind.word?] using h
      exact .name
    | keyword k =>
      obtain rfl : k.word = s := by simpa [Kind.word?] using h
      exact .keyword (keywordName_word k)
    | _ => simp [Kind.word?] at h
  · intro h
    cases h with
    | name => rfl
    | keyword hname => cases hname <;> rfl

lemma value?_eq_some_iff {t : Token} {v : Float} : t.kind.value? = some v ↔ Number [t] v := by
  obtain ⟨k, p⟩ := t
  constructor
  · intro h
    cases k with
    | number w =>
      obtain rfl : w = v := by simpa [Kind.value?] using h
      exact .number
    | integer n =>
      obtain rfl : n.toFloat = v := by simpa [Kind.value?] using h
      exact .integer
    | _ => simp [Kind.value?] at h
  · intro h
    cases h <;> rfl

lemma word_eq_ok_iff {context s : String} {ts rest : List Token} :
    word context ts = .ok (s, rest) ↔ ∃ t, ts = t :: rest ∧ Word t s := by
  unfold word
  simp only [take_eq_ok_iff, word?_eq_some_iff]

lemma number_eq_ok_iff {context : String} {v : Float} {ts rest : List Token} :
    number context ts = .ok (v, rest) ↔ ∃ t, ts = t :: rest ∧ Number [t] v := by
  unfold number
  simp only [take_eq_ok_iff, value?_eq_some_iff]

lemma looking_eq_ok_iff {test : Kind → Bool} {b : Bool} {ts rest : List Token} :
    looking test ts = .ok (b, rest) ↔ test (next ts) = b ∧ ts = rest := by
  simp [looking]

/-- The place that is recorded for what begins here. -/
def headPosition : List Token → Position
  | [] => .first
  | t :: _ => t.position

lemma place_eq_ok_iff {p : Position} {ts rest : List Token} :
    place ts = .ok (p, rest) ↔ headPosition ts = p ∧ ts = rest := by
  cases ts <;> simp [place, headPosition]

/-- A reader takes the phrases of the grammar off the tokens, provided that what follows cannot
continue the phrase. -/
structure Reads (r : Reader α) (phrase : Phrase α) (follow : Kind → Prop) : Prop where
  sound : ∀ {ts a rest}, r ts = .ok (a, rest) → ∃ used, ts = used ++ rest ∧ phrase used a
  complete : ∀ {used a} rest, phrase used a → follow (next rest) → r (used ++ rest) = .ok (a, rest)

/-- Every phrase has a first token, and it is of the given kind. -/
def Begins (phrase : Phrase α) (first : Kind → Prop) : Prop :=
  ∀ {ts a}, phrase ts a → ∃ t us, ts = t :: us ∧ first t.kind

lemma Begins.next_sequence {phrase : Phrase α} {first : Kind → Prop} (h : Begins phrase first)
    {ts : List Token} {as : List α} (hs : Sequence phrase ts as) (rest : List Token) :
    first (next (ts ++ rest)) ∨ ts = [] := by
  cases hs with
  | nil => exact .inr rfl
  | cons head tail =>
    obtain ⟨t, us, rfl, ht⟩ := h head
    exact .inl ht

section ManyUntil
variable {stop : Kind → Bool} {item : Reader α} {phrase : Phrase α} {follow first : Kind → Prop}

lemma manyUntil_sound (h : Reads item phrase follow) (hb : Begins phrase first)
    {ts : List Token} {as : List α} {rest : List Token}
    (hr : manyUntil stop item ts = .ok (as, rest)) :
    ∃ used, ts = used ++ rest ∧ Sequence phrase used as := by
  fun_induction manyUntil stop item ts generalizing as with
  | case1 ts hstop =>
    cases hr
    exact ⟨[], rfl, .nil⟩
  | case2 => cases hr
  | case3 => cases hr
  | case4 ts hstop a mid hitem hlt as' rest' hmany ih =>
    cases hr
    obtain ⟨used, rfl, hused⟩ := h.sound hitem
    obtain ⟨more, rfl, hmore⟩ := ih hmany
    exact ⟨used ++ more, by simp, .cons hused hmore⟩
  | case5 ts hstop a mid hitem hlt =>
    -- An item has a first token, so something was taken and the guard holds.
    obtain ⟨used, rfl, hused⟩ := h.sound hitem
    obtain ⟨t, us, rfl, -⟩ := hb hused
    simp only [List.length_append, List.length_cons] at hlt
    omega

lemma manyUntil_complete (h : Reads item phrase follow) (hb : Begins phrase first)
    (hgo : ∀ k, first k → stop k = false) (hnext : ∀ k, first k → follow k)
    (hlast : ∀ k, stop k = true → follow k) {used : List Token} {as : List α}
    (hs : Sequence phrase used as) (rest : List Token) (hrest : stop (next rest) = true) :
    manyUntil stop item (used ++ rest) = .ok (as, rest) := by
  induction hs with
  | nil =>
    rw [List.nil_append, manyUntil, if_pos hrest]
  | @cons ts us a as head tail ih =>
    obtain ⟨t, vs, hts, ht⟩ := hb head
    have hstop : ¬ stop (next (ts ++ us ++ rest)) = true := by
      rw [hts]
      simpa [next] using hgo _ ht
    have hfollow : follow (next (us ++ rest)) := by
      rcases hb.next_sequence tail rest with hfirst | rfl
      · exact hnext _ hfirst
      · exact hlast _ hrest
    have hitem : item (ts ++ us ++ rest) = .ok (a, us ++ rest) := by
      rw [List.append_assoc]
      exact h.complete _ head hfollow
    have hlt : (us ++ rest).length < (ts ++ us ++ rest).length := by
      simp only [hts, List.length_append, List.length_cons]
      omega
    rw [manyUntil, if_neg hstop]
    simp only [hitem, if_pos hlt, ih]

end ManyUntil

lemma reads_manyUntil (stop : Kind → Bool) (first : Kind → Prop) {item : Reader α}
    {phrase : Phrase α} {follow : Kind → Prop} (h : Reads item phrase follow)
    (hb : Begins phrase first) (hgo : ∀ k, first k → stop k = false)
    (hnext : ∀ k, first k → follow k) (hlast : ∀ k, stop k = true → follow k) :
    Reads (manyUntil stop item) (Sequence phrase) (fun k => stop k = true) where
  sound hr := manyUntil_sound h hb hr
  complete rest hs hrest := manyUntil_complete h hb hgo hnext hlast hs rest hrest

lemma reads_separated {item : Reader α} {phrase : Phrase α}
    (h : Reads item phrase fun _ => True) :
    Reads (separated item) (CommaList phrase) (fun k => k.isMark .comma = false) := by
  have hcomma : Reads (do mark .comma "between items"; item) (AfterComma phrase) fun _ => True := by
    constructor
    · intro ts a rest hr
      obtain ⟨u, mid, hmark, hitem⟩ := bind_eq_ok_iff.1 hr
      obtain ⟨p, rfl⟩ := mark_eq_ok_iff.1 hmark
      obtain ⟨used, rfl, hused⟩ := h.sound hitem
      exact ⟨_, rfl, .mk hused⟩
    · rintro _ a rest ⟨body⟩ -
      exact bind_eq_ok_iff.2 ⟨(), _, mark_eq_ok_iff.2 ⟨_, rfl⟩, h.complete rest body trivial⟩
  have hbegins : Begins (AfterComma phrase) fun k => k = .mark .comma := by
    rintro _ a ⟨body⟩
    exact ⟨_, _, rfl, rfl⟩
  have hmany := reads_manyUntil (fun k => !k.isMark .comma) (fun k => k = .mark .comma) hcomma
    hbegins (by rintro k rfl; rfl) (fun _ _ => trivial) (fun _ _ => trivial)
  unfold separated
  constructor
  · intro ts as rest hr
    obtain ⟨a, mid, hitem, hr⟩ := bind_eq_ok_iff.1 hr
    obtain ⟨as', mid', hrest, hr⟩ := bind_eq_ok_iff.1 hr
    obtain ⟨rfl, rfl⟩ := pure_eq_ok_iff.1 hr
    obtain ⟨used, rfl, hused⟩ := h.sound hitem
    obtain ⟨more, rfl, hmore⟩ := hmany.sound hrest
    exact ⟨used ++ more, by simp, .mk hused hmore⟩
  · rintro _ _ rest ⟨head, tail⟩ hfollow
    rw [List.append_assoc, bind_of_ok (h.complete _ head trivial),
      bind_of_ok (hmany.complete rest tail (by simp [hfollow]))]
    rfl

lemma reads_number (context : String) : Reads (number context) Number fun _ => True := by
  constructor
  · intro ts v rest hr
    obtain ⟨t, rfl, ht⟩ := number_eq_ok_iff.1 hr
    exact ⟨[t], rfl, ht⟩
  · intro used v rest hn _
    apply number_eq_ok_iff.2
    cases hn with
    | number => exact ⟨_, rfl, .number⟩
    | integer => exact ⟨_, rfl, .integer⟩

end Reader
open Reader

lemma reads_tuple : Reads tuple Tuple fun _ => True := by
  have hvalues := reads_separated (reads_number "in tuple")
  unfold tuple
  constructor
  · intro ts values rest hr
    simp only [bind_eq_ok_iff, pure_eq_ok_iff, mark_eq_ok_iff] at hr
    obtain ⟨-, _, ⟨p, rfl⟩, values', mid, hsep, -, _, ⟨q, rfl⟩, rfl, rfl⟩ := hr
    obtain ⟨used, rfl, hused⟩ := hvalues.sound hsep
    exact ⟨_, by simp, Tuple.mk (p := p) (q := q) hused⟩
  · rintro _ values rest ⟨body⟩ -
    simp only [List.cons_append, List.append_assoc, List.nil_append]
    rw [bind_of_ok (mark_cons _ _ _ _), bind_of_ok (hvalues.complete _ body rfl),
      bind_of_ok (mark_cons _ _ _ _)]
    rfl

section Values
variable {paren : Phrase Expr} {key : String}

lemma tupleList_sound {ts : List Token} {e : Expr} {rest : List Token}
    (h : tupleList ts = .ok (e, rest)) : ∃ used, ts = used ++ rest ∧ Value paren used e := by
  have hsep := reads_separated reads_tuple
  unfold tupleList at h
  simp only [bind_eq_ok_iff, pure_eq_ok_iff, mark_eq_ok_iff] at h
  obtain ⟨-, _, ⟨p, rfl⟩, vs, mid, hvs, -, _, ⟨q, rfl⟩, rfl, rfl⟩ := h
  obtain ⟨used, rfl, hused⟩ := hsep.sound hvs
  exact ⟨_, by simp, Value.tuples (p := p) (q := q) hused⟩

lemma areaReference_sound {ts : List Token} {e : Expr} {rest : List Token}
    (h : areaReference ts = .ok (e, rest)) : ∃ used, ts = used ++ rest ∧ Value paren used e := by
  unfold areaReference at h
  simp only [bind_eq_ok_iff, pure_eq_ok_iff, mark_eq_ok_iff, name_eq_ok_iff] at h
  obtain ⟨-, _, ⟨p, rfl⟩, s, _, ⟨q, rfl⟩, -, _, ⟨r, rfl⟩, rfl, rfl⟩ := h
  exact ⟨_, by simp, Value.area (p := p) (q := q) (r := r)⟩

lemma reads_triple (key : String) : Reads (triple key) Triple fun _ => True := by
  constructor
  · intro ts e rest h
    unfold triple at h
    split at h
    · cases h
    · rename_i heq
      cases h
      obtain ⟨used, rfl, hused⟩ := reads_tuple.sound heq
      exact ⟨used, rfl, .mk hused⟩
    · cases h
  · rintro _ _ rest ⟨body⟩ -
    unfold triple
    rw [reads_tuple.complete rest body trivial]

lemma reads_expr (key : String) : Reads (expr key) (Value Triple) fun _ => True := by
  constructor
  · intro ts e rest h
    unfold expr at h
    split at h
    · exact tupleList_sound h
    · exact areaReference_sound h
    · obtain ⟨used, rfl, hused⟩ := (reads_triple key).sound h
      exact ⟨used, rfl, .paren hused⟩
    · obtain ⟨⟨k, p⟩, rfl, hk⟩ := take_eq_ok_iff.1 h
      refine ⟨[⟨k, p⟩], rfl, ?_⟩
      cases k with
      | number v => cases hk; exact .number
      | integer n => cases hk; exact .integer
      | text s => cases hk; exact .text
      | name s => cases hk; exact .word .name
      | keyword k => cases hk; exact .word (.keyword (keywordName_word k))
      | mark m => cases hk
      | finish => cases hk
  · intro used e rest h _
    cases h with
    | number => rfl
    | integer => rfl
    | text => rfl
    | word h =>
      cases h with
      | name => rfl
      | keyword hname => cases hname <;> rfl
    | tuples body =>
      simp only [List.cons_append, List.append_assoc, List.nil_append]
      change tupleList _ = _
      unfold tupleList
      rw [bind_of_ok (mark_cons _ _ _ _),
        bind_of_ok ((reads_separated reads_tuple).complete _ body rfl),
        bind_of_ok (mark_cons _ _ _ _)]
      rfl
    | area => rfl
    | paren body =>
      have hread := (reads_triple key).complete rest body trivial
      obtain ⟨⟨-⟩⟩ := body
      exact hread

end Values

lemma reads_keyValue : Reads keyValue (KeyValue Triple) fun _ => True := by
  unfold keyValue
  constructor
  · intro ts a rest hr
    simp only [bind_eq_ok_iff, pure_eq_ok_iff, mark_eq_ok_iff, word_eq_ok_iff, place_eq_ok_iff] at hr
    obtain ⟨_, _, ⟨rfl, rfl⟩, key, _, ⟨t, rfl, ht⟩, -, _, ⟨q, rfl⟩, e, _, hexpr, rfl, rfl⟩ := hr
    obtain ⟨used, rfl, hused⟩ := (reads_expr key).sound hexpr
    exact ⟨_, by simp, KeyValue.mk (p := q) ht hused⟩
  · rintro _ _ rest ⟨hword, hvalue⟩ -
    simp only [List.cons_append]
    rw [bind_of_ok (place_eq_ok_iff.2 ⟨rfl, rfl⟩), bind_of_ok (word_eq_ok_iff.2 ⟨_, rfl, hword⟩),
      bind_of_ok (mark_cons _ _ _ _), bind_of_ok ((reads_expr _).complete rest hvalue trivial)]
    rfl

lemma reads_attributeItem :
    Reads attributeItem (Item Triple) (fun k => k.isMark .comma = false) := by
  unfold attributeItem
  constructor
  · intro ts a rest hr
    obtain ⟨b, mid, hkv, hr₁⟩ := bind_eq_ok_iff.1 hr
    obtain ⟨comma, mid', hlook, hr₂⟩ := bind_eq_ok_iff.1 hr₁
    obtain ⟨rfl, rfl⟩ := looking_eq_ok_iff.1 hlook
    obtain ⟨used, rfl, hused⟩ := reads_keyValue.sound hkv
    by_cases hc : (next mid).isMark .comma = true
    · simp only [if_pos hc, bind_eq_ok_iff, pure_eq_ok_iff, mark_eq_ok_iff] at hr₂
      obtain ⟨-, _, ⟨p, rfl⟩, rfl, rfl⟩ := hr₂
      exact ⟨_, by simp, Item.comma (p := p) hused⟩
    · simp only [if_neg hc, pure_eq_ok_iff] at hr₂
      obtain ⟨rfl, rfl⟩ := hr₂
      exact ⟨used, rfl, .plain hused⟩
  · rintro _ a rest (hbody | hbody) hfollow
    · rw [bind_of_ok (reads_keyValue.complete rest hbody trivial),
        bind_of_ok (looking_eq_ok_iff.2 ⟨hfollow, rfl⟩)]
      rfl
    · rw [List.append_assoc, bind_of_ok (reads_keyValue.complete _ hbody trivial),
        bind_of_ok (looking_eq_ok_iff.2 ⟨rfl, rfl⟩)]
      rfl

/-- Attributes and their names begin with an identifier or a keyword. -/
lemma begins_item (paren : Phrase Expr) : Begins (Item paren) fun k => k.word?.isSome := by
  have hkv : ∀ {ts a}, KeyValue paren ts a → ∃ t us, ts = t :: us ∧ t.kind.word?.isSome := by
    rintro _ _ ⟨hword, -⟩
    refine ⟨_, _, rfl, ?_⟩
    rw [word?_eq_some_iff.2 hword]
    rfl
  intro ts a h
  cases h with
  | plain body => exact hkv body
  | comma body =>
    obtain ⟨t, us, rfl, ht⟩ := hkv body
    exact ⟨t, us ++ [_], rfl, ht⟩

lemma endsBlock_of_word (k : Kind) (h : k.word?.isSome) : endsBlock k = false := by
  cases k <;> simp_all [Kind.word?, endsBlock]

lemma isMark_comma_of_word (k : Kind) (h : k.word?.isSome) : k.isMark .comma = false := by
  cases k <;> simp_all [Kind.word?, Kind.isMark]

lemma isMark_comma_of_endsBlock (k : Kind) (h : endsBlock k = true) : k.isMark .comma = false := by
  unfold endsBlock at h
  split at h <;> simp_all [Kind.isMark]

lemma reads_attributes : Reads (manyUntil endsBlock attributeItem) (Sequence (Item Triple))
    (fun k => endsBlock k = true) :=
  reads_manyUntil endsBlock (fun k => k.word?.isSome) reads_attributeItem (begins_item Triple)
    endsBlock_of_word isMark_comma_of_word isMark_comma_of_endsBlock

lemma ofKeyword?_eq_some_iff {k : Keyword} {kind : TaskKind} :
    TaskKind.ofKeyword? k = some kind ↔ KindWord k kind := by
  constructor
  · intro h
    cases k <;> cases h <;> constructor
  · rintro (_ | _ | _ | _) <;> rfl

lemma taskKind_eq_ok_iff {kind : TaskKind} {ts rest : List Token} :
    taskKind ts = .ok (kind, rest) ↔ ∃ k p, ts = ⟨.keyword k, p⟩ :: rest ∧ KindWord k kind := by
  unfold taskKind
  rw [take_eq_ok_iff]
  constructor
  · rintro ⟨⟨k, p⟩, rfl, hk⟩
    cases k with
    | keyword k => exact ⟨k, p, rfl, ofKeyword?_eq_some_iff.1 hk⟩
    | _ => cases hk
  · rintro ⟨k, p, rfl, hk⟩
    exact ⟨_, rfl, ofKeyword?_eq_some_iff.2 hk⟩

lemma reads_taskDecl : Reads taskDecl (Declaration Triple) fun _ => True := by
  unfold taskDecl
  constructor
  · intro ts a rest hr
    simp only [bind_eq_ok_iff, mark_eq_ok_iff, name_eq_ok_iff, taskKind_eq_ok_iff,
      place_eq_ok_iff] at hr
    obtain ⟨_, _, ⟨rfl, rfl⟩, kind, _, ⟨k, p, rfl, hk⟩, name, _, ⟨q, rfl⟩, -, _, ⟨r, rfl⟩, hr₁⟩ := hr
    obtain ⟨attributes, mid, hattrs, hr₂⟩ := bind_eq_ok_iff.1 hr₁
    simp only [bind_eq_ok_iff, pure_eq_ok_iff, mark_eq_ok_iff] at hr₂
    obtain ⟨-, _, ⟨s, rfl⟩, rfl, rfl⟩ := hr₂
    obtain ⟨used, rfl, hused⟩ := reads_attributes.sound hattrs
    exact ⟨_, by simp, Declaration.mk (p := p) (q := q) (r := r) (s := s) hk hused⟩
  · rintro _ _ rest ⟨hk, hbody⟩ -
    simp only [List.cons_append, List.append_assoc, List.nil_append]
    rw [bind_of_ok (place_eq_ok_iff.2 ⟨rfl, rfl⟩), bind_of_ok (taskKind_eq_ok_iff.2 ⟨_, _, rfl, hk⟩),
      bind_of_ok (name_eq_ok_iff.2 ⟨_, rfl⟩), bind_of_ok (mark_cons _ _ _ _),
      bind_of_ok (reads_attributes.complete _ hbody rfl), bind_of_ok (mark_cons _ _ _ _)]
    rfl

lemma begins_declaration (paren : Phrase Expr) :
    Begins (Declaration paren) fun k => ∃ w, k = .keyword w := by
  rintro _ _ ⟨-, -⟩
  exact ⟨_, _, rfl, _, rfl⟩

lemma reads_tasks : Reads (manyUntil endsBlock taskDecl) (Sequence (Declaration Triple))
    (fun k => endsBlock k = true) := by
  refine reads_manyUntil endsBlock (fun k => ∃ w, k = .keyword w) reads_taskDecl
    (begins_declaration Triple) ?_ (fun _ _ => trivial) (fun _ _ => trivial)
  rintro _ ⟨w, rfl⟩
  rfl

lemma taskBlock_eq_ok_iff {tasks : List TaskDecl} {ts rest : List Token} :
    taskBlock ts = .ok (tasks, rest) ↔
      ∃ p q r used, ts = ⟨.keyword .task, p⟩ :: ⟨.mark .openBrace, q⟩ ::
        (used ++ ⟨.mark .closeBrace, r⟩ :: rest) ∧ Sequence (Declaration Triple) used tasks := by
  unfold taskBlock
  constructor
  · intro hr
    simp only [bind_eq_ok_iff, mark_eq_ok_iff, keyword_eq_ok_iff] at hr
    obtain ⟨-, _, ⟨p, rfl⟩, -, _, ⟨q, rfl⟩, hr₁⟩ := hr
    obtain ⟨tasks', mid, hmany, hr₂⟩ := bind_eq_ok_iff.1 hr₁
    simp only [bind_eq_ok_iff, pure_eq_ok_iff, mark_eq_ok_iff] at hr₂
    obtain ⟨-, _, ⟨r, rfl⟩, rfl, rfl⟩ := hr₂
    obtain ⟨used, rfl, hused⟩ := reads_tasks.sound hmany
    exact ⟨p, q, r, used, rfl, hused⟩
  · rintro ⟨p, q, r, used, rfl, hused⟩
    rw [bind_of_ok (keyword_cons _ _ _ _), bind_of_ok (mark_cons _ _ _ _),
      bind_of_ok (reads_tasks.complete _ hused rfl), bind_of_ok (mark_cons _ _ _ _)]
    rfl

lemma argumentToken_iff {t : Token} {a : Argument} :
    (match t.kind with
      | .text s => some (Argument.text s)
      | k => (k.word?.map Argument.text).or (k.value?.map Argument.number)) = some a ↔
      ArgumentToken t a := by
  obtain ⟨k, p⟩ := t
  constructor
  · intro h
    cases k with
    | text s => cases h; exact .text
    | name s => cases h; exact .word .name
    | keyword k => cases h; exact .word (.keyword (keywordName_word k))
    | number v => cases h; exact .number .number
    | integer n => cases h; exact .number .integer
    | mark m => cases h
    | finish => cases h
  · intro h
    cases h with
    | text => rfl
    | word h =>
      cases h with
      | name => rfl
      | keyword hname => cases hname <;> rfl
    | number h => cases h <;> rfl

lemma reads_argument (condition : String) :
    Reads (argument condition) OptionalArgument (fun k => k.isMark .openParen = false) := by
  unfold argument
  constructor
  · intro ts a rest hr
    obtain ⟨parens, mid, hlook, hr₁⟩ := bind_eq_ok_iff.1 hr
    obtain ⟨rfl, rfl⟩ := looking_eq_ok_iff.1 hlook
    by_cases hp : (next ts).isMark .openParen = true
    · simp only [if_pos hp, bind_eq_ok_iff, pure_eq_ok_iff, mark_eq_ok_iff, take_eq_ok_iff] at hr₁
      obtain ⟨-, _, ⟨p, rfl⟩, b, _, ⟨t, rfl, ht⟩, -, _, ⟨q, rfl⟩, rfl, rfl⟩ := hr₁
      exact ⟨_, by simp, OptionalArgument.some (p := p) (q := q) (argumentToken_iff.1 ht)⟩
    · simp only [if_neg hp, pure_eq_ok_iff] at hr₁
      obtain ⟨rfl, rfl⟩ := hr₁
      exact ⟨[], rfl, .none⟩
  · intro used a rest h hfollow
    cases h with
    | none =>
      rw [List.nil_append, bind_of_ok (looking_eq_ok_iff.2 ⟨hfollow, rfl⟩)]
      rfl
    | some body =>
      simp only [List.cons_append, List.nil_append]
      rw [bind_of_ok (looking_eq_ok_iff.2 ⟨rfl, rfl⟩)]
      change (mark .openParen _ >>= _) _ = _
      rw [bind_of_ok (mark_cons _ _ _ _),
        bind_of_ok (take_eq_ok_iff.2 ⟨_, rfl, argumentToken_iff.2 body⟩),
        bind_of_ok (mark_cons _ _ _ _)]
      rfl

lemma reads_transitionDecl : Reads transitionDecl Edge fun _ => True := by
  unfold transitionDecl
  constructor
  · intro ts a rest hr
    simp only [bind_eq_ok_iff, pure_eq_ok_iff, mark_eq_ok_iff, name_eq_ok_iff, keyword_eq_ok_iff,
      place_eq_ok_iff] at hr
    obtain ⟨_, _, ⟨rfl, rfl⟩, -, _, ⟨p, rfl⟩, -, _, ⟨q, rfl⟩, condition, _, ⟨r, rfl⟩, arg, _, harg,
      -, _, ⟨s, rfl⟩, source, _, ⟨u, rfl⟩, -, _, ⟨v, rfl⟩, destination, _, ⟨w, rfl⟩, rfl, rfl⟩ := hr
    obtain ⟨used, rfl, hused⟩ := (reads_argument condition).sound harg
    exact ⟨_, by simp, Edge.mk (p := p) (q := q) (r := r) (s := s) (u := u) (v := v) (w := w) hused⟩
  · rintro _ _ rest ⟨hargument⟩ -
    simp only [List.cons_append, List.append_assoc, List.nil_append]
    rw [bind_of_ok (place_eq_ok_iff.2 ⟨rfl, rfl⟩), bind_of_ok (keyword_cons _ _ _ _),
      bind_of_ok (mark_cons _ _ _ _), bind_of_ok (name_eq_ok_iff.2 ⟨_, rfl⟩),
      bind_of_ok ((reads_argument _).complete _ hargument rfl), bind_of_ok (mark_cons _ _ _ _),
      bind_of_ok (name_eq_ok_iff.2 ⟨_, rfl⟩), bind_of_ok (mark_cons _ _ _ _),
      bind_of_ok (name_eq_ok_iff.2 ⟨_, rfl⟩)]
    rfl

lemma reads_transitions :
    Reads (manyUntil (fun k => !k.isKeyword .transition) transitionDecl) (Sequence Edge)
      (fun k => (!k.isKeyword .transition) = true) := by
  refine reads_manyUntil _ (fun k => k = .keyword .transition) reads_transitionDecl ?_ ?_
    (fun _ _ => trivial) (fun _ _ => trivial)
  · rintro _ _ ⟨-⟩
    exact ⟨_, _, rfl, rfl⟩
  · rintro _ rfl
    rfl

lemma finish_eq_ok_iff {u : Unit} {ts rest : List Token} :
    finish ts = .ok (u, rest) ↔ ts = [] ∧ rest = [] := by
  cases ts <;> simp [finish, eq_comm]

lemma script_eq_ok_iff {s : Script} {ts rest : List Token} :
    script ts = .ok (s, rest) ↔ rest = [] ∧ Sentence Triple ts s := by
  unfold script
  constructor
  · intro hr
    simp only [bind_eq_ok_iff, mark_eq_ok_iff, keyword_eq_ok_iff, name_eq_ok_iff,
      place_eq_ok_iff, taskBlock_eq_ok_iff] at hr
    obtain ⟨tasks, _, ⟨p, q, r, used, rfl, hused⟩, -, _, ⟨s, rfl⟩, -, _, ⟨t, rfl⟩, -, _, ⟨u, rfl⟩,
      -, _, ⟨v, rfl⟩, _, _, ⟨rfl, rfl⟩, start, _, ⟨w, rfl⟩, hr₁⟩ := hr
    obtain ⟨transitions, mid, hedges, hr₂⟩ := bind_eq_ok_iff.1 hr₁
    simp only [bind_eq_ok_iff, pure_eq_ok_iff, mark_eq_ok_iff, finish_eq_ok_iff] at hr₂
    obtain ⟨-, _, ⟨x, rfl⟩, -, _, ⟨rfl, rfl⟩, rfl, rfl⟩ := hr₂
    obtain ⟨more, rfl, hmore⟩ := reads_transitions.sound hedges
    refine ⟨rfl, ?_⟩
    simpa [headPosition] using Sentence.mk (p := p) (q := q) (r := r) (s := s) (t := t) (u := u)
      (v := v) (w := w) (x := x) hused hmore
  · rintro ⟨rfl, ⟨htasks, hedges⟩⟩
    simp only [List.cons_append, List.append_assoc]
    rw [bind_of_ok (taskBlock_eq_ok_iff.2 ⟨_, _, _, _, rfl, htasks⟩),
      bind_of_ok (keyword_cons _ _ _ _), bind_of_ok (mark_cons _ _ _ _),
      bind_of_ok (keyword_cons _ _ _ _), bind_of_ok (mark_cons _ _ _ _),
      bind_of_ok (place_eq_ok_iff.2 ⟨rfl, rfl⟩), bind_of_ok (name_eq_ok_iff.2 ⟨_, rfl⟩),
      bind_of_ok (reads_transitions.complete _ hedges rfl), bind_of_ok (mark_cons _ _ _ _)]
    rfl

/-! The end of the input. -/

lemma content_cons (t : Token) (ts : List Token) :
    content (t :: ts) = match t.kind with
      | .finish => []
      | _ => t :: content ts := by
  unfold content
  rw [List.takeWhile_cons]
  cases t.kind <;> rfl

lemma parse_eq_ok_iff {ts : List Token} {s : Script} :
    parse ts = .ok s ↔ Sentence Triple (content ts) s := by
  have hscript : parse ts = .ok s ↔ ∃ rest, script (content ts) = .ok (s, rest) := by
    unfold parse
    cases script (content ts) with
    | error stop => simp
    | ok r =>
      obtain ⟨s', rest⟩ := r
      simp
  rw [hscript]
  simp [script_eq_ok_iff]

/-- The place that an end mark gets when it is missing. -/
def lastPosition (ts : List Token) : Position :=
  match ts.getLast? with
  | some t => t.position
  | none => .first

end Sortie.Script
