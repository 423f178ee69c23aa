import Mathlib.Tactic.Common
import Sortie.Script

/-! The grammar of mission scripts. A phrase relates a run of tokens to the piece of syntax that it
stands for; the place of a piece is the place of its first token. -/
namespace Sortie.Script

abbrev Phrase (α : Type) : Type := List Token → α → Prop

namespace Grammar
variable {α : Type}

/-- Any number of items, one after the other. -/
inductive Sequence (item : Phrase α) : Phrase (List α)
  | nil : Sequence item [] []
  | cons {ts us a as} (head : item ts a) (tail : Sequence item us as) :
      Sequence item (ts ++ us) (a :: as)

inductive AfterComma (item : Phrase α) : Phrase α
  | mk {p ts a} (body : item ts a) : AfterComma item (⟨.mark .comma, p⟩ :: ts) a

/-- One or more items with commas between them. -/
inductive CommaList (item : Phrase α) : Phrase (List α)
  | mk {ts us a as} (head : item ts a) (tail : Sequence (AfterComma item) us as) :
      CommaList item (ts ++ us) (a :: as)

/-- The name that a keyword is where it stands for one. -/
inductive KeywordName : Keyword → String → Prop
  | task : KeywordName .task "task"
  | mission : KeywordName .mission "mission"
  | start : KeywordName .start "start"
  | transition : KeywordName .transition "transition"
  | detect : KeywordName .detect "detect"
  | track : KeywordName .track "track"
  | avoid : KeywordName .avoid "avoid"
  | test : KeywordName .test "test"

/-- An identifier, or any keyword in its place. -/
inductive Word : Token → String → Prop
  | name {s p} : Word ⟨.name s, p⟩ s
  | keyword {k s p} (name : KeywordName k s) : Word ⟨.keyword k, p⟩ s

/-- A numeral of either kind, read as a number. -/
inductive Number : Phrase Float
  | number {v p} : Number [⟨.number v, p⟩] v
  | integer {n p} : Number [⟨.integer n, p⟩] n.toFloat

inductive Tuple : Phrase (List Float)
  | mk {ts values p q} (body : CommaList Number ts values) :
      Tuple (⟨.mark .openParen, p⟩ :: ts ++ [⟨.mark .closeParen, q⟩]) values

/-- A tuple of exactly three numbers. -/
inductive Triple : Phrase Expr
  | mk {ts a b c} (body : Tuple ts [a, b, c]) : Triple ts (.triple a b c)

/-- The value of an attribute, given the values that may stand in parentheses. -/
inductive Value (paren : Phrase Expr) : Phrase Expr
  | number {v p} : Value paren [⟨.number v, p⟩] (.number v)
  | integer {n p} : Value paren [⟨.integer n, p⟩] (.integer n)
  | word {t s} (word : Word t s) : Value paren [t] (.name s)
  | text {s p} : Value paren [⟨.text s, p⟩] (.text s)
  | tuples {ts vs p q} (body : CommaList Tuple ts vs) :
      Value paren (⟨.mark .openBracket, p⟩ :: ts ++ [⟨.mark .closeBracket, q⟩]) (.tuples vs)
  | area {s p q r} :
      Value paren [⟨.mark .openAngle, p⟩, ⟨.name s, q⟩, ⟨.mark .closeAngle, r⟩] (.area s)
  | paren {ts e} (body : paren ts e) : Value paren ts e

inductive KeyValue (paren : Phrase Expr) : Phrase Attribute
  | mk {t key p ts e} (word : Word t key) (value : Value paren ts e) :
      KeyValue paren (t :: ⟨.mark .colon, p⟩ :: ts) ⟨key, e, t.position⟩

/-- An attribute, with or without a comma behind it. -/
inductive Item (paren : Phrase Expr) : Phrase Attribute
  | plain {ts a} (body : KeyValue paren ts a) : Item paren ts a
  | comma {ts a p} (body : KeyValue paren ts a) : Item paren (ts ++ [⟨.mark .comma, p⟩]) a

/-- The keyword that begins the declaration of a task of each kind. -/
inductive KindWord : Keyword → TaskKind → Prop
  | detect : KindWord .detect .detect
  | track : KindWord .track .track
  | avoid : KindWord .avoid .avoid
  | test : KindWord .test .test

inductive Declaration (paren : Phrase Expr) : Phrase TaskDecl
  | mk {k kind name ts attributes p q r s} (keyword : KindWord k kind)
      (body : Sequence (Item paren) ts attributes) :
      Declaration paren
        (⟨.keyword k, p⟩ :: ⟨.name name, q⟩ :: ⟨.mark .openBrace, r⟩ ::
          ts ++ [⟨.mark .closeBrace, s⟩])
        ⟨kind, name, attributes, p⟩

/-- What may stand as the argument of a condition. -/
inductive ArgumentToken : Token → Argument → Prop
  | text {s p} : ArgumentToken ⟨.text s, p⟩ (.text s)
  | word {t s} (word : Word t s) : ArgumentToken t (.text s)
  | number {t v} (number : Number [t] v) : ArgumentToken t (.number v)

inductive OptionalArgument : Phrase (Option Argument)
  | none : OptionalArgument [] none
  | some {t a p q} (body : ArgumentToken t a) :
      OptionalArgument [⟨.mark .openParen, p⟩, t, ⟨.mark .closeParen, q⟩] (some a)

inductive Edge : Phrase TransitionDecl
  | mk {condition ts argument source destination p q r s u v w}
      (parens : OptionalArgument ts argument) :
      Edge
        (⟨.keyword .transition, p⟩ :: ⟨.mark .openParen, q⟩ :: ⟨.name condition, r⟩ ::
          ts ++ [⟨.mark .closeParen, s⟩, ⟨.name source, u⟩, ⟨.mark .arrow, v⟩,
            ⟨.name destination, w⟩])
        ⟨condition, argument, source, destination, p⟩

/-- A whole script, given the values that may stand in parentheses. -/
inductive Sentence (paren : Phrase Expr) : Phrase Script
  | mk {ts us tasks transitions start p q r s t u v w x}
      (declared : Sequence (Declaration paren) ts tasks)
      (written : Sequence Edge us transitions) :
      Sentence paren
        (⟨.keyword .task, p⟩ :: ⟨.mark .openBrace, q⟩ :: ts ++
          ⟨.mark .closeBrace, r⟩ :: ⟨.keyword .mission, s⟩ :: ⟨.mark .openBrace, t⟩ ::
          ⟨.keyword .start, u⟩ :: ⟨.mark .colon, v⟩ :: ⟨.name start, w⟩ ::
          us ++ [⟨.mark .closeBrace, x⟩])
        ⟨tasks, start, w, transitions⟩

/-! The parts of a sentence. -/

section Parts
variable {paren : Phrase Expr}

lemma Sequence.exists_phrase {item : Phrase α} {ts : List Token} {as : List α}
    (h : Sequence item ts as) {a : α} (ha : a ∈ as) : ∃ us, item us a ∧ us <:+: ts := by
  induction h with
  | nil => cases ha
  | cons head tail ih =>
    rcases List.mem_cons.1 ha with rfl | ha
    · exact ⟨_, head, (List.prefix_append _ _).isInfix⟩
    · obtain ⟨us, hus, hwithin⟩ := ih ha
      exact ⟨us, hus, hwithin.trans (List.suffix_append _ _).isInfix⟩

lemma Declaration.name_mem {ts : List Token} {d : TaskDecl} (h : Declaration paren ts d) :
    ∃ p, (⟨.name d.name, p⟩ : Token) ∈ ts := by
  cases h with
  | @mk k kind name ts attributes p q r s keyword body => exact ⟨q, by simp⟩

lemma Item.exists_keyValue {ts : List Token} {a : Attribute} (h : Item paren ts a) :
    ∃ us, KeyValue paren us a ∧ us <:+: ts := by
  cases h with
  | plain body => exact ⟨_, body, List.infix_rfl⟩
  | comma body => exact ⟨_, body, (List.prefix_append _ _).isInfix⟩

lemma Declaration.exists_keyValue {ts : List Token} {d : TaskDecl} (h : Declaration paren ts d)
    {a : Attribute} (ha : a ∈ d.attributes) : ∃ us, KeyValue paren us a ∧ us <:+: ts := by
  cases h with
  | @mk k kind name ts attributes p q r s keyword body =>
    obtain ⟨us, hitem, hus⟩ := body.exists_phrase ha
    obtain ⟨vs, hkv, hvs⟩ := hitem.exists_keyValue
    refine ⟨vs, hkv, (hvs.trans hus).trans ?_⟩
    exact ⟨[⟨.keyword k, p⟩, ⟨.name name, q⟩, ⟨.mark .openBrace, r⟩], [⟨.mark .closeBrace, s⟩], rfl⟩

/-- Both blocks of a script and its start lie within its tokens. -/
lemma Sentence.exists_parts {ts : List Token} {s : Script} (h : Sentence paren ts s) :
    ∃ us vs p q, Sequence (Declaration paren) us s.tasks ∧ us <:+: ts ∧
      Sequence Edge vs s.transitions ∧ vs <:+: ts ∧
      [⟨.keyword .start, p⟩, ⟨.mark .colon, q⟩, ⟨.name s.start, s.startPosition⟩] <:+: ts := by
  cases h with
  | @mk us vs tasks transitions start p₁ p₂ p₃ p₄ p₅ p₆ p₇ p₈ p₉ declared written =>
    rw [List.append_assoc]
    have htail := List.suffix_append
      (⟨.keyword .task, p₁⟩ :: ⟨.mark .openBrace, p₂⟩ :: us : List Token)
      (⟨.mark .closeBrace, p₃⟩ :: ⟨.keyword .mission, p₄⟩ :: ⟨.mark .openBrace, p₅⟩ ::
        ⟨.keyword .start, p₆⟩ :: ⟨.mark .colon, p₇⟩ :: ⟨.name start, p₈⟩ ::
        vs ++ [⟨.mark .closeBrace, p₉⟩])
    refine ⟨us, vs, p₆, p₇, declared, ⟨[_, _], _, rfl⟩, written, ?_, ?_⟩
    · exact .trans ⟨[_, _, _, _, _, _], [_], rfl⟩ htail.isInfix
    · exact .trans ⟨[_, _, _], vs ++ [_], rfl⟩ htail.isInfix

/-- The name of a declared task is one of the tokens. -/
lemma Sentence.name_mem {ts : List Token} {s : Script} (h : Sentence paren ts s) {d : TaskDecl}
    (hd : d ∈ s.tasks) : ∃ p, (⟨.name d.name, p⟩ : Token) ∈ ts := by
  obtain ⟨us, _, _, _, declared, hus, -⟩ := h.exists_parts
  obtain ⟨vs, hphrase, hvs⟩ := declared.exists_phrase hd
  obtain ⟨p, hp⟩ := hphrase.name_mem
  exact ⟨p, (hvs.trans hus).subset hp⟩

end Parts

end Grammar
end Sortie.Script
