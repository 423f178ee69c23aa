import Mathlib.Data.List.Basic
import Sortie.Script.Parse

/-! Reading does not look at the places of tokens. A script is read from tokens without places as it
is read from the tokens themselves, up to the places that it records, and where reading stops an end
part of the tokens is left. -/
namespace Sortie

def Token.unplaced (t : Token) : Token := { t with position := .first }

def Attribute.unplaced (a : Attribute) : Attribute := { a with position := .first }

def TaskDecl.unplaced (d : TaskDecl) : TaskDecl :=
  { d with attributes := d.attributes.map Attribute.unplaced, position := .first }

def TransitionDecl.unplaced (d : TransitionDecl) : TransitionDecl := { d with position := .first }

def Script.unplaced (s : Script) : Script :=
  ⟨s.tasks.map TaskDecl.unplaced, s.start, .first, s.transitions.map TransitionDecl.unplaced⟩

def Located.unplaced {φ : Type} (f : φ → φ) (e : Located φ) : Located φ := ⟨f e.fault, .first⟩

lemma Token.map_unplaced_eq_iff {ts us : List Token} :
    ts.map unplaced = us.map unplaced ↔ ts.map kind = us.map kind := by
  have hkind : ∀ ts : List Token, (ts.map kind).map (fun k => ⟨k, .first⟩) = ts.map unplaced := by
    intro ts
    rw [List.map_map]
    rfl
  constructor
  · intro h
    have := congrArg (List.map kind) h
    rwa [List.map_map, List.map_map] at this
  · intro h
    rw [← hkind ts, ← hkind us, h]

/-- Two results of which the second is the image of the first. -/
inductive Carries {ε ε' α β : Type} (g : ε → ε') (f : α → β) : Except ε α → Except ε' β → Prop
  | ok (a : α) : Carries g f (.ok a) (.ok (f a))
  | error (e : ε) : Carries g f (.error e) (.error (g e))

namespace Script
namespace Reader
variable {α β γ δ : Type}

/-- The outcomes of reading the tokens `ts` and of reading the same tokens without places. -/
inductive Echoes (f : α → β) (ts : List Token) :
    Except Stop (α × List Token) → Except Stop (β × List Token) → Prop
  | ok {a : α} {rest : List Token} (left : rest <:+ ts) :
      Echoes f ts (.ok (a, rest)) (.ok (f a, rest.map Token.unplaced))
  | error {fault : Fault} {rest : List Token} (left : rest <:+ ts) :
      Echoes f ts (.error ⟨fault, rest⟩) (.error ⟨fault, rest.map Token.unplaced⟩)

/-- A reader that does not look at places. What it gives is turned by `f` into what the second reader
gives without places. -/
def Blind (f : α → β) (x : Reader α) (y : Reader β) : Prop :=
  ∀ ts, Echoes f ts (x ts) (y (ts.map Token.unplaced))

lemma Echoes.mono {f : α → β} {ts us : List Token} {x : Except Stop (α × List Token)}
    {y : Except Stop (β × List Token)} (h : Echoes f us x y) (hus : us <:+ ts) :
    Echoes f ts x y := by
  cases h with
  | ok left => exact .ok (left.trans hus)
  | error left => exact .error (left.trans hus)

lemma next_map_unplaced (ts : List Token) : next (ts.map Token.unplaced) = next ts := by
  cases ts <;> rfl

lemma blind_pure (f : α → β) (a : α) : Blind f (pure a) (pure (f a)) :=
  fun _ => .ok List.suffix_rfl

lemma Blind.bind {f : α → β} {g : γ → δ} {x : Reader α} {y : Reader β} {k : α → Reader γ}
    {l : β → Reader δ} (hx : Blind f x y) (hk : ∀ a, Blind g (k a) (l (f a))) :
    Blind g (x >>= k) (y >>= l) := by
  intro ts
  change Echoes g ts (Reader.bind x k ts) (Reader.bind y l (ts.map Token.unplaced))
  have h := hx ts
  unfold Reader.bind
  generalize x ts = r at h
  generalize y (ts.map Token.unplaced) = s at h
  cases h with
  | ok left => exact (hk _ _).mono left
  | error left => exact .error left

lemma blind_take (expected : String) (choose : Kind → Option α) :
    Blind id (take expected choose) (take expected choose) := by
  intro ts
  cases ts with
  | nil => exact .error List.suffix_rfl
  | cons t ts =>
    have hkind : t.unplaced.kind = t.kind := rfl
    simp only [List.map_cons, take, hkind]
    cases choose t.kind with
    | some a => exact .ok (List.suffix_cons t ts)
    | none => exact .error List.suffix_rfl

lemma blind_place : Blind (fun _ => Position.first) place place := by
  intro ts
  cases ts with
  | nil => exact .ok List.suffix_rfl
  | cons t ts => exact .ok List.suffix_rfl

lemma blind_looking (test : Kind → Bool) : Blind id (looking test) (looking test) := by
  intro ts
  unfold looking
  rw [next_map_unplaced]
  exact .ok List.suffix_rfl

lemma blind_manyUntil (stop : Kind → Bool) {f : α → β} {item : Reader α} {item' : Reader β}
    (h : Blind f item item') :
    Blind (List.map f) (manyUntil stop item) (manyUntil stop item') := by
  intro ts
  induction ts using (measure List.length).wf.induction with
  | h ts ih =>
    rw [manyUntil, manyUntil, next_map_unplaced]
    by_cases hstop : stop (next ts) = true
    · rw [if_pos hstop, if_pos hstop]
      exact .ok List.suffix_rfl
    · rw [if_neg hstop, if_neg hstop]
      have hitem := h ts
      generalize item ts = r at hitem
      generalize item' (ts.map Token.unplaced) = s at hitem
      cases hitem with
      | error left => exact .error left
      | @ok a rest left =>
        simp only [List.length_map]
        by_cases hlength : rest.length < ts.length
        · rw [if_pos hlength, if_pos hlength]
          have hmany := (ih rest hlength).mono left
          generalize manyUntil stop item rest = r at hmany
          generalize manyUntil stop item' (rest.map Token.unplaced) = s at hmany
          cases hmany with
          | ok left => exact .ok left
          | error left => exact .error left
        · rw [if_neg hlength, if_neg hlength]
          exact .ok left

lemma blind_separated {item : Reader α} (h : Blind id item item) :
    Blind id (separated item) (separated item) := by
  refine h.bind fun a => ?_
  refine (blind_manyUntil _ ((blind_take _ _).bind fun _ => h)).bind fun as => ?_
  rw [List.map_id]
  exact blind_pure id _

end Reader

open Reader

lemma blind_tuple : Blind id tuple tuple := by
  refine (blind_take _ _).bind fun _ => ?_
  refine (blind_separated (blind_take _ _)).bind fun values => ?_
  exact (blind_take _ _).bind fun _ => blind_pure id values

lemma blind_tupleList : Blind id tupleList tupleList := by
  refine (blind_take _ _).bind fun _ => ?_
  refine (blind_separated blind_tuple).bind fun ts => ?_
  exact (blind_take _ _).bind fun _ => blind_pure id _

lemma blind_areaReference : Blind id areaReference areaReference := by
  refine (blind_take _ _).bind fun _ => ?_
  refine (blind_take _ _).bind fun area => ?_
  exact (blind_take _ _).bind fun _ => blind_pure id _

lemma blind_triple (key : String) : Blind id (triple key) (triple key) := by
  intro ts
  have htuple := blind_tuple ts
  unfold triple
  generalize tuple ts = r at htuple
  generalize tuple (ts.map Token.unplaced) = s at htuple
  cases htuple with
  | error left => exact .error left
  | @ok values rest left =>
    match values with
    | [a, b, c] => exact .ok left
    | [] | [_] | [_, _] | _ :: _ :: _ :: _ :: _ => exact .error List.suffix_rfl

lemma blind_expr (key : String) : Blind id (expr key) (expr key) := by
  intro ts
  unfold expr
  rw [next_map_unplaced]
  split
  · exact blind_tupleList ts
  · exact blind_areaReference ts
  · exact blind_triple key ts
  · exact blind_take _ _ ts

lemma blind_keyValue : Blind Attribute.unplaced keyValue keyValue := by
  refine blind_place.bind fun position => ?_
  refine (blind_take _ _).bind fun key => ?_
  refine (blind_take _ _).bind fun _ => ?_
  refine (blind_expr key).bind fun value => ?_
  exact blind_pure Attribute.unplaced ⟨key, value, position⟩

lemma blind_attributeItem : Blind Attribute.unplaced attributeItem attributeItem := by
  refine blind_keyValue.bind fun a => ?_
  refine (blind_looking _).bind fun comma => ?_
  cases comma with
  | false => exact blind_pure Attribute.unplaced a
  | true => exact (blind_take _ _).bind fun _ => blind_pure Attribute.unplaced a

lemma blind_taskDecl : Blind TaskDecl.unplaced taskDecl taskDecl := by
  refine blind_place.bind fun position => ?_
  refine (blind_take _ _).bind fun kind => ?_
  refine (blind_take _ _).bind fun name => ?_
  refine (blind_take _ _).bind fun _ => ?_
  refine (blind_manyUntil _ blind_attributeItem).bind fun attributes => ?_
  refine (blind_take _ _).bind fun _ => ?_
  exact blind_pure TaskDecl.unplaced ⟨kind, name, attributes, position⟩

lemma blind_taskBlock : Blind (List.map TaskDecl.unplaced) taskBlock taskBlock := by
  refine (blind_take _ _).bind fun _ => ?_
  refine (blind_take _ _).bind fun _ => ?_
  refine (blind_manyUntil _ blind_taskDecl).bind fun tasks => ?_
  exact (blind_take _ _).bind fun _ => blind_pure _ tasks

lemma blind_argument (condition : String) : Blind id (argument condition) (argument condition) := by
  refine (blind_looking _).bind fun parens => ?_
  cases parens with
  | false => exact blind_pure id none
  | true =>
    refine (blind_take _ _).bind fun _ => ?_
    refine (blind_take _ _).bind fun a => ?_
    exact (blind_take _ _).bind fun _ => blind_pure id (some a)

lemma blind_transitionDecl : Blind TransitionDecl.unplaced transitionDecl transitionDecl := by
  refine blind_place.bind fun position => ?_
  refine (blind_take _ _).bind fun _ => ?_
  refine (blind_take _ _).bind fun _ => ?_
  refine (blind_take _ _).bind fun condition => ?_
  refine (blind_argument condition).bind fun argument => ?_
  refine (blind_take _ _).bind fun _ => ?_
  refine (blind_take _ _).bind fun source => ?_
  refine (blind_take _ _).bind fun _ => ?_
  refine (blind_take _ _).bind fun destination => ?_
  exact blind_pure TransitionDecl.unplaced ⟨condition, argument, source, destination, position⟩

lemma blind_finish : Blind id finish finish := by
  intro ts
  cases ts with
  | nil => exact .ok List.suffix_rfl
  | cons t ts => exact .error List.suffix_rfl

lemma blind_script : Blind Script.unplaced script script := by
  refine blind_taskBlock.bind fun tasks => ?_
  refine (blind_take _ _).bind fun _ => ?_
  refine (blind_take _ _).bind fun _ => ?_
  refine (blind_take _ _).bind fun _ => ?_
  refine (blind_take _ _).bind fun _ => ?_
  refine blind_place.bind fun startPosition => ?_
  refine (blind_take _ _).bind fun start => ?_
  refine (blind_manyUntil _ blind_transitionDecl).bind fun transitions => ?_
  refine (blind_take _ _).bind fun _ => ?_
  refine blind_finish.bind fun _ => ?_
  exact blind_pure Script.unplaced ⟨tasks, start, startPosition, transitions⟩

lemma content_map_unplaced (ts : List Token) :
    content (ts.map Token.unplaced) = (content ts).map Token.unplaced := by
  unfold content
  rw [List.takeWhile_map]
  rfl

lemma finishPosition_map_unplaced (ts : List Token) :
    finishPosition (ts.map Token.unplaced) = .first := by
  unfold finishPosition
  rw [content_map_unplaced, List.length_map, ← List.map_drop, List.getLast?_map]
  cases ts.drop (content ts).length with
  | cons t us => rfl
  | nil => cases ts.getLast? <;> rfl

/-- A script is read alike with and without the places of its tokens. -/
theorem carries_parse (ts : List Token) :
    Carries (Located.unplaced id) Script.unplaced (parse ts) (parse (ts.map Token.unplaced)) := by
  have h := blind_script (content ts)
  unfold parse
  rw [content_map_unplaced]
  generalize script (content ts) = r at h
  generalize script ((content ts).map Token.unplaced) = s at h
  cases h with
  | @ok script rest _ => exact .ok script
  | @error fault rest _ =>
    cases rest with
    | cons t us => exact .error (⟨fault, t.position⟩ : Located Fault)
    | nil =>
      simp only [List.map_nil, finishPosition_map_unplaced]
      exact .error (⟨fault, finishPosition ts⟩ : Located Fault)

/-- Reading stops at a token or at the end of the input. -/
lemma parse_error_position {ts : List Token} {e : Located Fault} (h : parse ts = .error e) :
    (∃ t ∈ content ts, t.position = e.position) ∨ finishPosition ts = e.position := by
  have hblind := blind_script (content ts)
  unfold parse at h
  generalize script (content ts) = r at h hblind
  generalize script ((content ts).map Token.unplaced) = s at hblind
  cases hblind with
  | ok left => cases h
  | @error fault rest left =>
    cases rest with
    | cons t us =>
      cases h
      exact .inl ⟨t, left.subset (List.mem_cons_self ..), rfl⟩
    | nil =>
      cases h
      exact .inr rfl

end Script
end Sortie
