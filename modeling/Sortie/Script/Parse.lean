import Sortie.Script

/-! Reading a script from its tokens. Every production is chosen by its first token, so the first
token that cannot continue a script ends the reading. -/
namespace Sortie.Script

/-- Why the reading stopped: a token that does not fit, or a parenthesised value without exactly
three numbers. -/
inductive Fault where
  | unexpected (expected : String) (found : Kind)
  | arity (key : String) (count : Nat)

def Fault.message : Fault → String
  | unexpected expected found => "expected " ++ expected ++ ", found " ++ found.describe
  | arity key count =>
    "expected a 3-tuple for attribute '" ++ key ++ "', found " ++ toString count ++ " values"

/-- A stop of the reader: its cause and the tokens from the offending one on. -/
structure Stop where
  fault : Fault
  rest : List Token

/-- A reader takes a part of a script off the tokens that are left. -/
def Reader (α : Type) : Type := List Token → Except Stop (α × List Token)

namespace Reader
variable {α β : Type}

protected def pure (a : α) : Reader α := fun ts => .ok (a, ts)

protected def bind (x : Reader α) (f : α → Reader β) : Reader β := fun ts =>
  match x ts with
  | .error e => .error e
  | .ok (a, rest) => f a rest

instance : Monad Reader where
  pure := Reader.pure
  bind := Reader.bind

/-- The kind of the next token; past the last one it is the end of the input. -/
def next (ts : List Token) : Kind :=
  match ts with
  | [] => .finish
  | t :: _ => t.kind

/-- Takes the next token if the choice accepts it, and otherwise says what was expected. -/
def take (expected : String) (choose : Kind → Option α) : Reader α := fun ts =>
  match ts with
  | [] => .error ⟨.unexpected expected .finish, []⟩
  | t :: rest =>
    match choose t.kind with
    | some a => .ok (a, rest)
    | none => .error ⟨.unexpected expected t.kind, ts⟩

/-- The place of the next token, if there is one. -/
def place : Reader Position := fun ts =>
  match ts with
  | [] => .ok (.first, [])
  | t :: _ => .ok (t.position, ts)

/-- Whether the next token passes a test; nothing is taken. -/
def looking (test : Kind → Bool) : Reader Bool := fun ts => .ok (test (next ts), ts)

def mark (m : Mark) (context : String) : Reader Unit :=
  take ((Kind.mark m).describe ++ " " ++ context) fun k => if k.isMark m then some () else none

def keyword (k : Keyword) (context : String) : Reader Unit :=
  take ((Kind.keyword k).describe ++ " " ++ context) fun l =>
    if l.isKeyword k then some () else none

def name (context : String) : Reader String :=
  take ("identifier " ++ context) fun
    | .name s => some s
    | _ => none

/-- An identifier, or a keyword standing for one. -/
def word (context : String) : Reader String := take ("name " ++ context) Kind.word?

def number (context : String) : Reader Float := take ("number " ++ context) Kind.value?

/-- Repeats an item until the next token passes the test. An item always takes a token, so the
guard on the length of the rest never fails. -/
def manyUntil (stop : Kind → Bool) (item : Reader α) (ts : List Token) :
    Except Stop (List α × List Token) :=
  if stop (next ts) then .ok ([], ts)
  else match item ts with
    | .error e => .error e
    | .ok (a, rest) =>
      if rest.length < ts.length then
        match manyUntil stop item rest with
        | .error e => .error e
        | .ok (as, rest) => .ok (a :: as, rest)
      else .ok ([a], rest)
termination_by ts.length

/-- One or more items with commas between them. -/
def separated (item : Reader α) : Reader (List α) := do
  let a ← item
  let as ← manyUntil (fun k => !k.isMark .comma) do
    mark .comma "between items"
    item
  return a :: as

end Reader

open Reader

/-- A parenthesised list of numbers. -/
def tuple : Reader (List Float) := do
  mark .openParen "to open a tuple"
  let values ← separated (number "in tuple")
  mark .closeParen "to close the tuple"
  return values

def tupleList : Reader Expr := do
  mark .openBracket "to open a tuple list"
  let ts ← separated tuple
  mark .closeBracket "to close the tuple list"
  return .tuples ts

def areaReference : Reader Expr := do
  mark .openAngle "to open a reference"
  let area ← name "as waypoint reference"
  mark .closeAngle ("to close reference <" ++ area)
  return .area area

/-- A parenthesised value holds exactly three numbers. -/
def triple (key : String) : Reader Expr := fun ts =>
  match tuple ts with
  | .error e => .error e
  | .ok ([a, b, c], rest) => .ok (.triple a b c, rest)
  | .ok (values, _) => .error ⟨.arity key values.length, ts⟩

/-- The value of an attribute, chosen by its first token. -/
def expr (key : String) : Reader Expr := fun ts =>
  match next ts with
  | .mark .openBracket => tupleList ts
  | .mark .openAngle => areaReference ts
  | .mark .openParen => triple key ts
  | _ =>
    take ("value for attribute '" ++ key ++ "'") (fun
      | .number v => some (.number v)
      | .integer n => some (.integer n)
      | .text s => some (.text s)
      | k => k.word?.map .name) ts

def keyValue : Reader Attribute := do
  let position ← place
  let key ← word "as attribute name"
  mark .colon ("after attribute '" ++ key ++ "'")
  let value ← expr key
  return ⟨key, value, position⟩

/-- An attribute with the comma that may follow it. -/
def attributeItem : Reader Attribute := do
  let a ← keyValue
  if ← looking (Kind.isMark .comma) then mark .comma "after an attribute"
  return a

/-- A block ends at its closing brace or at the end of the input. -/
def endsBlock : Kind → Bool
  | .mark .closeBrace => true
  | .finish => true
  | _ => false

def taskKind : Reader TaskKind :=
  take "task kind (detect, track, avoid or test)" fun
    | .keyword k => TaskKind.ofKeyword? k
    | _ => none

def taskDecl : Reader TaskDecl := do
  let position ← place
  let kind ← taskKind
  let name ← name "as task name"
  mark .openBrace ("after task name '" ++ name ++ "'")
  let attributes ← manyUntil endsBlock attributeItem
  mark .closeBrace ("to close task '" ++ name ++ "'")
  return ⟨kind, name, attributes, position⟩

def taskBlock : Reader (List TaskDecl) := do
  keyword .task "at start of file"
  mark .openBrace "after 'task'"
  let tasks ← manyUntil endsBlock taskDecl
  mark .closeBrace "to close the task block"
  return tasks

/-- The parenthesised argument of a condition, if there is one. -/
def argument (condition : String) : Reader (Option Argument) := do
  if ← looking (Kind.isMark .openParen) then
    mark .openParen "to open an argument"
    let a ← take ("number or identifier as argument of '" ++ condition ++ "'") fun
      | .text s => some (Argument.text s)
      | k => (k.word?.map Argument.text).or (k.value?.map Argument.number)
    mark .closeParen ("to close the argument of '" ++ condition ++ "'")
    return some a
  else return none

def transitionDecl : Reader TransitionDecl := do
  let position ← place
  keyword .transition "to open a transition"
  mark .openParen "after 'transition'"
  let condition ← name "as transition condition"
  let argument ← argument condition
  mark .closeParen "to close the transition condition"
  let source ← name "as transition source"
  mark .arrow ("after transition source '" ++ source ++ "'")
  let destination ← name "as transition destination"
  return ⟨condition, argument, source, destination, position⟩

/-- The end of the input. -/
def finish : Reader Unit := fun ts =>
  match ts with
  | [] => .ok ((), [])
  | t :: _ => .error ⟨.unexpected "end of input after mission block" t.kind, ts⟩

def script : Reader Script := do
  let tasks ← taskBlock
  keyword .mission "after the task block"
  mark .openBrace "after 'mission'"
  keyword .start "as first mission entry"
  mark .colon "after 'start'"
  let startPosition ← place
  let start ← name "as start task"
  let transitions ← manyUntil (fun k => !k.isKeyword .transition) transitionDecl
  mark .closeBrace "to close the mission block"
  finish
  return ⟨tasks, start, startPosition, transitions⟩

/-- The tokens before the first end mark. -/
def content (ts : List Token) : List Token :=
  ts.takeWhile fun t => match t.kind with
    | .finish => false
    | _ => true

/-- The place of the end of the input: that of the first end mark, or without one that of the last
token. -/
def finishPosition (ts : List Token) : Position :=
  match ts.drop (content ts).length with
  | t :: _ => t.position
  | [] => match ts.getLast? with
    | some t => t.position
    | none => .first

/-- Reads a script from a list of tokens. What follows the first end mark is not looked at. -/
def parse (ts : List Token) : Except (Located Fault) Script :=
  match script (content ts) with
  | .ok (s, _) => .ok s
  | .error stop =>
    .error ⟨stop.fault, match stop.rest with
      | t :: _ => t.position
      | [] => finishPosition ts⟩

end Sortie.Script
