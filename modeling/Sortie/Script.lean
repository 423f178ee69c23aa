import Sortie.Source.Position
import Sortie.Token

/-! Mission scripts as written: a block of task declarations and a block of transitions. Attribute
names and values are not interpreted here. -/
namespace Sortie

/-- The four kinds of task. -/
inductive TaskKind where
  | detect
  | track
  | avoid
  | test
  deriving DecidableEq, Repr

namespace TaskKind

def word : TaskKind → String
  | detect => "detect"
  | track => "track"
  | avoid => "avoid"
  | test => "test"

def ofKeyword? : Keyword → Option TaskKind
  | .detect => some detect
  | .track => some track
  | .avoid => some avoid
  | .test => some test
  | _ => none

end TaskKind

/-- The value of an attribute. -/
inductive Expr where
  | number (v : Float)
  | integer (n : UInt64)
  | name (s : String)
  | text (s : String)
  | tuples (ts : List (List Float))
  | area (name : String)
  | triple (a b c : Float)

/-- How an error message speaks of a value. -/
def Expr.describe : Expr → String
  | number _ => "a number"
  | integer _ => "a number"
  | name _ => "a name"
  | text _ => "a string"
  | tuples _ => "a tuple list"
  | area _ => "a waypoint reference"
  | triple _ _ _ => "a 3-tuple"

structure Attribute where
  key : String
  value : Expr
  position : Position

structure TaskDecl where
  kind : TaskKind
  name : String
  attributes : List Attribute
  position : Position

/-- The argument of a transition's condition. -/
inductive Argument where
  | text (s : String)
  | number (v : Float)

structure TransitionDecl where
  condition : String
  argument : Option Argument
  source : String
  destination : String
  position : Position

structure Script where
  tasks : List TaskDecl
  start : String
  startPosition : Position
  transitions : List TransitionDecl

end Sortie
