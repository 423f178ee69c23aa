import Sortie.Decimal.Layout
import Sortie.Source.Position

/-! The words and signs of a mission script. -/
namespace Sortie

inductive Keyword where
  | task
  | mission
  | start
  | transition
  | detect
  | track
  | avoid
  | test
  deriving DecidableEq, Repr

namespace Keyword

def all : List Keyword := [task, mission, start, transition, detect, track, avoid, test]

def word : Keyword → String
  | task => "task"
  | mission => "mission"
  | start => "start"
  | transition => "transition"
  | detect => "detect"
  | track => "track"
  | avoid => "avoid"
  | test => "test"

def ofWord? (w : String) : Option Keyword := all.find? fun k => k.word = w

end Keyword

inductive Mark where
  | openBrace
  | closeBrace
  | openBracket
  | closeBracket
  | openParen
  | closeParen
  | openAngle
  | closeAngle
  | colon
  | comma
  | arrow
  deriving DecidableEq, Repr

namespace Mark

def spelling : Mark → String
  | openBrace => "\x7b"
  | closeBrace => "\x7d"
  | openBracket => "["
  | closeBracket => "]"
  | openParen => "("
  | closeParen => ")"
  | openAngle => "<"
  | closeAngle => ">"
  | colon => ":"
  | comma => ","
  | arrow => "->"

/-- The marks that are a single character. -/
def ofChar? : Char → Option Mark
  | '{' => some openBrace
  | '}' => some closeBrace
  | '[' => some openBracket
  | ']' => some closeBracket
  | '(' => some openParen
  | ')' => some closeParen
  | '<' => some openAngle
  | '>' => some closeAngle
  | ':' => some colon
  | ',' => some comma
  | _ => none

end Mark

/-- What a token is. An integer is an unsigned numeral of at most 64 bits; every other numeral is
a number. -/
inductive Kind where
  | keyword (k : Keyword)
  | name (s : String)
  | text (s : String)
  | number (v : Float)
  | integer (n : UInt64)
  | mark (m : Mark)
  | finish

namespace Kind

/-- How an error message speaks of a token. -/
def describe : Kind → String
  | keyword k => "keyword '" ++ k.word ++ "'"
  | name s => "identifier '" ++ s ++ "'"
  | text s => "string \"" ++ s ++ "\""
  | number v => "number " ++ Decimal.Layout.plain.write v
  | integer n => "number " ++ toString n.toNat
  | mark m => "'" ++ m.spelling ++ "'"
  | finish => "end of input"

def isMark (m : Mark) : Kind → Bool
  | mark n => m = n
  | _ => false

def isKeyword (k : Keyword) : Kind → Bool
  | keyword l => k = l
  | _ => false

/-- The word of an identifier or of a keyword. -/
def word? : Kind → Option String
  | name s => some s
  | keyword k => some k.word
  | _ => none

/-- The value of a numeral. -/
def value? : Kind → Option Float
  | number v => some v
  | integer n => some n.toFloat
  | _ => none

end Kind

structure Token where
  kind : Kind
  position : Position

end Sortie
