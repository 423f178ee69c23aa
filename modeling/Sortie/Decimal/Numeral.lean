import Sortie.Decimal.Binary

/-! Numerals and their reading as floats: an optional sign, then a word for infinity or for what is
not a number, or digits around an optional point with an optional exponent. -/
namespace Sortie.Decimal

/-- The parts of a numeral: its whole and fractional digits and its exponent, each as written. -/
structure Numeral where
  sign : Option Char
  whole : List Char
  fraction : Option (List Char)
  exponent : Option (Char × Option Char × List Char)
  deriving DecidableEq, Repr

/-- Splits off a leading sign. -/
def takeSign : List Char → Option Char × List Char
  | '+' :: cs => (some '+', cs)
  | '-' :: cs => (some '-', cs)
  | cs => (none, cs)

def digitsValue (cs : List Char) : Nat :=
  cs.foldl (fun n c => 10 * n + (c.toNat - '0'.toNat)) 0

/-- An exponent is a letter `e`, an optional sign and at least one digit. -/
def takeExponent (cs : List Char) : Option (Char × Option Char × List Char) × List Char :=
  match cs with
  | [] => (none, [])
  | e :: rest =>
    if e = 'e' ∨ e = 'E' then
      let (sign, body) := takeSign rest
      match body.takeWhile Char.isDigit with
      | [] => (none, cs)
      | ds => (some (e, sign, ds), body.dropWhile Char.isDigit)
    else (none, cs)

/-- The longest numeral at the head of the text, and the rest. -/
def Numeral.scan (cs : List Char) : Numeral × List Char :=
  let (sign, body) := takeSign cs
  let whole := body.takeWhile Char.isDigit
  let (fraction, tail) : Option (List Char) × List Char :=
    match body.dropWhile Char.isDigit with
    | '.' :: rest => (some (rest.takeWhile Char.isDigit), rest.dropWhile Char.isDigit)
    | rest => (none, rest)
  let (exponent, rest) := takeExponent tail
  (⟨sign, whole, fraction, exponent⟩, rest)

namespace Numeral

/-- The numeral as written. -/
def text (n : Numeral) : List Char :=
  n.sign.toList ++ n.whole ++ (match n.fraction with
    | none => []
    | some ds => '.' :: ds) ++ (match n.exponent with
    | none => []
    | some (e, sign, ds) => e :: (sign.toList ++ ds))

/-- A numeral has a value when a digit stands before its exponent. -/
def hasDigit (n : Numeral) : Bool :=
  !n.whole.isEmpty || (match n.fraction with
    | none => false
    | some ds => !ds.isEmpty)

def toFloat (n : Numeral) : Float :=
  let fraction := n.fraction.getD []
  let written : Int := match n.exponent with
    | none => 0
    | some (_, sign, ds) => if sign = some '-' then -(digitsValue ds : Int) else digitsValue ds
  nearestFloat (n.sign = some '-') (digitsValue (n.whole ++ fraction)) (written - fraction.length)

end Numeral

/-- A special value spelt in letters of either case. -/
def wordValue? (letters : List Char) : Option Float :=
  let word := String.ofList (letters.map Char.toLower)
  if word = "inf" ∨ word = "infinity" then some (Float.ofBits 0x7FF0000000000000)
  else if word = "nan" then some (Float.ofBits 0x7FF8000000000000)
  else none

/-- Reads a whole text as a float, rounding to the nearest; what is too large is infinite. -/
def readChars (cs : List Char) : Option Float :=
  let (sign, body) := takeSign cs
  match wordValue? body with
  | some v => some (if sign = some '-' then -v else v)
  | none =>
    match Numeral.scan cs with
    | (n, []) => if n.hasDigit then some n.toFloat else none
    | _ => none

def read (s : String) : Option Float := readChars s.toList

end Sortie.Decimal
