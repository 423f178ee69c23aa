import Sortie.Decimal.Layout

/-! Python literals. -/
namespace Sortie.Python

/-- The digit of a number below sixteen. -/
def hexDigit (n : Nat) : Char := (Nat.digitChar (n % 16))

/-- How one character stands in a double-quoted literal: quotes, backslashes and control characters
are escaped. -/
def escapeChar (c : Char) : List Char :=
  if c = '"' then ['\\', '"']
  else if c = '\\' then ['\\', '\\']
  else if c = '\n' then ['\\', 'n']
  else if c = '\r' then ['\\', 'r']
  else if c = '\t' then ['\\', 't']
  else if c.toNat < 0x20 ∨ c.toNat = 0x7F then
    ['\\', 'x', hexDigit (c.toNat / 16), hexDigit c.toNat]
  else [c]

def stringChars (cs : List Char) : List Char := '"' :: cs.flatMap escapeChar ++ ['"']

/-- A double-quoted string literal. -/
def string (s : String) : String := String.ofList (stringChars s.toList)

/-- A float literal; what has no literal is built from its name. -/
def float (v : Float) : String :=
  match Decimal.Binary.ofFloat v with
  | .nan => "float(\"nan\")"
  | .infinite true => "float(\"-inf\")"
  | .infinite false => "float(\"inf\")"
  | .finite negative mantissa exponent =>
    String.ofList (Decimal.Layout.literal.finiteText negative mantissa exponent)

end Sortie.Python
