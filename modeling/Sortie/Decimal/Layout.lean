import Sortie.Decimal.Shortest

/-! Decimal texts of floats. The digits are always the fewest that read back; a layout decides
how they are set. -/
namespace Sortie.Decimal

/-- How the digits of a finite number are set: which exponents of the leading digit are written
positionally, and whether an integral number keeps a zero behind the point. -/
structure Layout where
  positional : Int → Bool
  keepsPoint : Bool

namespace Layout

/-- Positional at any size, integral numbers without a point. -/
def plain : Layout := ⟨fun _ => true, false⟩

/-- Positional from `10 ^ -4` to below `10 ^ 16`, integral numbers with `.0`; otherwise with an
exponent. -/
def literal : Layout := ⟨fun lead => -4 ≤ lead && lead < 16, true⟩

/-- The digits with the point after the digit of exponent zero. -/
def positionalText (layout : Layout) (digits : List Char) (exponent : Int) : List Char :=
  if 0 ≤ exponent then
    digits ++ List.replicate exponent.toNat '0' ++ (if layout.keepsPoint then ['.', '0'] else [])
  else
    let places := (-exponent).toNat
    if places < digits.length then
      digits.take (digits.length - places) ++ '.' :: digits.drop (digits.length - places)
    else '0' :: '.' :: List.replicate (places - digits.length) '0' ++ digits

/-- One digit, the others behind a point, and the exponent of the first. -/
def exponentText (digits : List Char) (lead : Int) : List Char :=
  let fraction := match digits.drop 1 with
    | [] => []
    | rest => '.' :: rest
  digits.take 1 ++ fraction ++ 'e' :: (toString lead).toList

def finiteText (layout : Layout) (negative : Bool) (mantissa : Nat) (exponent : Int) : List Char :=
  let sign := if negative then ['-'] else []
  if mantissa = 0 then sign ++ '0' :: (if layout.keepsPoint then ['.', '0'] else [])
  else
    let s := shortest mantissa exponent
    let digits := Nat.toDigits 10 s.digits
    let lead : Int := s.exponent + digits.length - 1
    sign ++ if layout.positional lead then layout.positionalText digits s.exponent
      else exponentText digits lead

/-- The text of a float; a sign on what is not a number is not shown. -/
def write (layout : Layout) (v : Float) : String :=
  match Binary.ofFloat v with
  | .nan => "NaN"
  | .infinite negative => if negative then "-inf" else "inf"
  | .finite negative mantissa exponent =>
    String.ofList (layout.finiteText negative mantissa exponent)

end Layout
end Sortie.Decimal
