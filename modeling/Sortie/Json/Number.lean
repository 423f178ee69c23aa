import Sortie.Decimal.Binary

/-! The range of numbers. A number is taken as the first of its digits, as many as fit in 64 bits,
times a power of ten; the product is rounded once, and a number is too large when it is infinite. -/
namespace Sortie.Json

/-- Digits taken up so far, the power of ten they are multiplied by, and whether no further digit
fits. -/
structure Scaled where
  significand : Nat
  exponent : Int
  full : Bool
  deriving DecidableEq, Repr

namespace Scaled

def zero : Scaled := ⟨0, 0, false⟩

def digitValue (c : Char) : Nat := c.toNat - '0'.toNat

/-- Takes up a digit before the point. One that does not fit counts as a factor of ten, and so do
all after it. -/
def whole (s : Scaled) (c : Char) : Scaled :=
  let larger := 10 * s.significand + digitValue c
  if s.full ∨ UInt64.size ≤ larger then { s with exponent := s.exponent + 1, full := true }
  else { s with significand := larger }

/-- Takes up a digit after the point. One that does not fit is dropped, and so are all after it. -/
def fraction (s : Scaled) (c : Char) : Scaled :=
  let larger := 10 * s.significand + digitValue c
  if s.full ∨ UInt64.size ≤ larger then { s with full := true }
  else { s with significand := larger, exponent := s.exponent - 1 }

/-- The number with some digits before and after its point, and an exponent. -/
def ofDigits (whole fraction : List Char) (exponent : Int) : Scaled :=
  let s := whole.foldl Scaled.whole zero
  let s := fraction.foldl Scaled.fraction { s with full := false }
  { s with exponent := s.exponent + exponent }

/-- The largest power of ten among the floats is the 308th. -/
def isTooLarge (s : Scaled) : Bool :=
  if s.significand = 0 ∨ s.exponent < 0 then false
  else if 308 < s.exponent then true
  else
    let product := Decimal.nearestFloat false s.significand 0 *
      Decimal.nearestFloat false 1 s.exponent
    match Decimal.Binary.ofFloat product with
    | .infinite _ => true
    | _ => false

end Scaled
end Sortie.Json
