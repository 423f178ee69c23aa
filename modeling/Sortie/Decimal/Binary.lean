/-! Binary floating-point numbers as signed integers scaled by powers of two, and the nearest such
number to a quotient of natural numbers. -/
namespace Sortie.Decimal

/-- The classes of a 64-bit float. A finite value is `mantissa * 2 ^ exponent`, with the mantissa
below `2 ^ 53` and the exponent at least `-1074`. -/
inductive Binary where
  | nan
  | infinite (negative : Bool)
  | finite (negative : Bool) (mantissa : Nat) (exponent : Int)
  deriving DecidableEq, Repr

namespace Binary

/-- The value written in 64 bits: sign, eleven bits of exponent, fifty-two of fraction. -/
def ofBits (bits : Nat) : Binary :=
  let negative := bits / Nat.pow 2 63 % 2 == 1
  let biased : Nat := bits / Nat.pow 2 52 % Nat.pow 2 11
  let fraction := bits % Nat.pow 2 52
  if biased = Nat.pow 2 11 - 1 then
    if fraction = 0 then .infinite negative else .nan
  else if biased = 0 then .finite negative fraction (-1074)
  else .finite negative (Nat.pow 2 52 + fraction) ((biased : Int) - 1075)

def ofFloat (v : Float) : Binary := ofBits v.toBits.toNat

/-- A natural number that equals the value, if there is one. -/
def toNat? : Binary → Option Nat
  | .finite negative mantissa exponent =>
    if mantissa = 0 then some 0
    else if negative then none
    else if 0 ≤ exponent then some (mantissa * Nat.pow 2 exponent.toNat)
    else if mantissa % Nat.pow 2 (-exponent).toNat = 0 then
      some (mantissa / Nat.pow 2 (-exponent).toNat)
    else none
  | _ => none

/-- The quotient rounded to the nearest integer, a half going to the even neighbour. -/
def roundDiv (num den : Nat) : Nat :=
  let q := num / den
  let r := num % den
  if 2 * r < den then q
  else if den < 2 * r then q + 1
  else q + q % 2

/-- The bits of the float nearest to `num / den`, sign left out; a quotient that is too large gives
infinity. The exponent is chosen so that the mantissa has fifty-three bits, or is the least one. -/
def nearestBits (num den : Nat) : Nat :=
  if num = 0 then 0
  else
    let guess : Int := (Nat.log2 num : Int) - (Nat.log2 den : Int) - 52
    let scaled (q : Int) : Nat × Nat :=
      if 0 ≤ q then (num, den * Nat.pow 2 q.toNat) else (num * Nat.pow 2 (-q).toNat, den)
    let fits (q : Int) : Bool := Nat.pow 2 52 * (scaled q).2 ≤ (scaled q).1
    let exponent := max (if fits guess then guess else guess - 1) (-1074)
    let rounded := roundDiv (scaled exponent).1 (scaled exponent).2
    min ((exponent + 1074).toNat * Nat.pow 2 52 + rounded) (2047 * Nat.pow 2 52)

end Binary

/-- The float nearest to a decimal number `± coefficient * 10 ^ exponent`. Beyond the range of
floats the exact quotient is not formed. -/
def nearestFloat (negative : Bool) (coefficient : Nat) (exponent : Int) : Float :=
  let size : Int := (Nat.toDigits 10 coefficient).length + exponent
  let magnitude :=
    if coefficient = 0 ∨ size < -400 then 0
    else if 400 < size then 2047 * Nat.pow 2 52
    else if 0 ≤ exponent then Binary.nearestBits (coefficient * Nat.pow 10 exponent.toNat) 1
    else Binary.nearestBits coefficient (Nat.pow 10 (-exponent).toNat)
  Float.ofBits (UInt64.ofNat (magnitude + if negative then Nat.pow 2 63 else 0))

end Sortie.Decimal
