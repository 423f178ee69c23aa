import Sortie.Decimal.Binary

/-! The fewest decimal digits that identify a binary floating-point number. -/
namespace Sortie.Decimal

/-- A decimal number `digits * 10 ^ exponent` without trailing zeros. -/
structure Scientific where
  digits : Nat
  exponent : Int
  deriving DecidableEq, Repr

/-- The number of decimal digits of a natural number. -/
def digitCount (n : Nat) : Nat := (Nat.toDigits 10 n).length

/-- The exponent of the leading decimal digit of `num / den`. -/
def leadingExponent (num den : Nat) : Int :=
  if den ≤ num then (digitCount (num / den) : Int) - 1
  else -(digitCount ((den + num - 1) / num - 1) : Int)

/-- The reals that round to `mantissa * 2 ^ exponent`, in units of `2 ^ (exponent - 2)`. Below a
power of two the gap to the next float is half as wide. -/
structure Interval where
  low : Nat
  value : Nat
  high : Nat
  closed : Bool

def Interval.around (mantissa : Nat) (exponent : Int) : Interval :=
  let narrow := mantissa = Nat.pow 2 52 ∧ -1074 < exponent
  ⟨4 * mantissa - (if narrow then 1 else 2), 4 * mantissa, 4 * mantissa + 2, mantissa % 2 = 0⟩

/-- A point of a decimal grid that lies in the interval, next to the value. Points and interval
ends are compared after scaling: the grid has step `step`, the interval's unit is `unit`. Of two
points the nearer is taken, and the upper one when both are as near. -/
def Interval.hit? (i : Interval) (unit step : Nat) : Option Nat :=
  let value := i.value * unit
  let below := value / step
  let inside (n : Nat) : Bool :=
    if i.closed then i.low * unit ≤ n * step && n * step ≤ i.high * unit
    else i.low * unit < n * step && n * step < i.high * unit
  match inside below, inside (below + 1) with
  | true, true =>
    if value - below * step < (below + 1) * step - value then some below else some (below + 1)
  | true, false => some below
  | false, true => some (below + 1)
  | false, false => none

/-- The hit on the grid of `count` significant digits. On the grid of one digit it may be ten,
which is one on the next coarser grid. -/
def Interval.onGrid? (i : Interval) (num den : Nat) (lead : Int) (count : Nat) : Option Scientific :=
  let exponent : Int := lead + 1 - count
  let unit := if 0 ≤ exponent then num else num * Nat.pow 10 (-exponent).toNat
  let step := if 0 ≤ exponent then den * Nat.pow 10 exponent.toNat else den
  (i.hit? unit step).map fun n => if n = 10 then ⟨1, exponent + 1⟩ else ⟨n, exponent⟩

/-- The shortest decimal number that rounds to `mantissa * 2 ^ exponent`, for a positive mantissa.
Among the shortest it is the one nearest to the value. Grids of 1, 2, … significant digits are
tried in turn, and seventeen digits identify every float. -/
def shortest (mantissa : Nat) (exponent : Int) : Scientific :=
  let unitExponent := exponent - 2
  let num := if 0 ≤ unitExponent then Nat.pow 2 unitExponent.toNat else 1
  let den := if 0 ≤ unitExponent then 1 else Nat.pow 2 (-unitExponent).toNat
  let i := Interval.around mantissa exponent
  let lead := leadingExponent (i.value * num) den
  (((List.range 17).map (· + 1)).findSome? (i.onGrid? num den lead)).getD ⟨0, 0⟩

end Sortie.Decimal
