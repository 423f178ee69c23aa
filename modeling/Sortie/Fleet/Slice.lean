/-! Cutting a line of points into contiguous slices, one for each vehicle. -/
namespace Sortie.Fleet

/-- The first and the last index of a slice, both included. -/
structure Slice where
  first : Nat
  last : Nat
  deriving DecidableEq, Repr

/-- Slices cover as many edges as an even share rounded up, and neighbours share a point. The last
slice runs to the end. -/
def slices (points vehicles : Nat) : List Slice :=
  if points = 0 ∨ vehicles = 0 then []
  else
    let last := points - 1
    let size := (last + vehicles - 1) / vehicles
    (List.range vehicles).map fun i =>
      ⟨min (i * size) last, if i + 1 = vehicles then last else min (i * size + size) last⟩

/-- The elements of a list from the first to the last index of a slice. -/
def Slice.take {α : Type} (s : Slice) (xs : List α) : List α :=
  (xs.drop s.first).take (s.last + 1 - s.first)

end Sortie.Fleet
