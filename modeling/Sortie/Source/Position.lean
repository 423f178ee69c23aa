/-! Places in a source text. -/
namespace Sortie

/-- A place in a text, lines and columns counted from one. -/
structure Position where
  line : Nat
  column : Nat
  deriving DecidableEq, Repr, Inhabited

namespace Position

def first : Position := ⟨1, 1⟩

/-- The place after a character; only a line feed ends a line. -/
def step (p : Position) (c : Char) : Position :=
  if c = '\n' then ⟨p.line + 1, 1⟩ else ⟨p.line, p.column + 1⟩

/-- The place after a piece of text. -/
def after (p : Position) (cs : List Char) : Position := cs.foldl step p

@[simp] theorem after_nil (p : Position) : p.after [] = p := rfl

@[simp] theorem after_append (p : Position) (cs ds : List Char) :
    p.after (cs ++ ds) = (p.after cs).after ds := List.foldl_append

end Position

/-- A fault at a place of the source. -/
structure Located (φ : Type) where
  fault : φ
  position : Position
  deriving DecidableEq, Repr

def Located.map {φ ψ : Type} (f : φ → ψ) (x : Located φ) : Located ψ := ⟨f x.fault, x.position⟩

end Sortie
