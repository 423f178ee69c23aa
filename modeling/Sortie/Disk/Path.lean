import Sortie.Text.Blank

/-! Paths as they are written, with slashes between names. -/
namespace Sortie

abbrev Path : Type := String

namespace Path

def isAbsolute (p : Path) : Bool := p.toList.head? == some '/'

def endsInSlash (p : Path) : Bool := p.toList.getLast? == some '/'

def containsNull (p : Path) : Bool := p.toList.contains '\x00'

/-- An absolute path replaces what it is joined to. Otherwise a slash stands between, unless the
first path is empty or ends in one. -/
def join (p q : Path) : Path :=
  if isAbsolute q then q
  else if p = "" ∨ endsInSlash p then p ++ q
  else p ++ "/" ++ q

/-- The names between slashes. -/
def pieces (p : Path) : List String := (Text.splitAt '/' p).filter (· ≠ "")

/-- The last name, unless the path ends in dots or has no names. -/
def lastName? (p : Path) : Option String :=
  (pieces p).getLast?.filter fun n => n ≠ "." && n ≠ ".."

/-- The names that matter: a single dot counts only in front of a relative path. -/
def names (p : Path) : List String :=
  match pieces p with
  | [] => []
  | n :: rest => (if n = "." ∧ isAbsolute p then [] else [n]) ++ rest.filter (· ≠ ".")

def ofNames (absolute : Bool) (ns : List String) : Path :=
  (if absolute then "/" else "") ++ "/".intercalate ns

/-- The nonempty beginnings of a list that are shorter than it, the longest first, and the empty
one. -/
def beginnings (ns : List String) : List (List String) :=
  (List.range ns.length).reverse.map fun n => ns.take n

/-- The paths of the folders around a path, innermost first. -/
def parents (p : Path) : List Path := (beginnings (names p)).map (ofNames (isAbsolute p))

end Path
end Sortie
