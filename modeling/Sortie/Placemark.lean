import Sortie.Log
import Sortie.Markup.Event
import Sortie.Markup.Reference
import Sortie.Text.Blank

/-! Placemarks of a map document: of each, its own name and all coordinates beneath it. -/
namespace Sortie

structure Placemark where
  name : Option String
  coordinates : Option String
  deriving DecidableEq, Repr

/-- A document that cannot be read. -/
inductive DocumentFault where
  | markup (offset : Nat) (fault : Markup.Fault)
  | reference (fault : Markup.ReferenceFault)
  | unterminated
  deriving DecidableEq, Repr

def DocumentFault.message : DocumentFault → String
  | markup offset fault => "at byte " ++ toString offset ++ ": " ++ fault.message
  | reference fault => fault.message
  | unterminated => "unterminated <Placemark>"

namespace Placemark

def blank : Placemark := ⟨none, none⟩

/-- The part of a placemark that text goes to. -/
inductive Field where
  | name
  | coordinates
  deriving DecidableEq, Repr

/-- Pieces of text are trimmed and joined by single blanks. -/
def joinPiece (slot : Option String) (piece : String) : Option String :=
  match slot with
  | some s => some (s ++ " " ++ Text.trim piece)
  | none => some (Text.trim piece)

def append (p : Placemark) (field : Field) (piece : String) : Placemark :=
  match field with
  | .name => { p with name := joinPiece p.name piece }
  | .coordinates => { p with coordinates := joinPiece p.coordinates piece }

/-- How far a document has been read: the depth of open elements, the placemark being read with the
depth of its element, and the field that text belongs to. -/
structure Progress where
  depth : Nat
  current : Option (Nat × Placemark)
  field : Option Field
  found : List Placemark
  deriving DecidableEq, Repr

namespace Progress

def initial : Progress := ⟨0, none, none, []⟩

/-- A placemark opens outside any other; a name counts only right beneath it, coordinates at any
depth. -/
def opening (s : Progress) (name : String) : Progress :=
  let depth := s.depth + 1
  match Markup.localName name, s.current with
  | "Placemark", none => { s with depth, current := some (depth, blank) }
  | "name", some (d, _) =>
    if depth = d + 1 then { s with depth, field := some .name } else { s with depth }
  | "coordinates", some _ => { s with depth, field := some .coordinates }
  | _, _ => { s with depth }

/-- The end of a placemark element closes the placemark being read. -/
def closing (s : Progress) (name : String) : Progress :=
  let depth := s.depth - 1
  match Markup.localName name with
  | "Placemark" =>
    { s with depth, current := none, found := s.found ++ (s.current.map Prod.snd).toList }
  | "name" => { s with depth, field := none }
  | "coordinates" => { s with depth, field := none }
  | _ => { s with depth }

/-- Text counts inside a field of a placemark. -/
def piece (s : Progress) (resolve : Except DocumentFault String) : Except DocumentFault Progress :=
  match s.current, s.field with
  | some (d, p), some field => do
    let text ← resolve
    return { s with current := some (d, p.append field text) }
  | _, _ => .ok s

def step (s : Progress) : Markup.Event → Except DocumentFault Progress
  | .opening name => .ok (s.opening name)
  | .closing name => .ok (s.closing name)
  | .empty _ => .ok s
  | .text raw =>
    s.piece (match Markup.resolve raw.toList with
      | .ok cs => .ok (String.ofList cs)
      | .error fault => .error (.reference fault))
  | .literal raw => s.piece (.ok raw)

end Progress

/-- The placemarks of a stream of events, in document order. -/
def ofStream (stream : Markup.Stream) : Except DocumentFault (List Placemark) := do
  let s ← stream.events.foldlM Progress.step .initial
  match stream.fault, s.current with
  | some (offset, fault), _ => .error (.markup offset fault)
  | none, some _ => .error .unterminated
  | none, none => return s.found

end Placemark
end Sortie
