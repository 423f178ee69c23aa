import Sortie.Yaml.Token

/-! The tree of a YAML document. -/
namespace Sortie.Yaml

/-- A scalar keeps its text and whether it was written without quotes. -/
inductive Node where
  | scalar (text : String) (plain : Bool)
  | list (items : List Node)
  | mapping (pairs : List (Node × Node))

namespace Node

/-- The node that stands where nothing was written. -/
def empty : Node := .scalar "" true

/-- Whether the next token is one of those before which a node may be left out. -/
def omits (ends : List Token) (ts : List Token) : Bool := ts.head?.any ends.contains

def blockEnds : List Token := [.key, .value, .blockEnd]

mutual

/-- Reads a node. Blocks stand outside brackets only, and a list right beneath a key need not be
indented. The first argument bounds the number of steps. -/
def read (fuel : Nat) (inBlock afterKey : Bool) (ts : List Token) : Option (Node × List Token) :=
  match fuel with
  | 0 => none
  | fuel + 1 =>
    match ts with
    | .scalar text plain :: rest => some (.scalar text plain, rest)
    | .openList :: rest => (readItems fuel true rest).map fun (items, rest) => (.list items, rest)
    | .openMapping :: rest => (readPairs fuel true rest).map fun (ps, rest) => (.mapping ps, rest)
    | .entry :: _ =>
      if afterKey then (readEntries fuel ts).map fun (items, rest) => (.list items, rest) else none
    | .blockList :: rest =>
      if inBlock then (readBlockItems fuel rest).map fun (items, rest) => (.list items, rest)
      else none
    | .blockMapping :: rest =>
      if inBlock then (readBlockPairs fuel rest).map fun (ps, rest) => (.mapping ps, rest)
      else none
    | _ => none

/-- Reads a node that may be left out before some tokens. -/
def readOr (fuel : Nat) (ends : List Token) (inBlock afterKey : Bool) (ts : List Token) :
    Option (Node × List Token) :=
  match fuel with
  | 0 => none
  | fuel + 1 => if omits ends ts then some (empty, ts) else read fuel inBlock afterKey ts

/-- Reads a value after its colon; without a colon there is none. -/
def readValue (fuel : Nat) (ends : List Token) (inBlock : Bool) (ts : List Token) :
    Option (Node × List Token) :=
  match fuel with
  | 0 => none
  | fuel + 1 =>
    match ts with
    | .value :: rest => readOr fuel ends inBlock inBlock rest
    | _ => some (empty, ts)

/-- The items of an indented list. -/
def readBlockItems (fuel : Nat) (ts : List Token) : Option (List Node × List Token) :=
  match fuel with
  | 0 => none
  | fuel + 1 =>
    match ts with
    | .blockEnd :: rest => some ([], rest)
    | .entry :: rest => do
      let (item, rest) ← readOr fuel [.entry, .blockEnd] true false rest
      let (items, rest) ← readBlockItems fuel rest
      return (item :: items, rest)
    | _ => none

/-- The items of a list that is not indented; it ends where no further hyphen stands. -/
def readEntries (fuel : Nat) (ts : List Token) : Option (List Node × List Token) :=
  match fuel with
  | 0 => none
  | fuel + 1 =>
    match ts with
    | .entry :: rest => do
      let (item, rest) ← readOr fuel (.entry :: blockEnds) true false rest
      let (items, rest) ← readEntries fuel rest
      return (item :: items, rest)
    | _ => some ([], ts)

/-- The pairs of an indented mapping. -/
def readBlockPairs (fuel : Nat) (ts : List Token) :
    Option (List (Node × Node) × List Token) :=
  match fuel with
  | 0 => none
  | fuel + 1 =>
    match ts with
    | .blockEnd :: rest => some ([], rest)
    | .key :: rest => do
      let (key, rest) ← readOr fuel blockEnds true true rest
      let (value, rest) ← readValue fuel blockEnds true rest
      let (pairs, rest) ← readBlockPairs fuel rest
      return ((key, value) :: pairs, rest)
    | _ => none

/-- The items of a bracketed list. Commas separate them and may trail; a key makes an item a mapping
of one pair. A colon or comma right after a question mark is passed over. -/
def readItems (fuel : Nat) (first : Bool) (ts : List Token) : Option (List Node × List Token) :=
  match fuel with
  | 0 => none
  | fuel + 1 =>
    let ends := [.comma, .closeList]
    let more (ts : List Token) : Option (List Node × List Token) :=
      match ts with
      | .closeList :: rest => some ([], rest)
      | .key :: rest => do
        let (key, rest) ←
          if omits (.value :: ends) rest then some (empty, rest.tail)
          else read fuel false false rest
        let (value, rest) ← readValue fuel ends false rest
        let (items, rest) ← readItems fuel false rest
        return (.mapping [(key, value)] :: items, rest)
      | _ => do
        let (item, rest) ← read fuel false false ts
        let (items, rest) ← readItems fuel false rest
        return (item :: items, rest)
    match ts with
    | .closeList :: rest => some ([], rest)
    | .comma :: rest => if first then none else more rest
    | _ => if first then more ts else none

/-- The pairs of a braced mapping. Commas separate them and may trail; a node without a colon is a
key without a value. -/
def readPairs (fuel : Nat) (first : Bool) (ts : List Token) :
    Option (List (Node × Node) × List Token) :=
  match fuel with
  | 0 => none
  | fuel + 1 =>
    let ends := [.comma, .closeMapping]
    let more (ts : List Token) : Option (List (Node × Node) × List Token) :=
      match ts with
      | .closeMapping :: rest => some ([], rest)
      | .key :: rest => do
        let (key, rest) ← readOr fuel (.value :: ends) false false rest
        let (value, rest) ← readValue fuel ends false rest
        let (pairs, rest) ← readPairs fuel false rest
        return ((key, value) :: pairs, rest)
      | _ => do
        let (key, rest) ← read fuel false false ts
        let (pairs, rest) ← readPairs fuel false rest
        return ((key, empty) :: pairs, rest)
    match ts with
    | .closeMapping :: rest => some ([], rest)
    | .comma :: rest => if first then none else more rest
    | _ => if first then more ts else none

end

/-- The tree of a list of tokens that hold one document. -/
def ofTokens (ts : List Token) : Option Node := do
  let fuel := 3 * ts.length + 3
  let (node, rest) ← match ts with
    | [] => some (empty, [])
    | .documentStart :: rest =>
      if rest.isEmpty then some (empty, [])
      else readOr fuel [.documentStart, .documentEnd] true false rest
    | _ => read fuel true false ts
  if rest.all (· = .documentEnd) then some node else none

/-- The tree of a text that holds one document. An empty text counts as an empty scalar. -/
def parse (text : String) : Option Node := Token.scan text >>= ofTokens

/-- The text of a scalar. -/
def text? : Node → Option String
  | .scalar text _ => some text
  | _ => none

end Node
end Sortie.Yaml
