import Sortie.Yaml.Scalar

/-! The tokens of a YAML document. Indentation becomes tokens of its own, and so does the key of a
mapping, although only the colon after it shows that it is one. -/
namespace Sortie.Yaml

inductive Token where
  | documentStart
  | documentEnd
  | blockList
  | blockMapping
  | blockEnd
  | openList
  | closeList
  | openMapping
  | closeMapping
  | entry
  | comma
  | key
  | value
  | scalar (text : String) (plain : Bool)
  deriving DecidableEq, Repr

/-- A place that turns out to be a key if a colon follows on the same line, within 1024 bytes. Where
a key must stand, the colon is required. -/
structure Candidate where
  required : Bool
  position : Nat
  cursor : Cursor
  deriving DecidableEq, Repr

/-- How far a document has been scanned: the tokens so far, the columns of the open blocks, the
candidate key of the innermost bracket and of those around it, and whether a key may begin here. -/
structure Scan where
  cursor : Cursor
  tokens : List Token
  columns : List Nat
  candidate : Option Candidate
  outer : List (Option Candidate)
  keyAllowed : Bool

namespace Scan

def start (cs : List Char) : Scan := ⟨.start cs, [], [], none, [], true⟩

def inFlow (s : Scan) : Bool := !s.outer.isEmpty

def push (s : Scan) (t : Token) : Scan := { s with tokens := s.tokens ++ [t] }

/-- Closes the blocks that are indented further than a column. -/
def unroll (s : Scan) (column : Nat) : Scan :=
  if s.inFlow then s
  else
    let closed := s.columns.takeWhile fun i => column < i
    { s with
      tokens := s.tokens ++ closed.map fun _ => .blockEnd
      columns := s.columns.drop closed.length }

def unrollAll (s : Scan) : Scan :=
  if s.inFlow then s
  else { s with tokens := s.tokens ++ s.columns.map fun _ => .blockEnd, columns := [] }

/-- Opens a block at a column beyond the present indentation, its token in a given place. -/
def roll (s : Scan) (column position : Nat) (t : Token) : Scan :=
  if !s.inFlow && s.columns.head?.all fun i => i < column then
    { s with columns := column :: s.columns, tokens := s.tokens.insertIdx position t }
  else s

/-- Gives up the candidate, unless a colon is required after it. -/
def dropCandidate (s : Scan) : Option Scan :=
  if s.candidate.any Candidate.required then none else some { s with candidate := none }

/-- Whether a candidate is too far back for a colon here. -/
def isStale (c : Cursor) (k : Candidate) : Bool :=
  decide (k.cursor.line < c.line) || decide (k.cursor.bytes + 1024 < c.bytes)

/-- Gives up the candidates that are too far back. -/
def dropStale (s : Scan) : Option Scan :=
  let stale (k : Option Candidate) : Bool := k.any (isStale s.cursor)
  let all := s.candidate :: s.outer
  if all.any fun k => stale k && k.any Candidate.required then none
  else some { s with
    candidate := s.candidate.filter fun k => !isStale s.cursor k
    outer := s.outer.map fun o => o.filter fun k => !isStale s.cursor k }

/-- Takes the present place for a candidate, where a key may begin. -/
def saveCandidate (s : Scan) : Option Scan :=
  if s.keyAllowed then do
    let s ← s.dropCandidate
    let required := !s.inFlow && s.columns.head? == some s.cursor.column
    return { s with candidate := some ⟨required, s.tokens.length, s.cursor⟩ }
  else some s

/-- Passes some characters that make up a token. -/
def take (s : Scan) (n : Nat) (t : Token) : Scan := { s.push t with cursor := s.cursor.skip n }

def documentMark (s : Scan) (t : Token) : Option Scan := do
  let s ← s.unrollAll.dropCandidate
  return { s.take 3 t with keyAllowed := false }

def openFlow (s : Scan) (t : Token) : Option Scan := do
  let s ← s.saveCandidate
  return { s.take 1 t with candidate := none, outer := s.candidate :: s.outer, keyAllowed := true }

def closeFlow (s : Scan) (t : Token) : Option Scan := do
  let s ← s.dropCandidate
  let s := match s.outer with
    | k :: outer => { s with candidate := k, outer }
    | [] => s
  return { s.take 1 t with keyAllowed := false }

def separator (s : Scan) : Option Scan := do
  let s ← s.dropCandidate
  return { s.take 1 .comma with keyAllowed := true }

/-- The hyphen before an item of a list. -/
def blockEntry (s : Scan) : Option Scan := do
  if !s.inFlow && !s.keyAllowed then none
  let s ← (s.roll s.cursor.column s.tokens.length .blockList).dropCandidate
  return { s.take 1 .entry with keyAllowed := true }

/-- The question mark before a key. -/
def explicitKey (s : Scan) : Option Scan := do
  if !s.inFlow && !s.keyAllowed then none
  let s ← (s.roll s.cursor.column s.tokens.length .blockMapping).dropCandidate
  return { s.take 1 .key with keyAllowed := !s.inFlow }

/-- The colon before a value. It makes a key of the candidate, if there is one. -/
def colon (s : Scan) : Option Scan :=
  match s.candidate with
  | some k =>
    let s := { s with tokens := s.tokens.insertIdx k.position .key }
    let s := s.roll k.cursor.column k.position .blockMapping
    some { s.take 1 .value with candidate := none, keyAllowed := false }
  | none =>
    if !s.inFlow && !s.keyAllowed then none
    else
      let s := s.roll s.cursor.column s.tokens.length .blockMapping
      some { s.take 1 .value with keyAllowed := !s.inFlow }

def quoted (s : Scan) (quote : Quote) : Option Scan := do
  let s ← s.saveCandidate
  let (text, cursor) ← readQuoted quote s.cursor.next
  return { s.push (.scalar (String.ofList text) false) with cursor, keyAllowed := false }

def plain (s : Scan) : Option Scan := do
  let s ← s.saveCandidate
  let indent := (s.columns.head?.map (· + 1)).getD 0
  let p ← readPlain s.inFlow indent none s.cursor
  return { s.push (.scalar (String.ofList p.text) true) with
    cursor := p.after, keyAllowed := p.broken }

/-- Passes blanks, comments and line breaks up to the next token. Tabs count as blanks only where
no key may begin, and a byte-order mark is passed at the start of a line. -/
def skipTrivia (s : Scan) : Scan :=
  let c := s.cursor
  let c := if c.column = 0 ∧ c.rest.head?.any (fun x => x.toNat == 0xFEFF) then c.next else c
  let c := c.skipWhile fun x => x == ' ' || (x == '\t' && (s.inFlow || !s.keyAllowed))
  let c := if c.rest.head? = some '#' then c.skipWhile (!isBreak ·) else c
  if c.rest.head?.any isBreak then
    let after := { s with cursor := c.next, keyAllowed := s.keyAllowed || !s.inFlow }
    if after.cursor.rest.length < s.cursor.rest.length then after.skipTrivia else after
  else { s with cursor := c }
termination_by s.cursor.rest.length

/-- The marks with which no plain scalar begins. -/
def isIndicator (c : Char) : Bool := "-?:,[]\x7b\x7d#&*!|>'\"%@`".contains c

/-- Whether a plain scalar begins with these characters. A hyphen begins one before anything but a
blank, a question mark or a colon outside brackets before the rest of a word. -/
def startsPlain (inFlow : Bool) (x : Char) (rest : List Char) : Bool :=
  !(isIndicator x || isBlank x || isBreak x) ||
    (x == '-' && !rest.head?.any isBlank) ||
    (!inFlow && (x == '?' || x == ':') && !endsWord rest)

/-- Scans one token that begins at the present place. Anchors, tags, block scalars and directives
are not taken up. -/
def token (s : Scan) (x : Char) (rest : List Char) : Option Scan :=
  let c := s.cursor
  if c.column = 0 ∧ x = '%' then none
  else if c.isDocumentMark '-' then s.documentMark .documentStart
  else if c.isDocumentMark '.' then s.documentMark .documentEnd
  else match x with
    | '[' => s.openFlow .openList
    | '{' => s.openFlow .openMapping
    | ']' => s.closeFlow .closeList
    | '}' => s.closeFlow .closeMapping
    | ',' => s.separator
    | '\'' => s.quoted .single
    | '"' => s.quoted .double
    | _ =>
      if x = '-' ∧ endsWord rest then s.blockEntry
      else if x = '?' ∧ (s.inFlow ∨ endsWord rest) then s.explicitKey
      else if x = ':' ∧ (s.inFlow ∨ endsWord rest) then s.colon
      else if startsPlain s.inFlow x rest then s.plain
      else none

/-- Scans the remaining tokens. A token always consumes a character, so the guard on the length of
the rest never fails. -/
def finish (s : Scan) : Option (List Token) :=
  match s.skipTrivia.dropStale with
  | none => none
  | some t =>
    match t.cursor.rest with
    | [] => t.unrollAll.dropCandidate.map Scan.tokens
    | x :: rest =>
      match (t.unroll t.cursor.column).token x rest with
      | none => none
      | some after =>
        if after.cursor.rest.length < s.cursor.rest.length then after.finish else none
termination_by s.cursor.rest.length

end Scan

/-- The tokens of a text, unless it is malformed. -/
def Token.scan (text : String) : Option (List Token) :=
  if text.toList.all isPrintable then (Scan.start (unifyBreaks text.toList)).finish else none

end Sortie.Yaml
