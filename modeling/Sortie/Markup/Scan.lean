import Sortie.Markup.Event
import Sortie.Markup.Reference

/-! Cutting a document into events. Only blanks of ASCII count as white space here. -/
namespace Sortie.Markup

def isSpace (c : Char) : Bool := c == ' ' || c == '\t' || c == '\r' || c == '\n'

def dropTrailingSpace (cs : List Char) : List Char := (cs.reverse.dropWhile isSpace).reverse

/-- The characters before the first place where a test on the text read so far (reversed) and the
next character succeeds, and what follows that character. -/
def splitWhere (found : List Char → Char → Bool) (seen : List Char) :
    List Char → Option (List Char × List Char)
  | [] => none
  | c :: cs => if found seen c then some (seen.reverse, cs) else splitWhere found (c :: seen) cs

/-- A tag ends at the first `>` outside quotes. -/
def splitTag (quote : Option Char) (seen : List Char) :
    List Char → Option (List Char × List Char)
  | [] => none
  | c :: cs =>
    match quote with
    | some q => splitTag (if c = q then none else some q) (c :: seen) cs
    | none =>
      if c = '>' then some (seen.reverse, cs)
      else splitTag (if c = '\'' ∨ c = '"' then some c else none) (c :: seen) cs

/-- A document type ends at the `>` that balances the angle brackets opened inside it. -/
def splitDoctype (depth : Nat) (seen : List Char) : List Char → Option (List Char × List Char)
  | [] => none
  | c :: cs =>
    if c = '<' then splitDoctype (depth + 1) (c :: seen) cs
    else if c = '>' then
      if depth = 0 then some (seen.reverse, cs) else splitDoctype (depth - 1) (c :: seen) cs
    else splitDoctype depth (c :: seen) cs

/-- An instruction ends at the first `>` that follows a question mark. -/
def endsInstruction (seen : List Char) (c : Char) : Bool := c == '>' && seen.head? == some '?'

/-- A literal section ends at the first `>` that follows two closing brackets. -/
def endsLiteral (seen : List Char) (c : Char) : Bool := c == '>' && seen.take 2 == [']', ']']

/-- A comment ends at the first `>` that follows two hyphens other than its own opening ones. -/
def endsComment (seen : List Char) (c : Char) : Bool :=
  c == '>' && 5 ≤ byteSize seen && seen.take 2 == ['-', '-']

/-- What one piece of markup contributes: perhaps an event, and the names of the open elements,
innermost first. -/
structure Piece where
  event : Option Event
  opened : List String

/-- Markup from after its `<`: what it contributes and the text that follows, or a fault with the
text that was left when it was noticed. -/
abbrev Cut : Type := Except (Fault × List Char) (Piece × List Char)

/-- Reads a piece that ends where the split says, and complains at the end of the input when it
does not end. -/
def closed (split : Option (List Char × List Char)) (unclosed : Fault)
    (read : List Char → Except Fault Piece) : Cut :=
  match split with
  | none => .error (unclosed, [])
  | some (content, rest) =>
    match read content with
    | .error fault => .error (fault, rest)
    | .ok piece => .ok (piece, rest)

/-- The name of an element ends at the first blank. -/
def tagName (content : List Char) : String := String.ofList (content.takeWhile (!isSpace ·))

/-- A closing tag must name the innermost open element. Blanks at its end do not count, unless it
holds nothing else. -/
def closingTag (opened : List String) (content : List Char) : Except Fault Piece :=
  let trimmed := dropTrailingSpace content
  let found := String.ofList (if trimmed.isEmpty then content else trimmed)
  match opened with
  | [] => .error (.unopened found)
  | name :: outer =>
    if name = found then .ok ⟨some (.closing found), outer⟩ else .error (.mismatched name found)

def tag (opened : List String) (content : List Char) : Except Fault Piece :=
  match content with
  | '/' :: rest => closingTag opened rest
  | _ =>
    if content.getLast? = some '/' then .ok ⟨some (.empty (tagName content.dropLast)), opened⟩
    else
      let name := tagName content
      .ok ⟨some (.opening name), name :: opened⟩

/-- A literal section is taken as it stands between its brackets. -/
def literalSection (opened : List String) (content : List Char) : Except Fault Piece :=
  let start := "![CDATA[".toList
  if start.isPrefixOf content then
    let raw := (content.drop start.length).dropLast.dropLast
    .ok ⟨some (.literal (String.ofList raw)), opened⟩
  else .error .unclosedLiteral

def comment (opened : List String) (content : List Char) : Except Fault Piece :=
  if "!--".toList.isPrefixOf content then .ok ⟨none, opened⟩ else .error .unclosedComment

/-- The word that opens a document type may be in letters of either case, and a name follows. -/
def doctype (opened : List String) (content : List Char) : Except Fault Piece :=
  let start := "!DOCTYPE".toList
  if (content.take start.length).map Char.toUpper = start then
    if (content.drop start.length).all isSpace then .error .namelessDoctype
    else .ok ⟨none, opened⟩
  else .error .unclosedDoctype

def instruction (opened : List String) (content : List Char) : Except Fault Piece :=
  if 1 < content.length then .ok ⟨none, opened⟩ else .error .unclosedInstruction

/-- Reads one piece of markup after its `<`; the first characters decide what it is. -/
def markup (opened : List String) (cs : List Char) : Cut :=
  match cs with
  | [] => .error (.unclosedTag, [])
  | '!' :: rest =>
    match rest with
    | '[' :: _ => closed (splitWhere endsLiteral [] cs) .unclosedLiteral (literalSection opened)
    | '-' :: _ => closed (splitWhere endsComment [] cs) .unclosedComment (comment opened)
    | 'D' :: _ => closed (splitDoctype 0 [] cs) .unclosedDoctype (doctype opened)
    | 'd' :: _ => closed (splitDoctype 0 [] cs) .unclosedDoctype (doctype opened)
    | _ => .error (.unknownMarkup, cs)
  | '?' :: _ =>
    closed (splitWhere endsInstruction [] cs) .unclosedInstruction (instruction opened)
  | _ => closed (splitTag none [] cs) .unclosedTag (tag opened)

/-- The events from a place on; blanks around text are dropped. Markup always consumes a
character, so the guard on the length of the rest never fails. -/
def eventsFrom (total : Nat) (opened : List String) (cs : List Char) : Stream :=
  let body := cs.dropWhile isSpace
  let written := dropTrailingSpace (body.takeWhile (· != '<'))
  let text := if written.isEmpty then [] else [Event.text (String.ofList written)]
  match body.dropWhile (· != '<') with
  | [] => ⟨text, none⟩
  | _ :: rest =>
    match markup opened rest with
    | .error (fault, left) => ⟨text, some (total - byteSize left, fault)⟩
    | .ok (piece, after) =>
      if after.length < cs.length then
        let later := eventsFrom total piece.opened after
        ⟨text ++ piece.event.toList ++ later.events, later.fault⟩
      else ⟨text, none⟩
termination_by cs.length

/-- The events of a document. A byte-order mark in front is dropped and not counted. -/
def scan (document : String) : Stream :=
  let cs := match document.toList with
    | c :: rest => if c.toNat = 0xFEFF then rest else c :: rest
    | [] => []
  eventsFrom (byteSize cs) [] cs

end Sortie.Markup
