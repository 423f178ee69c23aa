import Sortie.Yaml.Cursor

/-! Scalars and the folding of their lines. Within a scalar a single line break counts as a blank,
and of several the first does not count. -/
namespace Sortie.Yaml

/-- The blanks and line breaks between two words. Blanks count only without line breaks. -/
structure Gap where
  blanks : List Char
  breaks : List Char
  deriving DecidableEq, Repr

namespace Gap

def none : Gap := ⟨[], []⟩

/-- What a gap contributes to the text of a scalar. -/
def text (g : Gap) : List Char :=
  match g.breaks with
  | [] => g.blanks
  | ['\n'] => [' ']
  | '\n' :: more => more
  | breaks => breaks

end Gap

/-- Reads a gap, given what has been read of it. A tab may not stand where lines are indented, to
the left of the given column. -/
def readGap (indent : Nat) (g : Gap) (c : Cursor) : Option (Gap × Cursor) :=
  match _h : c.rest with
  | [] => some (g, c)
  | x :: _ =>
    if isBreak x then readGap indent { g with breaks := g.breaks ++ [x] } c.next
    else if isBlank x then
      if g.breaks.isEmpty then readGap indent { g with blanks := g.blanks ++ [x] } c.next
      else if x = '\t' ∧ c.column < indent then none
      else readGap indent g c.next
    else some (g, c)
termination_by c.rest.length
decreasing_by all_goals simp [Cursor.rest_next, _h]

def hexDigit? (c : Char) : Option Nat :=
  if '0' ≤ c ∧ c ≤ '9' then some (c.toNat - '0'.toNat)
  else if 'a' ≤ c ∧ c ≤ 'f' then some (c.toNat - 'a'.toNat + 10)
  else if 'A' ≤ c ∧ c ≤ 'F' then some (c.toNat - 'A'.toNat + 10)
  else none

/-- The character with a hexadecimal number of a fixed length, and what follows the number. -/
def readCode (digits : Nat) (c : Cursor) : Option (Char × Cursor) := do
  let ds ← (c.rest.take digits).mapM hexDigit?
  let n := ds.foldl (fun n d => 16 * n + d) 0
  if ds.length = digits ∧ n.isValidChar then some (Char.ofNat n, c.skip digits) else none

/-- The character that an escape stands for, after its backslash. -/
def readEscape (c : Cursor) : Option (Char × Cursor) :=
  match c.rest with
  | [] => none
  | x :: _ =>
    let plain (n : Nat) : Option (Char × Cursor) := some (Char.ofNat n, c.next)
    match x with
    | '0' => plain 0x00
    | 'a' => plain 0x07
    | 'b' => plain 0x08
    | 't' => plain 0x09
    | '\t' => plain 0x09
    | 'n' => plain 0x0A
    | 'v' => plain 0x0B
    | 'f' => plain 0x0C
    | 'r' => plain 0x0D
    | 'e' => plain 0x1B
    | ' ' => plain 0x20
    | '"' => plain 0x22
    | '/' => plain 0x2F
    | '\\' => plain 0x5C
    | 'N' => plain 0x85
    | '_' => plain 0xA0
    | 'L' => plain 0x2028
    | 'P' => plain 0x2029
    | 'x' => readCode 2 c.next
    | 'u' => readCode 4 c.next
    | 'U' => readCode 8 c.next
    | _ => none

inductive Quote where
  | single
  | double
  deriving DecidableEq, Repr

def Quote.mark : Quote → Char
  | single => '\''
  | double => '"'

/-- One piece of a quoted scalar: its end, or some text. -/
inductive Piece where
  | finish
  | text (cs : List Char)

/-- Reads a piece of a quoted scalar. A doubled single quote is one quote; a backslash between
double quotes starts an escape or, at the end of a line, hides the line break. -/
def readPiece (quote : Quote) (c : Cursor) : Option (Piece × Cursor) :=
  if c.atDocumentMark then none
  else match c.rest with
    | [] => none
    | x :: rest =>
      if isBlank x || isBreak x then do
        let (g, c) ← readGap 0 .none c
        return (.text g.text, c)
      else if x = '\'' ∧ quote = .single ∧ rest.head? = some '\'' then
        some (.text [x], c.skip 2)
      else if x = quote.mark then some (.finish, c.next)
      else if x = '\\' ∧ quote = .double then
        if rest.head?.any isBreak then do
          let hidden := c.skip 2
          let (g, c) ← readGap 0 ⟨[], ['\n']⟩ hidden
          return (.text g.breaks.tail, c)
        else do
          let (d, c) ← readEscape c.next
          return (.text [d], c)
      else some (.text [x], c.next)

/-- The rest of a quoted scalar after its opening quote. A piece always consumes a character, so
the guard on the length of the rest never fails. -/
def readQuoted (quote : Quote) (c : Cursor) : Option (List Char × Cursor) :=
  match readPiece quote c with
  | none => none
  | some (.finish, after) => some ([], after)
  | some (.text cs, after) =>
    if after.rest.length < c.rest.length then
      (readQuoted quote after).map fun (more, after) => (cs ++ more, after)
    else none
termination_by c.rest.length

/-- The brackets and commas of lists and mappings written in one line. -/
def isFlowMark (c : Char) : Bool := c == ',' || c == '[' || c == ']' || c == '{' || c == '}'

/-- A plain scalar, where it ends, and whether its last gap breaks the line. -/
structure Plain where
  text : List Char
  after : Cursor
  broken : Bool

/-- The rest of a plain scalar, given the gap before it. It ends at a colon that ends a word, at a
comment, at a document mark, where lines are indented less, and between brackets also at a bracket
or comma. A gap counts once a word follows it. -/
def readPlain (inFlow : Bool) (indent : Nat) (gap : Option Gap) (c : Cursor) : Option Plain :=
  let finish : Option Plain := some ⟨[], c, gap.any fun g => !g.breaks.isEmpty⟩
  match _h : c.rest with
  | [] => finish
  | x :: rest =>
    if gap.isSome ∧ (c.atDocumentMark ∨ x = '#') then finish
    else if isBlank x || isBreak x then
      match readGap indent .none c with
      | none => none
      | some (g, after) =>
        if !inFlow && decide (after.column < indent) then
          some ⟨[], after, !g.breaks.isEmpty⟩
        else if after.rest.length < c.rest.length then readPlain inFlow indent (some g) after
        else none
    else if x = ':' ∧ inFlow ∧ rest.head?.any (fun d => isFlowMark d || d == '?') then none
    else if (x = ':' ∧ endsWord rest) ∨ (inFlow ∧ isFlowMark x) then finish
    else
      (readPlain inFlow indent none c.next).map fun p =>
        { p with text := (gap.getD .none).text ++ x :: p.text }
termination_by c.rest.length
decreasing_by all_goals simp_all [Cursor.rest_next]

end Sortie.Yaml
