/-! A place in a text that is laid out in lines and columns. -/
namespace Sortie.Yaml

/-- The text from a place on, with the number of line breaks before it and of characters and bytes
since the last of them. -/
structure Cursor where
  rest : List Char
  line : Nat
  column : Nat
  bytes : Nat
  deriving DecidableEq, Repr

/-- Line feeds end lines, and so do the line and paragraph separators. -/
def isBreak (c : Char) : Bool := c == '\n' || c.toNat == 0x2028 || c.toNat == 0x2029

def isBlank (c : Char) : Bool := c == ' ' || c == '\t'

/-- A word ends at a blank, at a line break and at the end of the text. -/
def endsWord : List Char → Bool
  | [] => true
  | c :: _ => isBlank c || isBreak c

/-- The other line breaks become line feeds: a carriage return, alone or before a line feed, and the
next-line character. -/
def unifyBreaks : List Char → List Char
  | [] => []
  | '\r' :: '\n' :: cs => '\n' :: unifyBreaks cs
  | c :: cs => (if c.toNat = 0x0D ∨ c.toNat = 0x85 then '\n' else c) :: unifyBreaks cs

/-- Control characters other than tabs and line breaks do not belong in a text. -/
def isPrintable (c : Char) : Bool :=
  let n := c.toNat
  n == 0x09 || n == 0x0A || n == 0x0D || (0x20 ≤ n && n ≤ 0x7E) || n == 0x85 ||
    (0xA0 ≤ n && n ≤ 0xFFFD) || 0x10000 ≤ n

namespace Cursor

def start (cs : List Char) : Cursor := ⟨cs, 0, 0, 0⟩

/-- Passes one character. -/
def next (c : Cursor) : Cursor :=
  match c.rest with
  | [] => c
  | x :: rest =>
    if isBreak x then ⟨rest, c.line + 1, 0, 0⟩
    else ⟨rest, c.line, c.column + 1, c.bytes + x.utf8Size⟩

theorem rest_next (c : Cursor) : c.next.rest = c.rest.tail := by
  obtain ⟨rest, line, column, bytes⟩ := c
  cases rest with
  | nil => rfl
  | cons x rest => simp only [next]; split <;> rfl

/-- Passes some characters. -/
def skip (c : Cursor) : Nat → Cursor
  | 0 => c
  | n + 1 => c.next.skip n

/-- Passes all characters up to the first that fails the test. -/
def skipWhile (c : Cursor) (p : Char → Bool) : Cursor := c.skip (c.rest.takeWhile p).length

/-- Three hyphens or three dots at the start of a line, standing alone. -/
def isDocumentMark (c : Cursor) (mark : Char) : Bool :=
  c.column == 0 && c.rest.take 3 == [mark, mark, mark] && endsWord (c.rest.drop 3)

def atDocumentMark (c : Cursor) : Bool := c.isDocumentMark '-' || c.isDocumentMark '.'

end Cursor
end Sortie.Yaml
