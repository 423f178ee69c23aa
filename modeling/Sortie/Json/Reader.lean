import Sortie.Json.Number

/-! Reading JSON from left to right, as far as a value of a known shape needs it. The first problem
ends the reading. -/
namespace Sortie.Json

/-- Why a text is refused: it ends too early, it is not JSON, or it is JSON of another shape. -/
inductive Flaw where
  | cutShort
  | malformed
  | misshapen
  deriving DecidableEq, Repr

abbrev Reading (α : Type) : Type := Except Flaw (α × List Char)

def isSpace (c : Char) : Bool := c == ' ' || c == '\n' || c == '\t' || c == '\r'

def skipSpace (cs : List Char) : List Char := cs.dropWhile isSpace

def hexValue? (c : Char) : Option Nat :=
  if '0' ≤ c ∧ c ≤ '9' then some (c.toNat - '0'.toNat)
  else if 'a' ≤ c ∧ c ≤ 'f' then some (c.toNat - 'a'.toNat + 10)
  else if 'A' ≤ c ∧ c ≤ 'F' then some (c.toNat - 'A'.toNat + 10)
  else none

/-- Four hexadecimal digits. The text is cut short when it has fewer than four bytes left. -/
def readHex (cs : List Char) : Reading Nat :=
  if (String.ofList (cs.take 4)).utf8ByteSize < 4 then .error .cutShort
  else match cs with
    | a :: b :: c :: d :: rest =>
      match hexValue? a, hexValue? b, hexValue? c, hexValue? d with
      | some a, some b, some c, some d => .ok (((a * 16 + b) * 16 + c) * 16 + d, rest)
      | _, _, _, _ => .error .malformed
    | _ => .error .malformed

/-- The second half of a surrogate pair, given the first. -/
def readTrailing (leading : Nat) (cs : List Char) : Reading Char :=
  match cs with
  | [] => .error .cutShort
  | '\\' :: [] => .error .cutShort
  | '\\' :: 'u' :: rest =>
    match readHex rest with
    | .error e => .error e
    | .ok (n, rest) =>
      if 0xDC00 ≤ n ∧ n ≤ 0xDFFF then
        .ok (Char.ofNat (0x10000 + (leading - 0xD800) * 0x400 + (n - 0xDC00)), rest)
      else .error .malformed
  | _ => .error .malformed

/-- The character of a hexadecimal escape. A surrogate counts only as one of a pair. -/
def readUnicode (cs : List Char) : Reading Char :=
  match readHex cs with
  | .error e => .error e
  | .ok (n, rest) =>
    if 0xDC00 ≤ n ∧ n ≤ 0xDFFF then .error .malformed
    else if 0xD800 ≤ n ∧ n ≤ 0xDBFF then readTrailing n rest
    else .ok (Char.ofNat n, rest)

/-- The character that an escape stands for, after its backslash. -/
def readEscape : List Char → Reading Char
  | [] => .error .cutShort
  | c :: rest =>
    if c = '"' ∨ c = '\\' ∨ c = '/' then .ok (c, rest)
    else if c = 'b' then .ok (Char.ofNat 0x08, rest)
    else if c = 'f' then .ok (Char.ofNat 0x0C, rest)
    else if c = 'n' then .ok ('\n', rest)
    else if c = 'r' then .ok ('\r', rest)
    else if c = 't' then .ok ('\t', rest)
    else if c = 'u' then readUnicode rest
    else .error .malformed

/-- The rest of a string after its opening quote. An escape always consumes a character, so the
guard on the length of the rest never fails. -/
def readStringRest (cs : List Char) : Reading (List Char) :=
  match cs with
  | [] => .error .cutShort
  | c :: rest =>
    if c = '"' then .ok ([], rest)
    else if c = '\\' then
      match readEscape rest with
      | .error e => .error e
      | .ok (d, after) =>
        if after.length < rest.length then
          match readStringRest after with
          | .error e => .error e
          | .ok (ds, after) => .ok (d :: ds, after)
        else .error .malformed
    else if c.toNat < 0x20 then .error .malformed
    else match readStringRest rest with
      | .error e => .error e
      | .ok (ds, after) => .ok (c :: ds, after)
termination_by cs.length
decreasing_by all_goals simp_wf <;> omega

/-- The remaining letters of a literal word. -/
def readLetters : List Char → List Char → Except Flaw Unit
  | [], _ => .ok ()
  | _ :: _, [] => .error .cutShort
  | e :: es, c :: cs => if e = c then readLetters es cs else .error .malformed

/-- The whole digits of a number: a zero stands alone. -/
def readWhole (cs : List Char) : Reading (List Char) :=
  match cs with
  | [] => .error .cutShort
  | '0' :: rest => if rest.head?.any Char.isDigit then .error .malformed else .ok (['0'], rest)
  | c :: _ =>
    if c.isDigit then .ok (cs.takeWhile Char.isDigit, cs.dropWhile Char.isDigit)
    else .error .malformed

/-- One or more digits. -/
def readDigits (cs : List Char) : Reading (List Char) :=
  match cs with
  | [] => .error .cutShort
  | c :: _ =>
    if c.isDigit then .ok (cs.takeWhile Char.isDigit, cs.dropWhile Char.isDigit)
    else .error .malformed

def readFraction (cs : List Char) : Reading (List Char) :=
  match cs with
  | '.' :: rest => readDigits rest
  | _ => .ok ([], cs)

def readExponent (cs : List Char) : Reading Int :=
  let valueOf (ds : List Char) : Nat := ds.foldl (fun n c => 10 * n + Scaled.digitValue c) 0
  match cs with
  | c :: rest =>
    if c = 'e' ∨ c = 'E' then
      match rest with
      | '-' :: rest => (readDigits rest).map fun (ds, rest) => (-(valueOf ds : Int), rest)
      | '+' :: rest => (readDigits rest).map fun (ds, rest) => ((valueOf ds : Int), rest)
      | _ => (readDigits rest).map fun (ds, rest) => ((valueOf ds : Int), rest)
    else .ok (0, cs)
  | [] => .ok (0, [])

/-- A number after its sign; one that is too large is refused. -/
def checkNumber (cs : List Char) : Except Flaw Unit := do
  let (whole, cs) ← readWhole cs
  let (fraction, cs) ← readFraction cs
  let (exponent, _) ← readExponent cs
  if (Scaled.ofDigits whole fraction exponent).isTooLarge then .error .malformed else .ok ()

/-- What is wrong with a value that is not of the wanted kind. Scalars are read in full first;
lists and objects are noticed where they start. -/
def misfit (cs : List Char) : Flaw :=
  let after (r : Except Flaw Unit) : Flaw := match r with
    | .error e => e
    | .ok _ => .misshapen
  match cs with
  | [] => .cutShort
  | c :: rest =>
    if c = 'n' then after (readLetters ['u', 'l', 'l'] rest)
    else if c = 't' then after (readLetters ['r', 'u', 'e'] rest)
    else if c = 'f' then after (readLetters ['a', 'l', 's', 'e'] rest)
    else if c = '-' then after (checkNumber rest)
    else if c.isDigit then after (checkNumber cs)
    else if c = '"' then after ((readStringRest rest).map fun _ => ())
    else if c = '[' ∨ c = '{' then .misshapen
    else .malformed

/-- A string value. -/
def readString (cs : List Char) : Reading String :=
  match skipSpace cs with
  | '"' :: rest => (readStringRest rest).map fun (s, rest) => (String.ofList s, rest)
  | cs => .error (misfit cs)

/-- What stands after an item of a list or object: another item, or the end. -/
inductive Next where
  | item (rest : List Char)
  | finish (rest : List Char)

/-- Looks for the next item before a closing bracket; commas separate items and do not trail. -/
def next (closing : Char) (first : Bool) (cs : List Char) : Except Flaw Next :=
  match skipSpace cs with
  | [] => .error .cutShort
  | c :: rest =>
    if c = closing then .ok (.finish rest)
    else if first then .ok (.item (c :: rest))
    else if c = ',' then
      match skipSpace rest with
      | [] => .error .cutShort
      | d :: rest => if d = closing then .error .malformed else .ok (.item (d :: rest))
    else .error .malformed

/-- The items of a list or object after its opening bracket. An item always consumes a character,
so the guard on the length of the rest never fails. -/
def readItems {α : Type} (closing : Char) (item : List Char → Reading α) (first : Bool)
    (cs : List Char) : Reading (List α) :=
  match next closing first cs with
  | .error e => .error e
  | .ok (.finish rest) => .ok ([], rest)
  | .ok (.item rest) =>
    match item rest with
    | .error e => .error e
    | .ok (a, after) =>
      if after.length < cs.length then
        match readItems closing item false after with
        | .error e => .error e
        | .ok (as, after) => .ok (a :: as, after)
      else .error .malformed
termination_by cs.length

/-- A list of items of one kind. -/
def readList {α : Type} (item : List Char → Reading α) (cs : List Char) : Reading (List α) :=
  match skipSpace cs with
  | '[' :: rest => readItems ']' item true rest
  | cs => .error (misfit cs)

/-- A member of an object: a quoted name, a colon and a value. -/
def readMember {α : Type} (value : List Char → Reading α) (cs : List Char) :
    Except Flaw ((String × α) × List Char) :=
  match cs with
  | '"' :: rest => do
    let (name, rest) ← readStringRest rest
    match skipSpace rest with
    | [] => .error .cutShort
    | ':' :: rest => do
      let (v, rest) ← value rest
      return ((String.ofList name, v), rest)
    | _ => .error .malformed
  | _ => .error .malformed

def readObject {α : Type} (value : List Char → Reading α) (cs : List Char) :
    Reading (List (String × α)) :=
  match skipSpace cs with
  | '{' :: rest => readItems '}' (readMember value) true rest
  | cs => .error (misfit cs)

/-- A list that must hold another item. -/
def readNext {α : Type} (first : Bool) (item : List Char → Reading α) (cs : List Char) :
    Except Flaw (α × List Char) := do
  match ← next ']' first cs with
  | .finish _ => .error .misshapen
  | .item rest => item rest

/-- The end of a list that holds no more items. -/
def readEnd (cs : List Char) : Except Flaw (List Char) :=
  match skipSpace cs with
  | [] => .error .cutShort
  | ']' :: rest => .ok rest
  | _ => .error .malformed

/-- Reads a whole text. -/
def readAll {α : Type} (value : List Char → Reading α) (text : String) : Except Flaw α := do
  let (a, rest) ← value text.toList
  match skipSpace rest with
  | [] => return a
  | _ => .error .malformed

end Sortie.Json
