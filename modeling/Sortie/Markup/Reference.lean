/-! Character and entity references in the text of a document. -/
namespace Sortie.Markup

/-- What can be wrong with a reference. Offsets are counted in bytes from the start of the text. -/
inductive ReferenceFault where
  | unterminated (start finish : Nat)
  | unknownEntity (start finish : Nat) (name : String)
  | signedNumber
  | emptyNumber
  | badDigit
  | numberTooLarge
  | nullCharacter
  | badCodepoint (n : Nat)
  deriving DecidableEq, Repr

def ReferenceFault.message : ReferenceFault → String
  | unterminated s e =>
    "Error while escaping character at range " ++ toString s ++ ".." ++ toString e ++
      ": Cannot find ';' after '&'"
  | unknownEntity s e name =>
    "at " ++ toString s ++ ".." ++ toString e ++ ": unrecognized entity `" ++ name ++ "`"
  | signedNumber => "invalid character reference: unexpected number sign"
  | emptyNumber => "invalid character reference: cannot parse integer from empty string"
  | badDigit => "invalid character reference: invalid digit found in string"
  | numberTooLarge => "invalid character reference: number too large to fit in target type"
  | nullCharacter => "invalid character reference: 0x0 character is not permitted in XML"
  | badCodepoint n =>
    "invalid character reference: `" ++ toString n ++ "` is not a valid codepoint"

def digit? (radix : Nat) (c : Char) : Option Nat :=
  let n :=
    if '0' ≤ c ∧ c ≤ '9' then c.toNat - '0'.toNat
    else if 'a' ≤ c ∧ c ≤ 'z' then c.toNat - 'a'.toNat + 10
    else if 'A' ≤ c ∧ c ≤ 'Z' then c.toNat - 'A'.toNat + 10
    else radix
  if n < radix then some n else none

/-- Reads digits from left to right into 32 bits, after a value read so far. -/
def digitsFrom (radix : Nat) : Nat → List Char → Except ReferenceFault Nat
  | value, [] => .ok value
  | value, c :: cs =>
    match digit? radix c with
    | none => .error .badDigit
    | some d =>
      if radix * value + d < UInt32.size then digitsFrom radix (radix * value + d) cs
      else .error .numberTooLarge

def number (radix : Nat) (cs : List Char) : Except ReferenceFault Nat :=
  match cs with
  | [] => .error .emptyNumber
  | c :: _ => if c = '+' ∨ c = '-' then .error .signedNumber else digitsFrom radix 0 cs

/-- The character with a number: any scalar value but zero. -/
def character (cs : List Char) : Except ReferenceFault Char := do
  let n ← match cs with
    | 'x' :: hex => number 16 hex
    | _ => number 10 cs
  if n = 0 then .error .nullCharacter
  else if n.isValidChar then return Char.ofNat n
  else .error (.badCodepoint n)

def entity? (name : List Char) : Option Char :=
  match String.ofList name with
  | "lt" => some '<'
  | "gt" => some '>'
  | "amp" => some '&'
  | "apos" => some '\''
  | "quot" => some '"'
  | _ => none

def byteSize (cs : List Char) : Nat := (String.ofList cs).utf8ByteSize

/-- Resolves the references of a text, given the bytes before it and the size of the whole. A
reference runs from `&` to `;` with neither of them between. -/
def resolveFrom (total offset : Nat) (cs : List Char) : Except ReferenceFault (List Char) :=
  match cs with
  | [] => .ok []
  | c :: rest =>
    if c = '&' then
      let name := rest.takeWhile fun d => d != '&' && d != ';'
      match rest.drop name.length with
      | ';' :: after => do
        let d ← match name with
          | '#' :: digits => character digits
          | _ => match entity? name with
            | some d => .ok d
            | none =>
              .error (.unknownEntity (offset + 1) (offset + 1 + byteSize name)
                (String.ofList name))
        if after.length ≤ rest.length then
          let ds ← resolveFrom total (offset + 2 + byteSize name) after
          return d :: ds
        else return [d]
      | _ => .error (.unterminated offset total)
    else do
      let ds ← resolveFrom total (offset + c.utf8Size) rest
      return c :: ds
termination_by cs.length
decreasing_by all_goals simp_wf <;> omega

def resolve (cs : List Char) : Except ReferenceFault (List Char) :=
  resolveFrom (byteSize cs) 0 cs

end Sortie.Markup
