import Sortie.Decimal.Numeral
import Sortie.Text.Blank
import Sortie.Token

/-! Cutting a script into tokens. Blanks and comments, which run from `//` to the end of the line,
stand between tokens and are dropped; every token keeps the place of its first character. -/
namespace Sortie.Token

inductive Fault where
  | unclosedText
  | strayMinus
  | unexpected (c : Char)
  | badNumeral (written : String)
  deriving DecidableEq, Repr

def Fault.message : Fault → String
  | unclosedText => "unclosed string literal"
  | strayMinus => "unexpected '-' (expected '->' or a number)"
  | unexpected c => "unexpected character: '" ++ c.toString ++ "'"
  | badNumeral written => "invalid number: " ++ written

/-- Splits off leading blanks and comments. The flag says whether a comment is open. -/
def spanTrivia : (inComment : Bool) → List Char → List Char × List Char
  | _, [] => ([], [])
  | true, c :: cs =>
    let (gap, rest) := spanTrivia (c != '\n') cs
    (c :: gap, rest)
  | false, c :: cs =>
    if Text.isBlank c then
      let (gap, rest) := spanTrivia false cs
      (c :: gap, rest)
    else if c = '/' ∧ cs.head? = some '/' then
      let (gap, rest) := spanTrivia true cs
      (c :: gap, rest)
    else ([], c :: cs)

def isWordStart (c : Char) : Bool := c.isAlpha || c == '_'

def isWordPart (c : Char) : Bool := c.isAlphanum || c == '_'

/-- One token with the characters it is written in and the text that follows. -/
structure Lexeme where
  kind : Kind
  spelling : List Char
  rest : List Char

/-- A quoted text ends on its own line; there are no escapes. The opening quote is consumed. -/
def scanText (cs : List Char) : Except Fault Lexeme :=
  let body := cs.takeWhile fun c => c != '"' && c != '\n'
  match cs.dropWhile fun c => c != '"' && c != '\n' with
  | '"' :: rest => .ok ⟨.text (String.ofList body), '"' :: body ++ ['"'], rest⟩
  | _ => .error .unclosedText

/-- The kind of a numeral: an integer when it is written without minus, point and exponent and fits
64 bits. -/
def numeralKind (n : Decimal.Numeral) : Kind :=
  let whole := Decimal.digitsValue n.whole
  if n.sign ≠ some '-' ∧ n.fraction = none ∧ n.exponent = none ∧ whole < UInt64.size then
    .integer (UInt64.ofNat whole)
  else .number n.toFloat

def scanNumeral (cs : List Char) : Except Fault Lexeme :=
  let (n, rest) := Decimal.Numeral.scan cs
  if n.hasDigit then .ok ⟨numeralKind n, n.text, rest⟩
  else .error (.badNumeral (String.ofList n.text))

def scanWord (cs : List Char) : Lexeme :=
  let word := cs.takeWhile isWordPart
  let s := String.ofList word
  ⟨match Keyword.ofWord? s with
    | some k => .keyword k
    | none => .name s, word, cs.dropWhile isWordPart⟩

/-- The token at the head of a text that starts with neither blank nor comment. -/
def scanOne (c : Char) (cs : List Char) : Except Fault Lexeme :=
  let next (p : Char → Bool) : Bool := match cs with
    | [] => false
    | d :: _ => p d
  match Mark.ofChar? c with
  | some m => .ok ⟨.mark m, [c], cs⟩
  | none =>
    if c = '"' then scanText cs
    else if c = '-' then
      match cs with
      | '>' :: rest => .ok ⟨.mark .arrow, ['-', '>'], rest⟩
      | _ => if next fun d => d.isDigit || d == '.' then scanNumeral (c :: cs) else .error .strayMinus
    else if c = '+' ∧ next (fun d => d.isDigit || d == '.') then scanNumeral (c :: cs)
    else if c = '.' ∧ next Char.isDigit then scanNumeral (c :: cs)
    else if c.isDigit then scanNumeral (c :: cs)
    else if isWordStart c then .ok (scanWord (c :: cs))
    else .error (.unexpected c)

/-- Scans from a place on. A token always consumes a character, so the guard on the length of the
rest never fails. -/
def scanFrom (position : Position) (cs : List Char) : Except (Located Fault) (List Token) :=
  let (gap, body) := spanTrivia false cs
  let place := position.after gap
  match body with
  | [] => .ok [⟨.finish, place⟩]
  | c :: rest =>
    match scanOne c rest with
    | .error fault => .error ⟨fault, place⟩
    | .ok lexeme =>
      if lexeme.rest.length < cs.length then
        match scanFrom (place.after lexeme.spelling) lexeme.rest with
        | .error e => .error e
        | .ok tokens => .ok (⟨lexeme.kind, place⟩ :: tokens)
      else .error ⟨.unexpected c, place⟩
termination_by cs.length

/-- The tokens of a script, the last of them marking its end. -/
def scan (source : String) : Except (Located Fault) (List Token) := scanFrom .first source.toList

end Sortie.Token
