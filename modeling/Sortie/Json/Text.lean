/-! JSON as text: quoted strings, and the layout of lists and objects with one item a line. -/
namespace Sortie.Json

/-- Control characters without a letter of their own are written as four hexadecimal digits. -/
def escapeChar (c : Char) : List Char :=
  if c = '"' then ['\\', '"']
  else if c = '\\' then ['\\', '\\']
  else if c = '\n' then ['\\', 'n']
  else if c = '\r' then ['\\', 'r']
  else if c = '\t' then ['\\', 't']
  else if c.toNat = 0x08 then ['\\', 'b']
  else if c.toNat = 0x0C then ['\\', 'f']
  else if c.toNat < 0x20 then
    ['\\', 'u', '0', '0', Nat.digitChar (c.toNat / 16), Nat.digitChar (c.toNat % 16)]
  else [c]

def quoted (s : String) : List Char := '"' :: s.toList.flatMap escapeChar ++ ['"']

/-- Two blanks for each level. -/
def indent (level : Nat) : List Char := List.replicate (2 * level) ' '

/-- Items on lines of their own, a comma after each but the last. -/
def itemLines (level : Nat) : List (List Char) → List Char
  | [] => []
  | [item] => indent level ++ item ++ ['\n']
  | item :: rest => indent level ++ item ++ [',', '\n'] ++ itemLines level rest

/-- A bracketed block at a level; an empty one stays on its line. -/
def block (opening closing : Char) (level : Nat) (items : List (List Char)) : List Char :=
  match items with
  | [] => [opening, closing]
  | _ => opening :: '\n' :: itemLines (level + 1) items ++ indent level ++ [closing]

def list (level : Nat) (items : List (List Char)) : List Char := block '[' ']' level items

def object (level : Nat) (members : List (String × List Char)) : List Char :=
  block '{' '}' level (members.map fun m => quoted m.1 ++ [':', ' '] ++ m.2)

end Sortie.Json
