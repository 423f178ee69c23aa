/-! Blank characters and the cuts of a text along them. -/
namespace Sortie.Text

/-- The characters with the Unicode property `White_Space`. -/
def isBlank (c : Char) : Bool :=
  let n := c.toNat
  (0x09 ≤ n && n ≤ 0x0D) || n == 0x20 || n == 0x85 || n == 0xA0 || n == 0x1680 ||
    (0x2000 ≤ n && n ≤ 0x200A) || n == 0x2028 || n == 0x2029 || n == 0x202F || n == 0x205F ||
    n == 0x3000

/-- Drops blanks at both ends. -/
def trimChars (cs : List Char) : List Char :=
  ((cs.dropWhile isBlank).reverse.dropWhile isBlank).reverse

def trim (s : String) : String := String.ofList (trimChars s.toList)

/-- The maximal runs of characters that fail the test, in order. -/
def fieldsChars (isGap : Char → Bool) : List Char → List (List Char)
  | [] => []
  | c :: cs =>
    if isGap c then fieldsChars isGap cs
    else match cs with
      | [] => [[c]]
      | d :: _ =>
        if isGap d then [c] :: fieldsChars isGap cs
        else match fieldsChars isGap cs with
          | [] => [[c]]
          | w :: ws => (c :: w) :: ws

/-- The words of a text: its maximal runs without blanks. -/
def words (s : String) : List String := (fieldsChars isBlank s.toList).map String.ofList

/-- Cuts at every occurrence of a separator; a text without one is a single piece. -/
def splitAtChars (sep : Char) : List Char → List (List Char)
  | [] => [[]]
  | c :: cs =>
    if c = sep then [] :: splitAtChars sep cs
    else match splitAtChars sep cs with
      | [] => [[c]]
      | w :: ws => (c :: w) :: ws

def splitAt (sep : Char) (s : String) : List String :=
  (splitAtChars sep s.toList).map String.ofList

end Sortie.Text
