import Sortie.Proofs.Json.Text
import Sortie.Proofs.Program.Literal

/-! String literals mean the strings they were written for. A reader that goes through a literal
character by character stops at the quote that closes it and has the string by then, whatever stands
in the string and whatever follows the literal. -/
namespace Sortie.Python

/-- What a reader expects next in a string literal: any character, the letter of an escape, or one of
the two digits of a character's number. -/
inductive Expected where
  | any
  | letter
  | high
  | low (high : ℕ)

/-- The character that the letter of an escape stands for. -/
def letterChar? (c : Char) : Option Char :=
  if c = '"' ∨ c = '\\' then some c
  else if c = 'n' then some '\n'
  else if c = 'r' then some '\r'
  else if c = 't' then some '\t'
  else none

/-- A character in front of those read after it. -/
def push (c : Char) (p : List Char × List Char) : List Char × List Char := (c :: p.1, p.2)

/-- Reads the rest of a string literal, up to its closing quote. The literal stays on its line, and
there are no escapes but those of a letter and those of two hexadecimal digits. -/
def readFrom : Expected → List Char → Option (List Char × List Char)
  | _, [] => none
  | .any, c :: rest =>
    if c = '"' then some ([], rest)
    else if c = '\\' then readFrom .letter rest
    else if c = '\n' ∨ c = '\r' then none
    else (readFrom .any rest).map (push c)
  | .letter, c :: rest =>
    if c = 'x' then readFrom .high rest
    else (letterChar? c).bind fun d => (readFrom .any rest).map (push d)
  | .high, c :: rest => (Json.hexValue? c).bind fun high => readFrom (.low high) rest
  | .low high, c :: rest =>
    (Json.hexValue? c).bind fun low => (readFrom .any rest).map (push (Char.ofNat (16 * high + low)))

/-- Reads a double-quoted string literal. Three quotes open a literal of another kind. -/
def readLiteral : List Char → Option (String × List Char)
  | '"' :: rest =>
    if rest.take 2 = ['"', '"'] then none
    else (readFrom .any rest).map fun p => (String.ofList p.1, p.2)
  | _ => none

lemma hexValue?_hexDigit (n : ℕ) : Json.hexValue? (hexDigit n) = some (n % 16) :=
  Json.hexValue?_digitChar (Nat.mod_lt n (by decide))

/-- Every character is read from the way it stands in a literal, and the reader is then where it was
before. -/
lemma readFrom_escapeChar (c : Char) (rest : List Char) :
    readFrom .any (escapeChar c ++ rest) = (readFrom .any rest).map (push c) := by
  unfold escapeChar
  split_ifs with hquote hback hnewline hreturn htab hcontrol
  · rw [hquote]
    rfl
  · rw [hback]
    rfl
  · rw [hnewline]
    rfl
  · rw [hreturn]
    rfl
  · rw [htab]
    rfl
  · have hvalue : 16 * (c.toNat / 16 % 16) + c.toNat % 16 = c.toNat := by omega
    change readFrom .high (hexDigit (c.toNat / 16) :: hexDigit c.toNat :: rest) = _
    rw [readFrom, hexValue?_hexDigit, Option.bind_some, readFrom, hexValue?_hexDigit,
      Option.bind_some, hvalue, Char.ofNat_toNat]
  · rw [List.singleton_append, readFrom, if_neg hquote, if_neg hback, if_neg (by tauto)]

/-- A string is read up to its closing quote. -/
lemma readFrom_flatMap (cs rest : List Char) :
    readFrom .any (cs.flatMap escapeChar ++ '"' :: rest) = some (cs, rest) := by
  induction cs with
  | nil => rfl
  | cons c cs ih =>
    rw [List.flatMap_cons, List.append_assoc, readFrom_escapeChar, ih]
    rfl

/-- Two quotes do not follow the opening one, unless a third quote follows an empty literal. -/
lemma take_flatMap_ne (cs : List Char) {rest : List Char} (h : rest.head? ≠ some '"') :
    (cs.flatMap escapeChar ++ '"' :: rest).take 2 ≠ ['"', '"'] := by
  cases cs with
  | nil =>
    cases rest with
    | nil => simp
    | cons c rest => simpa using h
  | cons c cs =>
    intro heq
    have hsplit := List.take_append_drop 2 ((c :: cs).flatMap escapeChar ++ '"' :: rest)
    rw [heq, List.flatMap_cons, List.append_assoc] at hsplit
    exact escapeChar_append_ne c _ _ hsplit.symm

lemma printable_hexDigit (n : ℕ) : 0x20 ≤ (hexDigit n).toNat ∧ (hexDigit n).toNat ≠ 0x7F := by
  have key : ∀ i : Fin 16, 0x20 ≤ (Nat.digitChar i).toNat ∧ (Nat.digitChar i).toNat ≠ 0x7F := by
    decide
  exact key ⟨n % 16, Nat.mod_lt n (by decide)⟩

lemma printable_escapeChar (c : Char) :
    ∀ d ∈ escapeChar c, 0x20 ≤ d.toNat ∧ d.toNat ≠ 0x7F := by
  unfold escapeChar
  split_ifs with hquote hback hnewline hreturn htab hcontrol
  · simp
  · simp
  · simp
  · simp
  · simp
  · simp [printable_hexDigit]
  · simp only [List.mem_singleton, forall_eq]
    omega

/-- A string literal is read as its string, and what follows is left, unless the literal of an empty
string is taken for the beginning of another by a quote behind it. No control character stands in
it. -/
theorem readLiteral_string (s : String) {rest : List Char} (h : rest.head? ≠ some '"') :
    readLiteral ((string s).toList ++ rest) = some (s, rest) ∧
      ∀ c ∈ (string s).toList, 0x20 ≤ c.toNat ∧ c.toNat ≠ 0x7F := by
  have htext : (string s).toList = '"' :: (s.toList.flatMap escapeChar ++ ['"']) := by
    unfold string stringChars
    rw [String.toList_ofList, List.cons_append]
  rw [htext]
  constructor
  · rw [List.cons_append, List.append_assoc, List.singleton_append, readLiteral,
      if_neg (take_flatMap_ne _ h), readFrom_flatMap, Option.map_some, String.ofList_toList]
  · intro c hc
    simp only [List.mem_cons, List.mem_append, List.mem_flatMap, List.not_mem_nil, or_false] at hc
    rcases hc with rfl | ⟨d, -, hd⟩ | rfl
    · decide
    · exact printable_escapeChar d c hd
    · decide

/-- A string with quotes, backslashes, line ends and other control characters, before a comma. -/
theorem readLiteral_string_controls :
    [','].head? ≠ some '"' ∧
      (string "\"x\\\n\r\t\x00\x1f7\x7fé").toList =
        "\"\\\"x\\\\\\n\\r\\t\\x00\\x1f7\\x7fé\"".toList ∧
      readLiteral ((string "\"x\\\n\r\t\x00\x1f7\x7fé").toList ++ [',']) =
        some ("\"x\\\n\r\t\x00\x1f7\x7fé", [',']) :=
  ⟨by decide, by decide +kernel, (readLiteral_string _ (by decide)).1⟩

end Sortie.Python
