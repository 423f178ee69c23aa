import Mathlib.Data.List.Forall2
import Sortie.Json.Reader
import Sortie.Json.Text

/-! JSON that was written can be read. A quoted string, a list with one item a line and an object with
one member a line are each taken from the text as they were put there, and what follows is left. -/
namespace Sortie.Json

/-! ### Strings -/

lemma hexValue?_digitChar {n : ℕ} (hn : n < 16) : hexValue? (Nat.digitChar n) = some n := by
  have key : ∀ i : Fin 16, hexValue? (Nat.digitChar i) = some i.val := by decide
  exact key ⟨n, hn⟩

/-- Four characters are at least four bytes. -/
lemma not_utf8ByteSize_take_lt (a b c d : Char) (rest : List Char) :
    ¬ (String.ofList ((a :: b :: c :: d :: rest).take 4)).utf8ByteSize < 4 := by
  have ha := a.utf8Size_pos
  have hb := b.utf8Size_pos
  have hc := c.utf8Size_pos
  have hd := d.utf8Size_pos
  simp only [List.take_succ_cons, List.take_zero, String.ofList_cons, String.ofList_nil,
    String.utf8ByteSize_append, String.utf8ByteSize_singleton, String.utf8ByteSize_empty]
  omega

lemma readHex_digits {high low : ℕ} (hhigh : high < 16) (hlow : low < 16) (rest : List Char) :
    readHex ('0' :: '0' :: Nat.digitChar high :: Nat.digitChar low :: rest) =
      .ok (16 * high + low, rest) := by
  have hzero : hexValue? '0' = some 0 := by decide
  unfold readHex
  rw [if_neg (not_utf8ByteSize_take_lt _ _ _ _ rest)]
  simp only [hzero, hexValue?_digitChar hhigh, hexValue?_digitChar hlow]
  simp [Nat.mul_comm]

/-- A character is written as it is, or as an escape that stands for it. -/
lemma escapeChar_cases (c : Char) :
    (escapeChar c = [c] ∧ c ≠ '"' ∧ c ≠ '\\' ∧ ¬ c.toNat < 0x20) ∨
      ∃ cs, escapeChar c = '\\' :: cs ∧ cs ≠ [] ∧ ∀ rest, readEscape (cs ++ rest) = .ok (c, rest) := by
  unfold escapeChar
  split_ifs with hquote hback hnewline hreturn htab hbackspace hfeed hcontrol
  · exact Or.inr ⟨_, rfl, by simp, fun rest => by rw [hquote]; rfl⟩
  · exact Or.inr ⟨_, rfl, by simp, fun rest => by rw [hback]; rfl⟩
  · exact Or.inr ⟨_, rfl, by simp, fun rest => by rw [hnewline]; rfl⟩
  · exact Or.inr ⟨_, rfl, by simp, fun rest => by rw [hreturn]; rfl⟩
  · exact Or.inr ⟨_, rfl, by simp, fun rest => by rw [htab]; rfl⟩
  · refine Or.inr ⟨_, rfl, by simp, fun rest => ?_⟩
    change Except.ok (Char.ofNat 0x08, rest) = _
    rw [← hbackspace, Char.ofNat_toNat]
  · refine Or.inr ⟨_, rfl, by simp, fun rest => ?_⟩
    change Except.ok (Char.ofNat 0x0C, rest) = _
    rw [← hfeed, Char.ofNat_toNat]
  · refine Or.inr ⟨_, rfl, by simp, fun rest => ?_⟩
    change readUnicode ('0' :: '0' :: _ :: _ :: rest) = _
    unfold readUnicode
    rw [readHex_digits (by omega) (by omega), Nat.div_add_mod]
    dsimp only
    rw [if_neg (by omega), if_neg (by omega), Char.ofNat_toNat]
  · exact Or.inl ⟨rfl, hquote, hback, hcontrol⟩

section Rest
variable {c : Char} {cs rest after ds : List Char}

lemma readStringRest_plain (hquote : c ≠ '"') (hback : c ≠ '\\') (hcontrol : ¬ c.toNat < 0x20)
    (h : readStringRest rest = .ok (ds, after)) :
    readStringRest (c :: rest) = .ok (c :: ds, after) := by
  rw [readStringRest, if_neg hquote, if_neg hback, if_neg hcontrol, h]

lemma readStringRest_escape (hescape : readEscape cs = .ok (c, rest))
    (hlt : rest.length < cs.length) (h : readStringRest rest = .ok (ds, after)) :
    readStringRest ('\\' :: cs) = .ok (c :: ds, after) := by
  rw [readStringRest, if_neg (by decide), if_pos rfl, hescape]
  simp only [hlt, if_true, h]

lemma readStringRest_escapeChar (c : Char) (h : readStringRest rest = .ok (ds, after)) :
    readStringRest (escapeChar c ++ rest) = .ok (c :: ds, after) := by
  rcases escapeChar_cases c with ⟨hc, hquote, hback, hcontrol⟩ | ⟨cs, hc, hne, hescape⟩
  · rw [hc]
    exact readStringRest_plain hquote hback hcontrol h
  · rw [hc]
    apply readStringRest_escape (hescape rest) _ h
    have hpos := List.length_pos_of_ne_nil hne
    rw [List.length_append]
    omega

/-- A string is read up to its closing quote, whatever it holds. -/
lemma readStringRest_flatMap (cs rest : List Char) :
    readStringRest (cs.flatMap escapeChar ++ '"' :: rest) = .ok (cs, rest) := by
  induction cs with
  | nil => rw [List.flatMap_nil, List.nil_append, readStringRest, if_pos rfl]
  | cons c cs ih =>
    rw [List.flatMap_cons, List.append_assoc]
    exact readStringRest_escapeChar c ih

end Rest

/-! ### Items on lines -/

/-- A reader takes a text that begins like a value or a member, and leaves what follows it. -/
structure Reads {α : Type} (item : List Char → Reading α) (text : List Char) (a : α) : Prop where
  opens : ∃ c cs, text = c :: cs ∧ (c = '"' ∨ c = '[' ∨ c = '{')
  takes : ∀ rest, item (text ++ rest) = .ok (a, rest)

/-- What stands before the line of an item: the end of the line before it. -/
def lead (first : Bool) : List Char := if first then ['\n'] else [',', '\n']

section Next
variable {α : Type} {item : List Char → Reading α} {text : List Char} {a : α} {closing c : Char}

lemma skipSpace_cons (hc : isSpace c = false) (cs : List Char) : skipSpace (c :: cs) = c :: cs :=
  List.dropWhile_cons_of_neg (by simp [hc])

/-- The end of a line and the indentation of the next do not count. -/
lemma skipSpace_indent (level : ℕ) (hc : isSpace c = false) (cs : List Char) :
    skipSpace ('\n' :: (indent level ++ c :: cs)) = c :: cs := by
  have hblank : ∀ b ∈ '\n' :: indent level, isSpace b = true := by
    intro b hb
    rcases List.mem_cons.1 hb with rfl | hb
    · rfl
    · rw [List.eq_of_mem_replicate hb]
      rfl
  rw [← List.cons_append]
  exact (List.dropWhile_append_of_pos hblank).trans (skipSpace_cons hc cs)

lemma next_lead (first : Bool) (level : ℕ) (hclosing : closing = ']' ∨ closing = '}')
    (h : Reads item text a) (rest : List Char) :
    next closing first (lead first ++ (indent level ++ (text ++ rest))) =
      .ok (.item (text ++ rest)) := by
  obtain ⟨c, cs, rfl, hc⟩ := h.opens
  have hspace : isSpace c = false := by rcases hc with rfl | rfl | rfl <;> rfl
  have hne : c ≠ closing := by
    rcases hc with rfl | rfl | rfl <;> rcases hclosing with rfl | rfl <;> decide
  have hcomma : ',' ≠ closing := by rcases hclosing with rfl | rfl <;> decide
  have hskip := skipSpace_indent level hspace (cs ++ rest)
  cases first with
  | true =>
    unfold next lead
    simp [hskip, hne]
  | false =>
    unfold next lead
    simp [skipSpace_cons (c := ',') rfl, hskip, hne, hcomma]

lemma next_finish (first : Bool) (level : ℕ) (hclosing : closing = ']' ∨ closing = '}')
    (rest : List Char) :
    next closing first ('\n' :: (indent level ++ closing :: rest)) = .ok (.finish rest) := by
  have hspace : isSpace closing = false := by rcases hclosing with rfl | rfl <;> rfl
  unfold next
  rw [skipSpace_indent level hspace]
  simp

end Next

section Items
variable {α : Type} {item : List Char → Reading α} {closing : Char} {first : Bool} {a : α}
  {as : List α} {cs text more rest : List Char} {texts : List (List Char)}

lemma readItems_finish (h : next closing first cs = .ok (.finish rest)) :
    readItems closing item first cs = .ok ([], rest) := by
  rw [readItems, h]

lemma readItems_item (h : Reads item text a)
    (hnext : next closing first cs = .ok (.item (text ++ more))) (hlt : more.length < cs.length)
    (hmore : readItems closing item false more = .ok (as, rest)) :
    readItems closing item first cs = .ok (a :: as, rest) := by
  rw [readItems, hnext]
  simp only [h.takes, hlt, if_true, hmore]

/-- Items on lines of their own are all read, up to the closing bracket. -/
lemma readItems_itemLines (hclosing : closing = ']' ∨ closing = '}') (level outer : ℕ)
    (h : List.Forall₂ (Reads item) texts as) (hne : texts ≠ []) (first : Bool) (rest : List Char) :
    readItems closing item first
      (lead first ++ (itemLines level texts ++ (indent outer ++ closing :: rest))) =
        .ok (as, rest) := by
  induction h generalizing first with
  | nil => exact absurd rfl hne
  | @cons text a texts as htext htexts ih =>
    -- what follows the item is either the end of the block or a comma and the next line
    have hlines : ∃ more, itemLines level (text :: texts) ++ (indent outer ++ closing :: rest) =
        indent level ++ (text ++ more) ∧ readItems closing item false more = .ok (as, rest) := by
      cases htexts with
      | nil =>
        refine ⟨'\n' :: (indent outer ++ closing :: rest), by simp [itemLines], ?_⟩
        exact readItems_finish (next_finish false outer hclosing rest)
      | @cons text' a' texts as htext' htexts =>
        refine ⟨_, ?_, ih (by simp) false⟩
        simp [itemLines, lead]
    obtain ⟨more, heq, hmore⟩ := hlines
    rw [heq]
    apply readItems_item htext (next_lead first level hclosing htext more) _ hmore
    cases first <;> simp [lead] <;> omega

/-- A block is its opening bracket and a body that is read as its items. -/
lemma exists_block_eq (opening : Char) (hclosing : closing = ']' ∨ closing = '}') (level : ℕ)
    (h : List.Forall₂ (Reads item) texts as) :
    ∃ body, block opening closing level texts = opening :: body ∧
      ∀ rest, readItems closing item true (body ++ rest) = .ok (as, rest) := by
  cases h with
  | nil =>
    refine ⟨[closing], rfl, fun rest => readItems_finish ?_⟩
    have hspace : isSpace closing = false := by rcases hclosing with rfl | rfl <;> rfl
    unfold next
    simp [skipSpace_cons hspace]
  | cons htext htexts =>
    refine ⟨_, rfl, fun rest => ?_⟩
    have hread := readItems_itemLines hclosing (level + 1) level (.cons htext htexts) (by simp) true
      rest
    simpa [lead] using hread

end Items

/-! ### Values -/

section Values
variable {α : Type} {item value : List Char → Reading α} {texts : List (List Char)} {as : List α}

lemma reads_quoted (s : String) : Reads readString (quoted s) s where
  opens := ⟨'"', _, rfl, Or.inl rfl⟩
  takes rest := by
    unfold readString quoted
    rw [List.cons_append, List.cons_append, skipSpace_cons rfl, List.append_assoc]
    change (readStringRest (_ ++ '"' :: rest)).map _ = _
    rw [readStringRest_flatMap]
    exact congrArg (fun t => Except.ok (t, rest)) (String.ofList_toList)

lemma reads_list (level : ℕ) (h : List.Forall₂ (Reads item) texts as) :
    Reads (readList item) (list level texts) as := by
  obtain ⟨body, hbody, hread⟩ := exists_block_eq '[' (Or.inl rfl) level h
  refine ⟨⟨'[', body, hbody, Or.inr (Or.inl rfl)⟩, fun rest => ?_⟩
  unfold readList list
  rw [hbody, List.cons_append, skipSpace_cons rfl]
  exact hread rest

/-- A member whose value is read behind a blank. -/
lemma reads_member (name : String) {text : List Char} {a : α} (h : Reads value text a)
    (hblank : ∀ cs, value (' ' :: cs) = value cs) :
    Reads (readMember value) (quoted name ++ [':', ' '] ++ text) (name, a) where
  opens := ⟨'"', _, rfl, Or.inl rfl⟩
  takes rest := by
    have htext : quoted name ++ [':', ' '] ++ text ++ rest =
        '"' :: (name.toList.flatMap escapeChar ++ '"' :: (':' :: ' ' :: (text ++ rest))) := by
      simp [quoted]
    rw [htext]
    unfold readMember
    simp only [readStringRest_flatMap, bind, Except.bind, skipSpace_cons (c := ':') rfl, hblank,
      h.takes, pure, Except.pure, String.ofList_toList]

lemma reads_object (level : ℕ) {members : List (String × List Char)} {entries : List (String × α)}
    (h : List.Forall₂ (fun m e => Reads (readMember value) (quoted m.1 ++ [':', ' '] ++ m.2) e)
      members entries) :
    Reads (readObject value) (object level members) entries := by
  have hlines : List.Forall₂ (Reads (readMember value))
      (members.map fun m => quoted m.1 ++ [':', ' '] ++ m.2) entries :=
    List.forall₂_map_left_iff.2 h
  obtain ⟨body, hbody, hread⟩ := exists_block_eq '{' (Or.inr rfl) level hlines
  refine ⟨⟨'{', body, hbody, Or.inr (Or.inr rfl)⟩, fun rest => ?_⟩
  unfold readObject object
  rw [hbody, List.cons_append, skipSpace_cons rfl]
  exact hread rest

/-- A text that holds a value and nothing else. -/
lemma readAll_of_reads {text : List Char} {a : α} (h : Reads value text a) :
    readAll value (String.ofList text) = .ok a := by
  have htakes := h.takes []
  rw [List.append_nil] at htakes
  unfold readAll
  rw [String.toList_ofList, htakes]
  rfl

end Values

/-! ### The layout of values -/

/-- Values made of strings, lists and objects. -/
inductive Tree where
  | text (s : String)
  | list (items : List Tree)
  | object (members : List (String × Tree))

/-- Lines between brackets, indented by one level more than the brackets and joined by commas. With no
lines the brackets stand together. -/
def spread (opening closing : Char) (level : ℕ) (lines : List (List Char)) : List Char :=
  if lines = [] then [opening, closing]
  else opening :: '\n' :: ([',', '\n'].intercalate (lines.map (indent (level + 1) ++ ·)) ++
    ('\n' :: (indent level ++ [closing])))

namespace Tree

mutual

/-- The text of a value at a level, with one item or member a line. -/
def pretty (level : ℕ) : Tree → List Char
  | text s => quoted s
  | list items => spread '[' ']' level (prettyItems (level + 1) items)
  | object members => spread '{' '}' level (prettyMembers (level + 1) members)

def prettyItems (level : ℕ) : List Tree → List (List Char)
  | [] => []
  | t :: ts => t.pretty level :: prettyItems level ts

def prettyMembers (level : ℕ) : List (String × Tree) → List (List Char)
  | [] => []
  | (name, t) :: ms => (quoted name ++ [':', ' '] ++ t.pretty level) :: prettyMembers level ms

end

lemma prettyItems_eq_map (level : ℕ) (ts : List Tree) :
    prettyItems level ts = ts.map (pretty level) := by
  induction ts with
  | nil => rw [prettyItems, List.map_nil]
  | cons t ts ih => rw [prettyItems, ih, List.map_cons]

lemma prettyMembers_eq_map (level : ℕ) (ms : List (String × Tree)) :
    prettyMembers level ms = ms.map fun m => quoted m.1 ++ [':', ' '] ++ m.2.pretty level := by
  induction ms with
  | nil => rw [prettyMembers, List.map_nil]
  | cons m ms ih => rw [prettyMembers, ih, List.map_cons]

end Tree

lemma itemLines_eq_intercalate (level : ℕ) (t : List Char) (ts : List (List Char)) :
    itemLines level (t :: ts) =
      [',', '\n'].intercalate ((t :: ts).map (indent level ++ ·)) ++ ['\n'] := by
  induction ts generalizing t with
  | nil => simp [itemLines]
  | cons u ts ih =>
    rw [itemLines, ih]
    · simp [List.intercalate_cons_cons]
    · simp

lemma block_eq_spread (opening closing : Char) (level : ℕ) (lines : List (List Char)) :
    block opening closing level lines = spread opening closing level lines := by
  cases lines with
  | nil => rfl
  | cons t ts =>
    unfold block spread
    rw [if_neg (by simp), itemLines_eq_intercalate]
    simp

end Sortie.Json
