import Sortie.Proofs.Program.Legibility
import Sortie.Proofs.Token.Names

/-! Reading Python text: the functions that it defines and the names that it imports and uses.
Quoted texts and comments are told apart from code, so that a name counts only where it stands
bare. -/
namespace Sortie.Python
open Token (isWordPart bounds_of_isWordPart)
open Decimal (isNumeralChar)

/-- The pieces of a text: words, which are names and parts of numerals, quoted texts as they are
written, signs, and the ends of lines. Blanks and comments are passed over. -/
inductive Piece where
  | word (s : String)
  | quoted (s : String)
  | sign (c : Char)
  | lineEnd
  deriving DecidableEq

namespace Piece

def word? : Piece → Option String
  | word s => some s
  | _ => none

def isLineEnd : Piece → Bool
  | lineEnd => true
  | _ => false

end Piece

/-- What is being read: code with the word that is open, a quoted text with its characters so far,
or a comment. -/
inductive Mode where
  | code (word : List Char)
  | text (written : List Char) (escaped : Bool)
  | comment

def wordPiece (w : List Char) : List Piece := if w = [] then [] else [.word (String.ofList w)]

def piecesFrom : Mode → List Char → List Piece
  | .code w, [] => wordPiece w
  | .code w, c :: cs =>
    if isWordPart c then piecesFrom (.code (w ++ [c])) cs
    else wordPiece w ++
      if c = '"' then piecesFrom (.text [] false) cs
      else if c = '#' then piecesFrom .comment cs
      else if c = ' ' then piecesFrom (.code []) cs
      else if c = '\n' then .lineEnd :: piecesFrom (.code []) cs
      else .sign c :: piecesFrom (.code []) cs
  | .text t true, c :: cs => piecesFrom (.text (t ++ [c]) false) cs
  | .text t false, c :: cs =>
    if c = '\\' then piecesFrom (.text (t ++ [c]) true) cs
    else if c = '"' then .quoted (String.ofList t) :: piecesFrom (.code []) cs
    else piecesFrom (.text (t ++ [c]) false) cs
  | .text _ _, [] => []
  | .comment, c :: cs =>
    if c = '\n' then .lineEnd :: piecesFrom (.code []) cs else piecesFrom .comment cs
  | .comment, [] => []

def pieces (cs : List Char) : List Piece := piecesFrom (.code []) cs

/-- The pieces of each line of a text. -/
def lines (cs : List Char) : List (List Piece) := (pieces cs).splitOnP Piece.isLineEnd

def words (ps : List Piece) : List String := ps.filterMap Piece.word?

/-- The function that a line defines. -/
def definedBy : List Piece → List String
  | .word "def" :: .word f :: _ => [f]
  | _ => []

/-- The names that a line imports. -/
def importedBy : List Piece → List String
  | .word "import" :: rest => words rest
  | .word "from" :: rest => words (rest.dropWhile (· ≠ .word "import")).tail
  | _ => []

/-- The words that a line uses: all but the names that it defines or imports. -/
def usedBy : List Piece → List String
  | .word "def" :: .word _ :: rest => words rest
  | .word "import" :: _ => []
  | .word "from" :: _ => []
  | ps => words ps

def defined (ls : List (List Piece)) : List String := ls.flatMap definedBy

def imported (ls : List (List Piece)) : List String := ls.flatMap importedBy

def used (ls : List (List Piece)) : List String := ls.flatMap usedBy

/-- The line that opens a table. -/
def opening (name : String) : List Piece := [.word name, .sign '=', .sign '\x7b']

/-- The line that closes a table. -/
def closing : List Piece := [.sign '\x7d']

/-- The key of a line of a table. -/
def key? : List Piece → Option String
  | .quoted k :: .sign ':' :: _ => some k
  | _ => none

/-- The keys of the table of a name. -/
def keysOf (name : String) (ls : List (List Piece)) : List String :=
  ((ls.dropWhile (· ≠ opening name)).tail.takeWhile (· ≠ closing)).filterMap key?

section Reading
variable {w u rest : List Char}

/-- A text that does not go on with the word before it. -/
def Breaks (cs : List Char) : Prop := cs.head?.all (fun c => !isWordPart c) = true

lemma piecesFrom_word (hu : ∀ c ∈ u, isWordPart c = true) :
    piecesFrom (.code w) (u ++ rest) = piecesFrom (.code (w ++ u)) rest := by
  induction u generalizing w with
  | nil => simp
  | cons c u ih =>
    rw [List.forall_mem_cons] at hu
    simp only [List.cons_append, piecesFrom, hu.1, if_true]
    rw [ih hu.2, List.append_assoc]
    rfl

lemma piecesFrom_of_breaks (h : Breaks rest) :
    piecesFrom (.code w) rest = wordPiece w ++ pieces rest := by
  unfold pieces
  cases rest with
  | nil => simp [piecesFrom, wordPiece]
  | cons c rest =>
    have hc : isWordPart c = false := by simpa [Breaks] using h
    simp only [piecesFrom, hc, wordPiece]
    simp

/-- A name is one piece, with what is written of it before. -/
lemma piecesFrom_name (before : String) {name : String}
    (hname : ∀ c ∈ name.toList, isWordPart c = true) (hne : before ++ name ≠ "")
    (h : Breaks rest) : piecesFrom (.code before.toList) (name.toList ++ rest) =
      .word (before ++ name) :: pieces rest := by
  have hword : before.toList ++ name.toList ≠ [] := by
    rw [← String.toList_append]
    simpa using hne
  rw [piecesFrom_word hname, piecesFrom_of_breaks h]
  unfold wordPiece
  rw [if_neg hword, ← String.toList_append, String.ofList_toList]
  rfl

lemma pieces_name {name : String} (hname : ∀ c ∈ name.toList, isWordPart c = true)
    (hne : name ≠ "") (h : Breaks rest) :
    pieces (name.toList ++ rest) = .word name :: pieces rest := by
  have hpieces := piecesFrom_name "" hname (by simpa using hne) h
  rwa [String.empty_append] at hpieces

lemma piecesFrom_comment (hu : '\n' ∉ u) :
    piecesFrom .comment (u ++ rest) = piecesFrom .comment rest := by
  induction u with
  | nil => rfl
  | cons c u ih =>
    rw [List.mem_cons, not_or] at hu
    rw [List.cons_append, piecesFrom, if_neg (Ne.symm hu.1), ih hu.2]

lemma hexDigit_ne (n : ℕ) : hexDigit n ≠ '\\' ∧ hexDigit n ≠ '"' := by
  have h : ∀ i : Fin 16, Nat.digitChar i ≠ '\\' ∧ Nat.digitChar i ≠ '"' := by decide
  exact h ⟨n % 16, Nat.mod_lt _ (by norm_num)⟩

lemma piecesFrom_escapeChar (t : List Char) (c : Char) :
    piecesFrom (.text t false) (escapeChar c ++ rest) =
      piecesFrom (.text (t ++ escapeChar c) false) rest := by
  unfold escapeChar
  split_ifs with hquote hback hnewline hreturn htab hcontrol
  case pos => simp [piecesFrom]
  case pos => simp [piecesFrom]
  case pos => simp [piecesFrom]
  case pos => simp [piecesFrom]
  case pos => simp [piecesFrom]
  case pos => simp [piecesFrom, hexDigit_ne]
  case neg => simp [piecesFrom, hquote, hback]

/-- How a text is written between its quotes. -/
def escaped (s : String) : String := String.ofList (s.toList.flatMap escapeChar)

/-- A string literal is one piece, whatever it holds. -/
lemma pieces_string (s : String) :
    pieces ((string s).toList ++ rest) = .quoted (escaped s) :: pieces rest := by
  have htext : ∀ cs t : List Char,
      piecesFrom (.text t false) (cs.flatMap escapeChar ++ '"' :: rest) =
      .quoted (String.ofList (t ++ cs.flatMap escapeChar)) :: pieces rest := by
    intro cs
    induction cs with
    | nil =>
      intro t
      simp [piecesFrom, pieces]
    | cons c cs ih =>
      intro t
      rw [List.flatMap_cons, List.append_assoc, piecesFrom_escapeChar, ih, List.append_assoc]
  have hopen : pieces ((string s).toList ++ rest) =
      piecesFrom (.text [] false) (s.toList.flatMap escapeChar ++ '"' :: rest) := by
    simp [string, stringChars, pieces, piecesFrom, wordPiece, isWordPart]
  rw [hopen, htext, List.nil_append]
  rfl

/-- A word is written as it is. -/
lemma escaped_of_word {s : String} (h : ∀ c ∈ s.toList, isWordPart c = true) : escaped s = s := by
  have hchar : ∀ c ∈ s.toList, escapeChar c = [c] := by
    intro c hc
    have hbounds := bounds_of_isWordPart (h c hc)
    have hne : ∀ d : Char, isWordPart d = false → c ≠ d := by
      intro d hd heq
      rw [← heq, h c hc] at hd
      cases hd
    unfold escapeChar
    rw [if_neg (hne _ rfl), if_neg (hne _ rfl), if_neg (hne _ rfl), if_neg (hne _ rfl),
      if_neg (hne _ rfl), if_neg (by omega)]
  unfold escaped
  rw [List.flatMap_congr hchar]
  simp

end Reading

/-- The words that bind names, and the names that a module defines or imports for its tasks. -/
def isNotable (w : String) : Bool :=
  ["def", "import", "from", "TRANSITIONS", "TASKS"].contains w ||
    "_d".toList.isPrefixOf w.toList || TaskClass.all.any fun k => k.name == w

/-- Pieces without a notable word. -/
def Plain (ps : List Piece) : Prop := ∀ w ∈ words ps, isNotable w = false

section Plain
variable {ps qs : List Piece} {a rest : List Char}

lemma words_append (ps qs : List Piece) : words (ps ++ qs) = words ps ++ words qs :=
  List.filterMap_append

lemma Plain.word {w : String} (hw : isNotable w = false) (h : Plain ps) :
    Plain (.word w :: ps) := by
  intro x hx
  rcases List.mem_cons.1 hx with rfl | hx
  · exact hw
  · exact h x hx

lemma Plain.sign (c : Char) (h : Plain ps) : Plain (.sign c :: ps) := h

lemma Plain.quoted (s : String) (h : Plain ps) : Plain (.quoted s :: ps) := h

/-- Every notable word has a character that no numeral has. -/
lemma isNotable_of_numeral {w : String} (h : ∀ c ∈ w.toList, isNumeralChar c = true) :
    isNotable w = false := by
  have key : ∀ v : String, (v.toList.any fun c => !isNumeralChar c) = true → w ≠ v := by
    intro v hv heq
    obtain ⟨c, hc, hnot⟩ := List.any_eq_true.1 hv
    rw [← heq] at hc
    rw [h c hc] at hnot
    cases hnot
  have hfixed : ["def", "import", "from", "TRANSITIONS", "TASKS"].contains w = false := by
    simp only [List.contains_eq_mem, List.mem_cons, List.not_mem_nil, or_false,
      decide_eq_false_iff_not, not_or]
    exact ⟨key _ (by decide), key _ (by decide), key _ (by decide), key _ (by decide),
      key _ (by decide)⟩
  have hclass : (TaskClass.all.any fun k => k.name == w) = false := by
    rw [List.any_eq_false]
    intro k _ hk
    apply key k.name _ (beq_iff_eq.1 hk).symm
    cases k <;> decide
  have hunder : "_d".toList.isPrefixOf w.toList = false := by
    cases hw : w.toList with
    | nil => rfl
    | cons c cs =>
      rw [hw, List.forall_mem_cons] at h
      have hc : c ≠ '_' := by
        rintro rfl
        cases h.1
      simp [List.isPrefixOf, hc.symm]
  unfold isNotable
  rw [hfixed, hclass, hunder]
  rfl

lemma Plain.append (hp : Plain ps) (hq : Plain qs) : Plain (ps ++ qs) := by
  unfold Plain
  rw [words_append, List.forall_mem_append]
  exact ⟨hp, hq⟩

lemma plain_wordPiece {w : List Char} (hw : ∀ c ∈ w, isNumeralChar c = true) :
    Plain (wordPiece w) := by
  unfold wordPiece
  split_ifs
  · simp [Plain, words]
  · have hnotable : isNotable (String.ofList w) = false := isNotable_of_numeral (by simpa using hw)
    exact Plain.word hnotable (by simp [Plain, words])

/-- A text without a notable word, which is read by itself whatever follows. -/
def Inert (a : List Char) : Prop :=
  ∃ ps, Plain ps ∧ ∀ rest, pieces (a ++ rest) = ps ++ pieces rest

lemma Inert.append {b : List Char} (ha : Inert a) (hb : Inert b) : Inert (a ++ b) := by
  obtain ⟨ps, hps, hread⟩ := ha
  obtain ⟨qs, hqs, hread'⟩ := hb
  refine ⟨ps ++ qs, hps.append hqs, ?_⟩
  intro rest
  rw [List.append_assoc, hread, hread', List.append_assoc]

lemma Inert.flatMap {α : Type} {f : α → List Char} {l : List α} (h : ∀ x ∈ l, Inert (f x)) :
    Inert (l.flatMap f) := by
  induction l with
  | nil => exact ⟨[], by simp [Plain, words], fun rest => rfl⟩
  | cons x l ih =>
    rw [List.forall_mem_cons] at h
    rw [List.flatMap_cons]
    exact h.1.append (ih h.2)

/-- A text whose pieces can be computed. -/
lemma inert_of_pieces (ps : List Piece) (hread : ∀ rest, pieces (a ++ rest) = ps ++ pieces rest)
    (hps : ((words ps).all fun w => !isNotable w) = true) : Inert a := by
  refine ⟨ps, ?_, hread⟩
  intro w hw
  simpa using List.all_eq_true.1 hps w hw

lemma inert_string (s : String) : Inert (string s).toList :=
  inert_of_pieces [.quoted (escaped s)] (fun _ => pieces_string s) rfl

/-- The signs that follow the values of a dictionary, a list or a point. -/
def isStop (c : Char) : Bool := c == ',' || c == ']' || c == '\x7d'

lemma pieces_stop {c : Char} (hc : isStop c = true) (rest : List Char) :
    Breaks (c :: rest) ∧ pieces (c :: rest) = .sign c :: pieces rest := by
  have h : (c = ',' ∨ c = ']') ∨ c = '\x7d' := by simpa [isStop] using hc
  rcases h with (rfl | rfl) | rfl
  · exact ⟨rfl, rfl⟩
  · exact ⟨rfl, rfl⟩
  · exact ⟨rfl, rfl⟩

lemma exists_plain_of_numeral {w : List Char} (hw : ∀ c ∈ w, isNumeralChar c = true)
    (ha : ∀ c ∈ a, isNumeralChar c = true) :
    ∃ ps, Plain ps ∧
      ∀ rest, Breaks rest → piecesFrom (.code w) (a ++ rest) = ps ++ pieces rest := by
  induction a generalizing w with
  | nil => exact ⟨_, plain_wordPiece hw, fun rest hrest => piecesFrom_of_breaks hrest⟩
  | cons c a ih =>
    rw [List.forall_mem_cons] at ha
    by_cases hpart : isWordPart c = true
    · have hw' : ∀ d ∈ w ++ [c], isNumeralChar d = true := by
        rw [List.forall_mem_append, List.forall_mem_singleton]
        exact ⟨hw, ha.1⟩
      obtain ⟨ps, hps, hread⟩ := ih hw' ha.2
      refine ⟨ps, hps, ?_⟩
      intro rest hrest
      rw [← hread rest hrest]
      simp [piecesFrom, hpart]
    · obtain ⟨ps, hps, hread⟩ := ih (w := []) (by simp) ha.2
      refine ⟨wordPiece w ++ .sign c :: ps, (plain_wordPiece hw).append (hps.sign c), ?_⟩
      intro rest hrest
      have hne : ∀ d : Char, isNumeralChar d = false → c ≠ d := by
        intro d hd heq
        rw [← heq, ha.1] at hd
        cases hd
      rw [List.append_assoc, List.cons_append, List.cons_append, ← hread rest hrest]
      simp only [piecesFrom]
      rw [if_neg hpart, if_neg (hne _ rfl), if_neg (hne _ rfl), if_neg (hne _ rfl),
        if_neg (hne _ rfl)]

lemma inert_numeral (ha : ∀ c ∈ a, isNumeralChar c = true) {c : Char} (hc : isStop c = true) :
    Inert (a ++ [c]) := by
  obtain ⟨ps, hps, hread⟩ := exists_plain_of_numeral (w := []) (by simp) ha
  refine ⟨ps ++ [.sign c], hps.append (by simp [Plain, words, Piece.word?]), ?_⟩
  intro rest
  obtain ⟨hbreaks, hstop⟩ := pieces_stop hc rest
  rw [List.append_assoc, List.append_assoc, List.singleton_append, List.singleton_append, ← hstop]
  exact hread _ hbreaks

lemma inert_float (v : Float) {c : Char} (hc : isStop c = true) :
    Inert ((float v).toList ++ [c]) := by
  have hsign : Inert [c] := inert_of_pieces [.sign c] (fun rest => (pieces_stop hc rest).2) rfl
  rcases float_cases v with ⟨negative, mantissa, exponent, hv⟩ | hv | hv | hv
  · exact inert_numeral (isNumeralChar_of_finite hv) hc
  · rw [hv.2]
    have hcall : Inert "float(\"nan\")".toList := inert_of_pieces
      [.word "float", .sign '(', .quoted "nan", .sign ')'] (fun _ => rfl) (by decide)
    exact hcall.append hsign
  · rw [hv.2]
    have hcall : Inert "float(\"-inf\")".toList := inert_of_pieces
      [.word "float", .sign '(', .quoted "-inf", .sign ')'] (fun _ => rfl) (by decide)
    exact hcall.append hsign
  · rw [hv.2]
    have hcall : Inert "float(\"inf\")".toList := inert_of_pieces
      [.word "float", .sign '(', .quoted "inf", .sign ')'] (fun _ => rfl) (by decide)
    exact hcall.append hsign

lemma inert_nat (n : ℕ) {c : Char} (hc : isStop c = true) : Inert ((toString n).toList ++ [c]) := by
  apply inert_numeral _ hc
  intro d hd
  simp [isNumeralChar, isDigit_of_mem_toString d hd]

lemma inert_point (p : Point) : Inert p.python.toList := by
  have hlongitude : Inert "\x7b\"longitude\": ".toList :=
    inert_of_pieces [.sign '\x7b', .quoted "longitude", .sign ':'] (fun _ => rfl) rfl
  have hlatitude : Inert " \"latitude\": ".toList :=
    inert_of_pieces [.quoted "latitude", .sign ':'] (fun _ => rfl) rfl
  have haltitude : Inert " \"altitude\": ".toList :=
    inert_of_pieces [.quoted "altitude", .sign ':'] (fun _ => rfl) rfl
  have htext : p.python.toList = "\x7b\"longitude\": ".toList ++ (((float p.longitude).toList ++
      [',']) ++ (" \"latitude\": ".toList ++ (((float p.latitude).toList ++ [',']) ++
        (" \"altitude\": ".toList ++ ((float p.altitude).toList ++ ['\x7d']))))) := by
    unfold Point.python
    simp only [String.toList_append, List.append_assoc]
    rfl
  rw [htext]
  exact hlongitude.append ((inert_float _ rfl).append (hlatitude.append
    ((inert_float _ rfl).append (haltitude.append (inert_float _ rfl)))))

lemma inert_colour (c : Colour) : Inert (Value.colour c).python.toList := by
  have hopen : Inert ['['] := inert_of_pieces [.sign '['] (fun _ => rfl) rfl
  have hblank : Inert [' '] := inert_of_pieces [] (fun _ => rfl) rfl
  have htext : (Value.colour c).python.toList =
      ['['] ++ (((toString c.first.toNat).toList ++ [',']) ++
      ([' '] ++ (((toString c.second.toNat).toList ++ [',']) ++
        ([' '] ++ ((toString c.third.toNat).toList ++ [']']))))) := by
    rw [Value.toList_python_colour]
    simp only [List.append_assoc]
    rfl
  rw [htext]
  exact hopen.append ((inert_nat _ rfl).append (hblank.append
    ((inert_nat _ rfl).append (hblank.append (inert_nat _ rfl)))))

lemma inert_points (p : Point) (ps : List Point) :
    Inert (Value.points (p :: ps)).python.toList := by
  have hopen : Inert ['['] := inert_of_pieces [.sign '['] (fun _ => rfl) rfl
  have hclose : Inert "\n        ]".toList :=
    inert_of_pieces [.lineEnd, .sign ']'] (fun _ => rfl) rfl
  have hline : ∀ q ∈ p :: ps, Inert (Value.pointLine q) := by
    intro q _
    have hbefore : Inert "\n            ".toList := inert_of_pieces [.lineEnd] (fun _ => rfl) rfl
    have hafter : Inert [','] := inert_of_pieces [.sign ','] (fun _ => rfl) rfl
    exact hbefore.append ((inert_point q).append hafter)
  rw [Value.toList_python_points]
  exact hopen.append ((Inert.flatMap hline).append hclose)

/-- No value holds a notable word. -/
lemma inert_value (v : Value) : Inert (v.python.toList ++ [',']) := by
  have hcomma : Inert [','] := inert_of_pieces [.sign ','] (fun _ => rfl) rfl
  cases v with
  | float v =>
    rw [Value.toList_python_float]
    exact inert_float v rfl
  | int n =>
    rw [Value.toList_python_int]
    exact inert_nat n rfl
  | str s =>
    rw [Value.toList_python_str]
    exact (inert_string s).append hcomma
  | points ps =>
    cases ps with
    | nil => exact inert_of_pieces [.sign '[', .sign ']', .sign ','] (fun _ => rfl) rfl
    | cons p ps => exact (inert_points p ps).append hcomma
  | colour c => exact (inert_colour c).append hcomma
  | null => exact inert_of_pieces [.word "None", .sign ','] (fun _ => rfl) (by decide)

end Plain

end Sortie.Python
