import Sortie.Proofs.Program.Pieces

/-! What each part of the text of a program defines, imports and refers to. -/
namespace Sortie

namespace Python

/-- A text of whole lines, given by their pieces. -/
def Written (cs : List Char) (ls : List (List Piece)) : Prop :=
  ∀ rest, lines (cs ++ rest) = ls ++ lines rest

/-- What some lines define and import, and the notable words that they use. -/
structure Outlines (ls : List (List Piece)) (functions imports references : List String) :
    Prop where
  defined : defined ls = functions
  imported : imported ls = imports
  used : (used ls).filter isNotable = references

section Outlines
variable {cs ds : List Char} {ls ms : List (List Piece)} {ps : List Piece}

lemma Written.append (h : Written cs ls) (h' : Written ds ms) : Written (cs ++ ds) (ls ++ ms) := by
  intro rest
  rw [List.append_assoc, h, h', List.append_assoc]

lemma written_of_pieces (ps : List Piece)
    (h : ∀ rest, pieces (cs ++ rest) = ps ++ .lineEnd :: pieces rest) :
    Written cs (ps.splitOnP Piece.isLineEnd) := by
  intro rest
  unfold lines
  rw [h, List.splitOnP_append_cons _ _ rfl]

lemma Outlines.append {functions functions' imports imports' references references' : List String}
    (h : Outlines ls functions imports references)
    (h' : Outlines ms functions' imports' references') :
    Outlines (ls ++ ms) (functions ++ functions') (imports ++ imports')
      (references ++ references') := by
  constructor
  · rw [← h.defined, ← h'.defined]
    exact List.flatMap_append
  · rw [← h.imported, ← h'.imported]
    exact List.flatMap_append
  · rw [← h.used, ← h'.used, ← List.filter_append]
    exact congrArg _ List.flatMap_append

lemma Outlines.mem_used_iff {functions imports references : List String}
    (h : Outlines ls functions imports references) {f : String} (hf : isNotable f = true) :
    f ∈ Python.used ls ↔ f ∈ references := by
  rw [← h.used, List.mem_filter]
  simp [hf]

lemma plain_of_mem_splitOnP (h : Plain ps) : ∀ l ∈ ps.splitOnP Piece.isLineEnd, Plain l := by
  induction ps with
  | nil => simp [Plain, words]
  | cons p ps ih =>
    have htail : Plain ps := by
      intro w hw
      apply h w
      cases p with
      | word v => exact List.mem_cons_of_mem v hw
      | quoted v => exact hw
      | sign c => exact hw
      | lineEnd => exact hw
    intro l hl
    rw [List.splitOnP_cons_eq_if_modifyHead] at hl
    split_ifs at hl with hend
    · rcases List.mem_cons.1 hl with rfl | hl
      · simp [Plain, words]
      · exact ih htail l hl
    · cases hsplit : ps.splitOnP Piece.isLineEnd with
      | nil => exact absurd hsplit (List.splitOnP_ne_nil _ _)
      | cons m ms =>
        rw [hsplit, List.modifyHead_cons] at hl
        have hm := ih htail
        rw [hsplit, List.forall_mem_cons] at hm
        rcases List.mem_cons.1 hl with rfl | hl
        · cases p with
          | word v => exact hm.1.word (h v (List.mem_cons_self ..))
          | quoted v => exact hm.1
          | sign c => exact hm.1
          | lineEnd => exact hm.1
        · exact hm.2 l hl

lemma exists_written_of_inert (h : Inert cs) :
    ∃ ls, Written (cs ++ ['\n']) ls ∧ ∀ l ∈ ls, Plain l := by
  obtain ⟨ps, hps, hread⟩ := h
  refine ⟨_, written_of_pieces ps ?_, plain_of_mem_splitOnP hps⟩
  intro rest
  rw [List.append_assoc, hread]
  rfl

lemma definedBy_of_plain (h : Plain ps) : definedBy ps = [] := by
  unfold definedBy
  split
  · cases h "def" (by simp [words, Piece.word?])
  · rfl

lemma importedBy_of_plain (h : Plain ps) : importedBy ps = [] := by
  unfold importedBy
  split
  · cases h "import" (by simp [words, Piece.word?])
  · cases h "from" (by simp [words, Piece.word?])
  · rfl

lemma usedBy_of_plain (h : Plain ps) : usedBy ps = words ps := by
  unfold usedBy
  split
  · cases h "def" (by simp [words, Piece.word?])
  · cases h "import" (by simp [words, Piece.word?])
  · cases h "from" (by simp [words, Piece.word?])
  · rfl

lemma outlines_of_plain (h : ∀ l ∈ ls, Plain l) : Outlines ls [] [] [] := by
  constructor
  · exact List.flatMap_eq_nil_iff.2 fun l hl => definedBy_of_plain (h l hl)
  · exact List.flatMap_eq_nil_iff.2 fun l hl => importedBy_of_plain (h l hl)
  · rw [List.filter_eq_nil_iff]
    intro w hw
    obtain ⟨l, hl, hw⟩ := List.mem_flatMap.1 hw
    rw [usedBy_of_plain (h l hl)] at hw
    simp [h l hl w hw]

/-- A text of whole lines that define and import these names and use these notable words. -/
def Reads (cs : List Char) (functions imports references : List String) : Prop :=
  ∃ ls, Written cs ls ∧ Outlines ls functions imports references

lemma Reads.append {functions functions' imports imports' references references' : List String}
    (h : Reads cs functions imports references) (h' : Reads ds functions' imports' references') :
    Reads (cs ++ ds) (functions ++ functions') (imports ++ imports')
      (references ++ references') := by
  obtain ⟨ls, hls, hout⟩ := h
  obtain ⟨ms, hms, hout'⟩ := h'
  exact ⟨ls ++ ms, hls.append hms, hout.append hout'⟩

section List
variable {α : Type} {f : α → List Char} {l : List α}

lemma Reads.flatMap_nil (h : ∀ x ∈ l, Reads (f x) [] [] []) : Reads (l.flatMap f) [] [] [] := by
  induction l with
  | nil => exact ⟨[], fun rest => rfl, rfl, rfl, rfl⟩
  | cons x l ih =>
    rw [List.forall_mem_cons] at h
    exact h.1.append (ih h.2)

lemma Reads.flatMap_map {function reference : α → String}
    (h : ∀ x ∈ l, Reads (f x) [function x] [] [reference x]) :
    Reads (l.flatMap f) (l.map function) [] (l.map reference) := by
  induction l with
  | nil => exact ⟨[], fun rest => rfl, rfl, rfl, rfl⟩
  | cons x l ih =>
    rw [List.forall_mem_cons] at h
    exact h.1.append (ih h.2)

end List

lemma reads_of_pieces (ps : List Piece) {functions imports references : List String}
    (hread : ∀ rest, pieces (cs ++ rest) = ps ++ .lineEnd :: pieces rest)
    (hout : Outlines (ps.splitOnP Piece.isLineEnd) functions imports references) :
    Reads cs functions imports references := ⟨_, written_of_pieces ps hread, hout⟩

lemma reads_of_inert (h : Inert cs) : Reads (cs ++ ['\n']) [] [] [] := by
  obtain ⟨ls, hls, hplain⟩ := exists_written_of_inert h
  exact ⟨ls, hls, outlines_of_plain hplain⟩

end Outlines

/-- A table row, read. -/
def rowPieces (row : String × String) : List Piece :=
  [.quoted (escaped row.1), .sign ':', .word row.2, .sign ',']

lemma written_rowLine {row : String × String}
    (hword : ∀ c ∈ row.2.toList, Token.isWordPart c = true) (hne : row.2 ≠ "") :
    Written (rowLine row) [rowPieces row] := by
  apply written_of_pieces (rowPieces row)
  intro rest
  unfold rowLine
  simp only [List.append_assoc]
  have hblank : ∀ r, pieces ("    ".toList ++ r) = pieces r := fun _ => rfl
  have hcolon : ∀ r, pieces (": ".toList ++ r) = .sign ':' :: pieces r := fun _ => rfl
  rw [hblank, pieces_string, hcolon, pieces_name hword hne]
  · rfl
  · rfl

/-- The lines of a table. -/
def tableLines (name : String) (rows : List (String × String)) : List (List Piece) :=
  [[], [], opening name] ++ (rows.map rowPieces ++ [closing])

/-- A table is read as its opening, its rows and its closing. -/
lemma written_table {name : String} {rows : List (String × String)}
    (hname : ∀ c ∈ name.toList, Token.isWordPart c = true) (hne : name ≠ "")
    (hrows : ∀ r ∈ rows, (∀ c ∈ r.2.toList, Token.isWordPart c = true) ∧ r.2 ≠ "") :
    Written (lineChars (block (table name rows))) (tableLines name rows) := by
  have hopen : Written ("\n\n".toList ++ (name.toList ++ " = \x7b\n".toList))
      [[], [], opening name] := by
    apply written_of_pieces (.lineEnd :: .lineEnd :: opening name)
    intro rest
    have hblank : ∀ r, pieces ("\n\n".toList ++ r) = .lineEnd :: .lineEnd :: pieces r :=
      fun _ => rfl
    rw [List.append_assoc, List.append_assoc, hblank, pieces_name hname hne]
    · rfl
    · rfl
  have hrows : Written (rows.flatMap rowLine) (rows.map rowPieces) := by
    induction rows with
    | nil => exact fun rest => rfl
    | cons row rows ih =>
      rw [List.forall_mem_cons] at hrows
      rw [List.flatMap_cons, List.map_cons]
      exact (written_rowLine hrows.1.1 hrows.1.2).append (ih hrows.2)
  have hclose : Written "\x7d\n".toList [closing] := written_of_pieces closing fun _ => rfl
  rw [lineChars_table]
  have h := hopen.append (hrows.append hclose)
  rwa [List.append_assoc, List.append_assoc] at h

section Tables
variable {name : String} {pre post : List (List Piece)} {rows : List (String × String)}

lemma key?_rowPieces (rows : List (String × String)) :
    (rows.map rowPieces).filterMap key? = rows.map fun row => escaped row.1 := by
  induction rows with
  | nil => rfl
  | cons row rows ih => rw [List.map_cons, List.map_cons, ← ih]; rfl

/-- The keys of a table are found behind lines that do not use its name. -/
lemma keysOf_table (hname : usedBy (opening name) = [name]) (hpre : name ∉ used pre) :
    keysOf name (pre ++ (tableLines name rows ++ post)) = rows.map fun row => escaped row.1 := by
  have hopening : ∀ l ∈ pre, decide (l ≠ opening name) = true := by
    intro l hl
    rw [decide_eq_true_eq]
    rintro rfl
    exact hpre (List.mem_flatMap.2 ⟨_, hl, by simp [hname]⟩)
  have hclosing : ∀ l ∈ rows.map rowPieces, decide (l ≠ closing) = true := by
    intro l hl
    obtain ⟨row, -, rfl⟩ := List.mem_map.1 hl
    rfl
  have hdrop : (pre ++ (tableLines name rows ++ post)).dropWhile (· ≠ opening name) =
      opening name :: (rows.map rowPieces ++ closing :: post) := by
    rw [List.dropWhile_append_of_pos hopening]
    simp [tableLines, opening]
  unfold keysOf
  rw [hdrop, List.tail_cons, List.takeWhile_append_of_pos hclosing, ← key?_rowPieces]
  simp

lemma outlines_rows (hrows : ∀ row ∈ rows, isNotable row.2 = true) :
    Outlines (rows.map rowPieces) [] [] (rows.map Prod.snd) := by
  induction rows with
  | nil => exact ⟨rfl, rfl, rfl⟩
  | cons row rows ih =>
    rw [List.forall_mem_cons] at hrows
    have hrow : Outlines [rowPieces row] [] [] [row.2] := by
      refine ⟨rfl, rfl, ?_⟩
      change [row.2].filter isNotable = [row.2]
      simp [hrows.1]
    exact hrow.append (ih hrows.2)

lemma outlines_tableLines (hname : Outlines [[], [], opening name] [] [] [name])
    (hrows : ∀ row ∈ rows, isNotable row.2 = true) :
    Outlines (tableLines name rows) [] [] (name :: rows.map Prod.snd) := by
  have hclosing : Outlines [closing] [] [] [] := ⟨rfl, rfl, rfl⟩
  simpa [tableLines] using hname.append ((outlines_rows hrows).append hclosing)

end Tables

end Python

open Python

lemma Rule.reads_python (r : Rule) : Reads (lineChars r.python) [] [] [] := by
  have hif : Inert "    if event == ".toList := inert_of_pieces
    [.word "if", .word "event", .sign '=', .sign '='] (fun _ => rfl) (by decide)
  have hreturn : Inert ":\n        return ".toList := inert_of_pieces
    [.sign ':', .lineEnd, .word "return"] (fun _ => rfl) (by decide)
  have h := reads_of_inert (hif.append ((inert_string r.event).append
    (hreturn.append (inert_string r.target.name))))
  rw [lineChars_python]
  simpa only [List.append_assoc] using h

/-- An entry defines its function and falls back on the one for events without a rule. -/
lemma Entry.reads_block {e : Entry} (he : ∀ c ∈ e.taskId.toList, Token.isWordPart c = true) :
    Reads (lineChars (block e.python)) ["_dispatch_" ++ e.taskId] [] ["_dispatch_default"] := by
  have hdef : Reads ("\n\ndef _dispatch_".toList ++ (e.taskId.toList ++ "(event):\n".toList))
      ["_dispatch_" ++ e.taskId] [] [] := by
    apply reads_of_pieces [.lineEnd, .lineEnd, .word "def", .word ("_dispatch_" ++ e.taskId),
      .sign '(', .word "event", .sign ')', .sign ':']
    · intro rest
      have hhead : ∀ r, pieces ("\n\ndef _dispatch_".toList ++ r) = .lineEnd :: .lineEnd ::
        .word "def" :: piecesFrom (.code "_dispatch_".toList) r := fun _ => rfl
      rw [List.append_assoc, List.append_assoc, hhead, piecesFrom_name _ he]
      · rfl
      · simp
      · rfl
    · exact ⟨rfl, rfl, rfl⟩
  have hrules : Reads (e.rules.flatMap fun r => lineChars r.python) [] [] [] :=
    Reads.flatMap_nil fun r _ => r.reads_python
  have hreturn :
      Reads "    return _dispatch_default(event)\n".toList [] [] ["_dispatch_default"] := by
    apply reads_of_pieces [.word "return", .word "_dispatch_default", .sign '(', .word "event",
      .sign ')']
    · exact fun _ => rfl
    · exact ⟨rfl, rfl, rfl⟩
  have h := hdef.append (hrules.append hreturn)
  rw [lineChars_block]
  simpa only [List.append_assoc, List.append_nil, List.nil_append] using h

namespace Python

lemma inert_itemLine (item : String × Value) : Inert (itemLine item) := by
  have hblank : Inert "        ".toList := inert_of_pieces [] (fun _ => rfl) rfl
  have hcolon : Inert ": ".toList := inert_of_pieces [.sign ':'] (fun _ => rfl) rfl
  have hend : Inert ['\n'] := inert_of_pieces [.lineEnd] (fun _ => rfl) rfl
  have h := hblank.append ((inert_string item.1).append (hcolon.append
    ((inert_value item.2).append hend)))
  rw [List.append_assoc item.2.python.toList] at h
  exact h

/-- A dictionary has no notable word when its name is none. -/
lemma reads_dictionary {name : String} (hname : ∀ c ∈ name.toList, Token.isWordPart c = true)
    (hne : name ≠ "") (hplain : isNotable name = false) (items : List (String × Value)) :
    Reads (lineChars (dictionary name items)) [] [] [] := by
  have hopen : Inert ("    ".toList ++ (name.toList ++ " = \x7b".toList)) := by
    apply inert_of_pieces [.word name, .sign '=', .sign '\x7b']
    · intro rest
      have hblank : ∀ r, pieces ("    ".toList ++ r) = pieces r := fun _ => rfl
      rw [List.append_assoc, List.append_assoc, hblank, pieces_name hname hne]
      · rfl
      · rfl
    · simp [words, Piece.word?, hplain]
  cases items with
  | nil =>
    have hclose : Inert "\x7d".toList := inert_of_pieces [.sign '\x7d'] (fun _ => rfl) rfl
    rw [lineChars_dictionary_nil]
    simpa using reads_of_inert (hopen.append hclose)
  | cons item items =>
    have hend : Inert ['\n'] := inert_of_pieces [.lineEnd] (fun _ => rfl) rfl
    have hclose : Inert "    \x7d".toList := inert_of_pieces [.sign '\x7d'] (fun _ => rfl) rfl
    have hitems : Inert ((item :: items).flatMap itemLine) :=
      Inert.flatMap fun i _ => inert_itemLine i
    have h := reads_of_inert (hopen.append (hend.append (hitems.append hclose)))
    rw [lineChars_dictionary_cons]
    simpa using h

end Python

namespace Definition

/-- The last line of a definition uses its class. -/
lemma reads_returnChars (d : Definition) {arguments : String} (ps : List Piece)
    (hread : ∀ rest, pieces (arguments.toList ++ '\n' :: rest) = ps ++ .lineEnd :: pieces rest)
    (hout : ∀ k : TaskClass, Outlines ((.word "return" :: .word k.name :: .sign '(' ::
      .quoted (escaped d.taskId) :: ps).splitOnP Piece.isLineEnd) [] [] [k.name]) :
    Reads (d.returnChars arguments) [] [] [d.taskClass.name] := by
  apply reads_of_pieces _ _ (hout d.taskClass)
  intro rest
  have hhead : ∀ r, pieces ("    return ".toList ++ r) = .word "return" :: pieces r := fun _ => rfl
  have hparen : ∀ r, pieces ("(".toList ++ r) = .sign '(' :: pieces r := fun _ => rfl
  have hne : d.taskClass.name ≠ "" := by cases d.taskClass <;> decide
  unfold returnChars
  simp only [List.append_assoc]
  rw [hhead, pieces_name (TaskClass.isWordPart_of_mem_name _) hne, hparen, pieces_string,
    List.singleton_append, hread]
  · rfl
  · rfl

lemma reads_tailChars (d : Definition) : Reads d.tailChars [] [] [d.taskClass.name] := by
  unfold tailChars
  cases d.transitionArgs with
  | none =>
    apply d.reads_returnChars [.sign ',', .word "args", .sign ')'] (fun _ => rfl)
    intro k
    cases k <;> exact ⟨rfl, rfl, rfl⟩
  | some items =>
    have htransitions : Reads (lineChars (dictionary "transitions" items)) [] [] [] :=
      reads_dictionary (by simp [Token.isWordPart]) (by decide) (by decide) items
    apply htransitions.append
    apply d.reads_returnChars [.sign ',', .word "args", .sign ',', .word "transitions", .sign ')']
      (fun _ => rfl)
    intro k
    cases k <;> exact ⟨rfl, rfl, rfl⟩

lemma reads_block {d : Definition} (hd : ∀ c ∈ d.taskId.toList, Token.isWordPart c = true) :
    Reads (lineChars (block d.python)) ["_define_" ++ d.taskId] [] [d.taskClass.name] := by
  have hdef : Reads ("\n\ndef _define_".toList ++ (d.taskId.toList ++ "():\n".toList))
      ["_define_" ++ d.taskId] [] [] := by
    apply reads_of_pieces [.lineEnd, .lineEnd, .word "def", .word ("_define_" ++ d.taskId),
      .sign '(', .sign ')', .sign ':']
    · intro rest
      have hhead : ∀ r, pieces ("\n\ndef _define_".toList ++ r) = .lineEnd :: .lineEnd ::
        .word "def" :: piecesFrom (.code "_define_".toList) r := fun _ => rfl
      rw [List.append_assoc, List.append_assoc, hhead, piecesFrom_name _ hd]
      · rfl
      · simp
      · rfl
    · exact ⟨rfl, rfl, rfl⟩
  have hargs : Reads (lineChars (dictionary "args" d.args)) [] [] [] :=
    reads_dictionary (by simp [Token.isWordPart]) (by decide) (by decide) d.args
  have h := hdef.append (hargs.append d.reads_tailChars)
  rw [lineChars_block]
  simpa only [List.append_assoc, List.append_nil, List.nil_append] using h

end Definition

namespace Program

/-- The classes of an import, read. -/
def classPieces : List TaskClass → List Piece
  | [] => []
  | [k] => [.word k.name]
  | k :: ks => .word k.name :: .sign ',' :: classPieces ks

lemma pieces_classes {rest : List Char} (hrest : Breaks rest) (classes : List TaskClass) :
    pieces ((String.intercalate ", " (classes.map TaskClass.name)).toList ++ rest) =
      classPieces classes ++ pieces rest := by
  have hne : ∀ k : TaskClass, k.name ≠ "" := by
    intro k
    cases k <;> decide
  induction classes with
  | nil => rfl
  | cons k classes ih =>
    cases classes with
    | nil =>
      rw [List.map_singleton, String.intercalate_singleton,
        pieces_name (TaskClass.isWordPart_of_mem_name k) (hne k) hrest]
      rfl
    | cons k' classes =>
      have hcomma : ∀ r, pieces (", ".toList ++ r) = .sign ',' :: pieces r := fun _ => rfl
      rw [List.map_cons, List.map_cons, String.intercalate_cons_cons, String.toList_append,
        String.toList_append, List.append_assoc, List.append_assoc,
        pieces_name (TaskClass.isWordPart_of_mem_name k) (hne k), hcomma]
      · rw [List.map_cons] at ih
        rw [ih]
        rfl
      · rfl

lemma words_classPieces (classes : List TaskClass) :
    words (classPieces classes) = classes.map TaskClass.name := by
  fun_induction classPieces classes with
  | case1 => rfl
  | case2 k => rfl
  | case3 k ks hks ih =>
    rw [List.map_cons, ← ih]
    rfl

lemma isLineEnd_classPieces (classes : List TaskClass) :
    ∀ x ∈ classPieces classes, x.isLineEnd = false := by
  fun_induction classPieces classes with
  | case1 => simp
  | case2 k => simp [Piece.isLineEnd]
  | case3 k ks hks ih => simpa [Piece.isLineEnd] using ih

/-- The import of the classes, read. -/
def importPieces (classes : List TaskClass) : List Piece :=
  .word "from" :: .word "mission_runtime" :: .sign '.' :: .word "tasks" :: .word "import" ::
    classPieces classes

lemma reads_importChars (classes : List TaskClass) :
    Reads (importChars classes) [] (classes.map TaskClass.name) [] := by
  cases classes with
  | nil => exact ⟨[], fun rest => rfl, rfl, rfl, rfl⟩
  | cons k classes =>
    have hline : (importPieces (k :: classes) ++ [Piece.lineEnd]).splitOnP Piece.isLineEnd =
        [importPieces (k :: classes), []] := by
      apply List.splitOnP_append_cons_of_forall_mem _ _ rfl
      simpa [importPieces, Piece.isLineEnd] using isLineEnd_classPieces (k :: classes)
    apply reads_of_pieces (importPieces (k :: classes) ++ [Piece.lineEnd])
    · intro rest
      have hhead : ∀ r, pieces ("from mission_runtime.tasks import ".toList ++ r) = .word "from" ::
        .word "mission_runtime" :: .sign '.' :: .word "tasks" :: .word "import" :: pieces r :=
        fun _ => rfl
      unfold importChars
      rw [List.append_assoc, hhead, List.append_assoc, pieces_classes, List.append_assoc]
      · rfl
      · rfl
    · rw [hline]
      refine ⟨rfl, ?_, rfl⟩
      rw [← words_classPieces]
      exact List.append_nil _

lemma reads_headerComment {p : Program} (hstart : ∀ c ∈ p.start.toList, Token.isWordPart c = true) :
    Reads ("# Generated by missionc. Do not edit.\n# Start task: ".toList ++ (p.start.toList ++
      ("; ".toList ++ ((toString p.entries.length).toList ++ " task(s).\n\n".toList))))
      [] [] [] := by
  apply reads_of_pieces [.lineEnd, .lineEnd]
  · intro rest
    have hhead : ∀ r, pieces ("# Generated by missionc. Do not edit.\n# Start task: ".toList ++ r) =
      .lineEnd :: piecesFrom .comment r := fun _ => rfl
    have hname : '\n' ∉ p.start.toList := by
      intro hmem
      cases hstart _ hmem
    have hcount : '\n' ∉ (toString p.entries.length).toList := by
      intro hmem
      cases isDigit_of_mem_toString _ hmem
    simp only [List.append_assoc]
    rw [hhead, piecesFrom_comment hname, piecesFrom_comment (by simp), piecesFrom_comment hcount]
    rfl
  · exact ⟨rfl, rfl, rfl⟩

lemma reads_header {p : Program} (hstart : ∀ c ∈ p.start.toList, Token.isWordPart c = true) :
    Reads (lineChars p.headerLines) [] ("logging" :: p.classes.map TaskClass.name) [] := by
  have himport : Reads "import logging\n\n".toList [] ["logging"] [] := by
    apply reads_of_pieces [.word "import", .word "logging", .lineEnd]
    · exact fun _ => rfl
    · exact ⟨rfl, rfl, rfl⟩
  have hlog : Inert logChars := inert_of_pieces [.word "_log", .sign '=', .word "logging", .sign '.',
    .word "getLogger", .sign '(', .word "__name__", .sign ')', .lineEnd, .lineEnd,
    .word "START_TASK", .sign '='] (fun _ => rfl) (by decide)
  have hend : Inert "\nTERMINATE = \"terminate\"".toList := inert_of_pieces
    [.lineEnd, .word "TERMINATE", .sign '=', .quoted "terminate"] (fun _ => rfl) (by decide)
  have h := (reads_headerComment hstart).append (himport.append ((reads_importChars p.classes).append
    (reads_of_inert (hlog.append ((inert_string p.start).append hend)))))
  rw [lineChars_header]
  simpa using h

lemma reads_defaultLines :
    Reads (lineChars (block defaultLines)) ["_dispatch_default"] [] [] := by
  have hdef : Reads "\n\ndef _dispatch_default(event):\n".toList ["_dispatch_default"] [] [] := by
    apply reads_of_pieces [.lineEnd, .lineEnd, .word "def", .word "_dispatch_default", .sign '(',
      .word "event", .sign ')', .sign ':']
    · exact fun _ => rfl
    · exact ⟨rfl, rfl, rfl⟩
  have hlog : Reads "    _log.debug(\"no transition for event %r\", event)\n".toList [] [] [] := by
    apply reads_of_pieces [.word "_log", .sign '.', .word "debug", .sign '(',
      .quoted "no transition for event %r", .sign ',', .word "event", .sign ')']
    · intro rest
      simp [pieces, piecesFrom, wordPiece, Token.isWordPart]
    · exact ⟨rfl, rfl, rfl⟩
  have hreturn : Reads "    return None\n".toList [] [] [] := by
    apply reads_of_pieces [.word "return", .word "None"]
    · exact fun _ => rfl
    · exact ⟨rfl, rfl, rfl⟩
  have h := hdef.append (hlog.append hreturn)
  simpa [block, defaultLines, defaultEntry, lineChars_cons, lineChars_nil] using h

lemma reads_bootstrapLines :
    Reads (lineChars (block bootstrapLines)) ["bootstrap"] [] ["TASKS", "TRANSITIONS"] := by
  have hdef : Reads "\n\ndef bootstrap(controller):\n".toList ["bootstrap"] [] [] := by
    apply reads_of_pieces [.lineEnd, .lineEnd, .word "def", .word "bootstrap", .sign '(',
      .word "controller", .sign ')', .sign ':']
    · exact fun _ => rfl
    · exact ⟨rfl, rfl, rfl⟩
  have hrun : Reads "    controller.run(START_TASK, TASKS, TRANSITIONS)\n".toList [] []
      ["TASKS", "TRANSITIONS"] := by
    apply reads_of_pieces [.word "controller", .sign '.', .word "run", .sign '(',
      .word "START_TASK", .sign ',', .word "TASKS", .sign ',', .word "TRANSITIONS", .sign ')']
    · exact fun _ => rfl
    · exact ⟨rfl, rfl, rfl⟩
  have h := hdef.append hrun
  simpa [block, bootstrapLines, lineChars_cons, lineChars_nil] using h

end Program

end Sortie
