import Sortie.Proofs.Program.Literal
import Sortie.Token.Scan

/-! The text of a program determines the program, but for the flags that mark implicit rules. The
names that stand bare in the text are words, and every other part ends by itself. -/
namespace Sortie

/-- The characters of lines, each with its line end. -/
def lineChars (lines : List String) : List Char := lines.flatMap fun l => l.toList ++ ['\n']

section LineChars
variable {α : Type}

lemma lineChars_nil : lineChars [] = [] := rfl

lemma lineChars_cons (l : String) (ls : List String) :
    lineChars (l :: ls) = l.toList ++ '\n' :: lineChars ls := by
  unfold lineChars
  rw [List.flatMap_cons, List.append_assoc]
  rfl

lemma lineChars_append (ls ms : List String) :
    lineChars (ls ++ ms) = lineChars ls ++ lineChars ms := List.flatMap_append

lemma lineChars_map (l : List α) (f : α → String) :
    lineChars (l.map f) = l.flatMap fun a => (f a).toList ++ ['\n'] := List.flatMap_map _ _ _

lemma lineChars_flatMap (l : List α) (f : α → List String) :
    lineChars (l.flatMap f) = l.flatMap fun a => lineChars (f a) := List.flatMap_assoc

lemma toList_joinLines (lines : List String) : (joinLines lines).toList = lineChars lines := by
  unfold joinLines lineChars
  rw [String.toList_join, List.flatMap_map]
  simp only [String.toList_append]
  rfl

end LineChars

namespace Python

/-- An item of a dictionary on its line. -/
def itemLine (item : String × Value) : List Char :=
  "        ".toList ++ ((string item.1).toList ++ (": ".toList ++
    (item.2.python.toList ++ [',', '\n'])))

lemma delimited_itemLine : Delimited (fun _ => True) id itemLine := by
  rintro ⟨key, value⟩ ⟨key', value'⟩ _ _ r s h
  unfold itemLine at h
  simp only [List.append_assoc, List.append_cancel_left_eq] at h
  obtain ⟨hkey, h₁⟩ := delimited_string trivial trivial h
  obtain ⟨hvalue, h₂⟩ := Value.python_append_inj (List.append_cancel_left h₁)
  cases hkey
  cases hvalue
  exact ⟨rfl, List.tail_eq_of_cons_eq h₂⟩

lemma itemLine_append_ne (item : String × Value) (r s : List Char) :
    itemLine item ++ r ≠ "    \x7d\n".toList ++ s := by
  unfold itemLine
  simp

lemma lineChars_dictionary_nil (name : String) :
    lineChars (dictionary name []) = "    ".toList ++ (name.toList ++ " = \x7b\x7d\n".toList) := by
  unfold dictionary
  rw [lineChars_cons, lineChars_nil, String.toList_append, String.toList_append, List.append_assoc,
    List.append_assoc]
  rfl

lemma lineChars_dictionary_cons (name : String) (item : String × Value)
    (items : List (String × Value)) :
    lineChars (dictionary name (item :: items)) = "    ".toList ++ (name.toList ++
      (" = \x7b\n".toList ++ ((item :: items).flatMap itemLine ++ "    \x7d\n".toList))) := by
  have hitem : ∀ i : String × Value,
      ("        " ++ string i.1 ++ ": " ++ i.2.python ++ ",").toList ++ ['\n'] = itemLine i := by
    intro i
    unfold itemLine
    simp only [String.toList_append, List.append_assoc]
    rfl
  unfold dictionary
  rw [lineChars_append, lineChars_cons, lineChars_map]
  simp only [hitem]
  rw [String.toList_append, String.toList_append]
  simp only [List.append_assoc]
  rfl

/-- A dictionary ends with its closing brace. -/
lemma delimited_dictionary (name : String) :
    Delimited (fun _ => True) id (fun items => lineChars (dictionary name items)) := by
  intro items items' _ _ r s h
  simp only at h
  cases items with
  | nil =>
    cases items' with
    | nil => exact ⟨rfl, List.append_cancel_left h⟩
    | cons item' items' =>
      rw [lineChars_dictionary_nil, lineChars_dictionary_cons] at h
      simp at h
  | cons item items =>
    cases items' with
    | nil =>
      rw [lineChars_dictionary_nil, lineChars_dictionary_cons] at h
      simp at h
    | cons item' items' =>
      rw [lineChars_dictionary_cons, lineChars_dictionary_cons] at h
      simp only [List.append_assoc, List.append_cancel_left_eq] at h
      obtain ⟨hitems, hrest⟩ := delimited_itemLine.flatMap_append_inj
        (fun i _ => itemLine_append_ne i) (fun _ _ => trivial) (fun _ _ => trivial) h
      rw [List.map_id, List.map_id] at hitems
      exact ⟨hitems, hrest⟩

/-- A table row with its line end. -/
def rowLine (row : String × String) : List Char :=
  "    ".toList ++ ((string row.1).toList ++ (": ".toList ++ (row.2.toList ++ [',', '\n'])))

lemma lineChars_table (name : String) (rows : List (String × String)) :
    lineChars (block (table name rows)) = "\n\n".toList ++ (name.toList ++ (" = \x7b\n".toList ++
      (rows.flatMap rowLine ++ "\x7d\n".toList))) := by
  have hrow : ∀ r : String × String,
      ("    " ++ string r.1 ++ ": " ++ r.2 ++ ",").toList ++ ['\n'] = rowLine r := by
    intro r
    unfold rowLine
    simp only [String.toList_append, List.append_assoc]
    rfl
  unfold block table
  rw [List.cons_append, lineChars_cons, lineChars_cons, lineChars_cons, lineChars_append,
    lineChars_map]
  simp only [hrow]
  simp [lineChars_cons, lineChars_nil]

/-- A row whose value is made from its key ends by itself. -/
lemma delimited_rowLine (f : String → String) :
    Delimited (fun _ => True) id fun key => rowLine (key, f key) := by
  intro k k' _ _ r s h
  unfold rowLine at h
  simp only [List.append_assoc, List.append_cancel_left_eq] at h
  obtain ⟨hkey, h₁⟩ := delimited_string trivial trivial h
  cases hkey
  have h₂ := List.append_cancel_left (List.append_cancel_left h₁)
  exact ⟨rfl, List.append_cancel_left h₂⟩

lemma rowLine_append_ne (row : String × String) (r s : List Char) :
    rowLine row ++ r ≠ "\x7d\n".toList ++ s := by
  unfold rowLine
  simp

end Python

/-- A destination is known by its name, unless a task has the name that stands for the end. -/
lemma Destination.eq_of_name_eq {d d' : Destination} (hd : d ≠ .task terminateName)
    (hd' : d' ≠ .task terminateName) (h : d.name = d'.name) : d = d' := by
  cases d with
  | task id =>
    cases d' with
    | task id' => exact congrArg Destination.task h
    | terminate => exact absurd (congrArg Destination.task h) hd
  | terminate =>
    cases d' with
    | task id' => exact absurd (congrArg Destination.task h.symm) hd'
    | terminate => rfl

namespace Rule

/-- What a rule says, without the flag that tells where it comes from. -/
def meaning (r : Rule) : String × Destination := (r.event, r.target)

lemma lineChars_python (r : Rule) :
    lineChars r.python = "    if event == ".toList ++ ((Python.string r.event).toList ++
      (":\n        return ".toList ++ ((Python.string r.target.name).toList ++ ['\n']))) := by
  unfold Rule.python
  simp only [lineChars_cons, lineChars_nil, String.toList_append, List.append_assoc]
  rfl

lemma delimited_python : Delimited (fun r : Rule => r.target ≠ .task terminateName) meaning
    (fun r => lineChars r.python) := by
  intro r r' hr hr' t u h
  simp only [lineChars_python, List.append_assoc, List.append_cancel_left_eq] at h
  obtain ⟨hevent, h₁⟩ := Python.delimited_string trivial trivial h
  obtain ⟨htarget, h₂⟩ := Python.delimited_string trivial trivial (List.append_cancel_left h₁)
  exact ⟨Prod.ext hevent (Destination.eq_of_name_eq hr hr' htarget), List.append_cancel_left h₂⟩

lemma lineChars_python_append_ne (rule : Rule) (r s : List Char) :
    lineChars rule.python ++ r ≠ "    return _dispatch_default(event)\n".toList ++ s := by
  rw [lineChars_python]
  simp

end Rule

namespace Entry

/-- A word stands for the task, and no rule leads to a task of the name for the end. -/
structure Legible (e : Entry) : Prop where
  taskId : ∀ c ∈ e.taskId.toList, Token.isWordPart c = true
  rules : ∀ r ∈ e.rules, r.target ≠ .task terminateName

/-- What an entry says. -/
def meaning (e : Entry) : String × List (String × Destination) :=
  (e.taskId, e.rules.map Rule.meaning)

lemma lineChars_block (e : Entry) :
    lineChars (Python.block e.python) = "\n\ndef _dispatch_".toList ++ (e.taskId.toList ++
      ("(event):\n".toList ++ (e.rules.flatMap (fun r => lineChars r.python) ++
        "    return _dispatch_default(event)\n".toList))) := by
  unfold Python.block Entry.python
  simp [lineChars_cons, lineChars_nil, lineChars_append, lineChars_flatMap, defaultEntry]

lemma delimited_block :
    Delimited Legible meaning (fun e => lineChars (Python.block e.python)) := by
  intro e e' he he' t u h
  simp only [lineChars_block, List.append_assoc, List.append_cancel_left_eq] at h
  obtain ⟨htask, h₁⟩ := append_inj_of_head he.taskId he'.taskId (by simp [Token.isWordPart])
    (by simp [Token.isWordPart]) h
  obtain ⟨hrules, h₂⟩ := Rule.delimited_python.flatMap_append_inj
    (fun r _ => Rule.lineChars_python_append_ne r) he.rules he'.rules (List.append_cancel_left h₁)
  exact ⟨Prod.ext (String.toList_injective htask) hrules, h₂⟩

/-- The block for events without a rule is no entry: it begins by logging. -/
lemma lineChars_block_append_ne {e : Entry} (he : e.Legible) (r s : List Char) :
    lineChars (Python.block e.python) ++ r ≠
      lineChars (Python.block Program.defaultLines) ++ s := by
  have hdefault : lineChars (Python.block Program.defaultLines) =
      "\n\ndef _dispatch_".toList ++ (defaultEntry.toList ++ ("(event):\n".toList ++
        "    _log.debug(\"no transition for event %r\", event)\n    return None\n".toList)) := by
    unfold Python.block Program.defaultLines
    simp [lineChars_cons, lineChars_nil]
  intro h
  rw [hdefault, lineChars_block] at h
  simp only [List.append_assoc, List.append_cancel_left_eq] at h
  obtain ⟨-, h₁⟩ := append_inj_of_head he.taskId (by simp [defaultEntry, Token.isWordPart])
    (by simp [Token.isWordPart]) (by simp [Token.isWordPart]) h
  have h₂ := List.append_cancel_left h₁
  rcases hrules : e.rules with - | ⟨rule, rules⟩
  · rw [hrules] at h₂
    simp at h₂
  · rw [hrules, List.flatMap_cons, Rule.lineChars_python] at h₂
    simp at h₂

end Entry

namespace TaskClass

lemma name_injective : Function.Injective name := by
  intro a b h
  cases a <;> cases b <;> first | rfl | exact absurd h (by decide)

lemma isWordPart_of_mem_name (k : TaskClass) : ∀ c ∈ k.name.toList, Token.isWordPart c = true := by
  cases k <;> simp [name, Token.isWordPart]

end TaskClass

namespace Definition

/-- The last line of a definition, which names the dictionaries before it. -/
def returnChars (d : Definition) (arguments : String) : List Char :=
  "    return ".toList ++ (d.taskClass.name.toList ++ ("(".toList ++
    ((Python.string d.taskId).toList ++ (arguments.toList ++ ['\n']))))

lemma returnChars_append_inj {d d' : Definition} {arguments : String} {r s : List Char}
    (h : d.returnChars arguments ++ r = d'.returnChars arguments ++ s) :
    d.taskClass = d'.taskClass ∧ r = s := by
  unfold returnChars at h
  simp only [List.append_assoc, List.append_cancel_left_eq] at h
  obtain ⟨hclass, h₁⟩ := append_inj_of_head (TaskClass.isWordPart_of_mem_name _)
    (TaskClass.isWordPart_of_mem_name _) (by simp [Token.isWordPart]) (by simp [Token.isWordPart]) h
  obtain ⟨-, h₂⟩ := Python.delimited_string trivial trivial (List.append_cancel_left h₁)
  exact ⟨TaskClass.name_injective (String.toList_injective hclass),
    List.append_cancel_left (List.append_cancel_left h₂)⟩

/-- What follows the arguments of a definition. -/
def tailChars (d : Definition) : List Char :=
  match d.transitionArgs with
  | some items => lineChars (Python.dictionary "transitions" items) ++
      d.returnChars ", args, transitions)"
  | none => d.returnChars ", args)"

lemma lineChars_block (d : Definition) :
    lineChars (Python.block d.python) = "\n\ndef _define_".toList ++ (d.taskId.toList ++
      ("():\n".toList ++ (lineChars (Python.dictionary "args" d.args) ++ d.tailChars))) := by
  unfold Python.block Definition.python tailChars returnChars
  rcases d.transitionArgs with - | items
  · simp only [lineChars_cons, lineChars_nil, lineChars_append, String.toList_append,
      List.append_assoc, List.cons_append]
    rfl
  · simp only [lineChars_cons, lineChars_nil, lineChars_append, String.toList_append,
      List.append_assoc, List.cons_append]
    rfl

lemma dictionary_append_ne_return (items : List (String × Value)) (d : Definition)
    (arguments : String) (r s : List Char) :
    lineChars (Python.dictionary "transitions" items) ++ r ≠ d.returnChars arguments ++ s := by
  unfold returnChars
  cases items with
  | nil =>
    rw [Python.lineChars_dictionary_nil]
    simp
  | cons item items =>
    rw [Python.lineChars_dictionary_cons]
    simp

lemma tailChars_append_inj {d d' : Definition} {r s : List Char}
    (h : d.tailChars ++ r = d'.tailChars ++ s) :
    d.transitionArgs = d'.transitionArgs ∧ d.taskClass = d'.taskClass ∧ r = s := by
  unfold tailChars at h
  rcases hd : d.transitionArgs with - | items
  · rcases hd' : d'.transitionArgs with - | items'
    · rw [hd, hd'] at h
      exact ⟨rfl, returnChars_append_inj h⟩
    · rw [hd, hd'] at h
      simp only [List.append_assoc] at h
      exact absurd h.symm (dictionary_append_ne_return _ _ _ _ _)
  · rcases hd' : d'.transitionArgs with - | items'
    · rw [hd, hd'] at h
      simp only [List.append_assoc] at h
      exact absurd h (dictionary_append_ne_return _ _ _ _ _)
    · rw [hd, hd'] at h
      simp only [List.append_assoc] at h
      obtain ⟨hitems, h₁⟩ := Python.delimited_dictionary _ trivial trivial h
      exact ⟨congrArg some hitems, returnChars_append_inj h₁⟩

lemma delimited_block :
    Delimited (fun d : Definition => ∀ c ∈ d.taskId.toList, Token.isWordPart c = true) id
      (fun d => lineChars (Python.block d.python)) := by
  intro d d' hd hd' r s h
  simp only [lineChars_block, List.append_assoc, List.append_cancel_left_eq] at h
  obtain ⟨htask, h₁⟩ := append_inj_of_head hd hd' (by simp [Token.isWordPart])
    (by simp [Token.isWordPart]) h
  obtain ⟨hargs, h₂⟩ :=
    Python.delimited_dictionary _ trivial trivial (List.append_cancel_left h₁)
  obtain ⟨htransitions, hclass, h₃⟩ := tailChars_append_inj h₂
  refine ⟨?_, h₃⟩
  obtain ⟨taskId, taskClass, args, transitionArgs⟩ := d
  obtain ⟨taskId', taskClass', args', transitionArgs'⟩ := d'
  cases String.toList_injective htask
  cases hargs
  cases htransitions
  cases hclass
  rfl

end Definition

namespace Program

/-- The programs whose text can be read: the names that stand bare in it are words. -/
structure Legible (p : Program) : Prop where
  start : ∀ c ∈ p.start.toList, Token.isWordPart c = true
  entries : ∀ e ∈ p.entries, e.Legible
  definitions : ∀ d ∈ p.definitions, ∀ c ∈ d.taskId.toList, Token.isWordPart c = true

/-- Programs that differ at most in the flags that mark implicit rules. -/
structure Agrees (p q : Program) : Prop where
  start : p.start = q.start
  tableKeys : p.tableKeys = q.tableKeys
  entries : p.entries.map Entry.meaning = q.entries.map Entry.meaning
  definitions : p.definitions = q.definitions

/-- The import of the classes, if there are any. -/
def importChars : List TaskClass → List Char
  | [] => []
  | classes => "from mission_runtime.tasks import ".toList ++
      ((String.intercalate ", " (classes.map TaskClass.name)).toList ++ "\n\n".toList)

/-- The header from the import on, up to the name of the first task. -/
def logChars : List Char := "_log = logging.getLogger(__name__)\n\nSTART_TASK = ".toList

lemma lineChars_header (p : Program) :
    lineChars p.headerLines =
      "# Generated by missionc. Do not edit.\n# Start task: ".toList ++ (p.start.toList ++
        ("; ".toList ++ ((toString p.entries.length).toList ++
          (" task(s).\n\nimport logging\n\n".toList ++ (importChars p.classes ++ (logChars ++
            ((Python.string p.start).toList ++ "\nTERMINATE = \"terminate\"\n".toList))))))) := by
  have hend : Python.string terminateName = "\"terminate\"" := by decide +kernel
  unfold headerLines importChars logChars
  rcases p.classes with - | ⟨k, classes⟩
  · simp [lineChars_cons, lineChars_nil, hend]
  · simp [lineChars_cons, lineChars_nil, taskPackage, hend]

lemma ne_newline_of_mem_names (classes : List TaskClass) :
    ∀ c ∈ (String.intercalate ", " (classes.map TaskClass.name)).toList, (c != '\n') = true := by
  have hname : ∀ k : TaskClass, ∀ c ∈ k.name.toList, (c != '\n') = true := by
    intro k
    cases k <;> simp [TaskClass.name]
  induction classes with
  | nil => simp
  | cons k classes ih =>
    cases classes with
    | nil =>
      rw [List.map_singleton, String.intercalate_singleton]
      exact hname k
    | cons k' classes =>
      rw [List.map_cons, List.map_cons, String.intercalate_cons_cons, String.toList_append,
        String.toList_append, List.forall_mem_append, List.forall_mem_append]
      exact ⟨⟨hname k, by simp⟩, ih⟩

lemma importChars_append_inj {classes classes' : List TaskClass} {r s : List Char}
    (h : importChars classes ++ (logChars ++ r) = importChars classes' ++ (logChars ++ s)) :
    r = s := by
  unfold importChars at h
  rcases classes with - | ⟨k, classes⟩
  · rcases classes' with - | ⟨k', classes'⟩
    · exact List.append_cancel_left h
    · unfold logChars at h
      simp at h
  · rcases classes' with - | ⟨k', classes'⟩
    · unfold logChars at h
      simp at h
    · simp only [List.append_assoc, List.append_cancel_left_eq] at h
      obtain ⟨-, h₁⟩ := append_inj_of_head (ne_newline_of_mem_names _) (ne_newline_of_mem_names _)
        (by simp) (by simp) h
      exact List.append_cancel_left (List.append_cancel_left h₁)

lemma header_append_inj {p q : Program} (hp : p.Legible) (hq : q.Legible) {r s : List Char}
    (h : lineChars p.headerLines ++ r = lineChars q.headerLines ++ s) :
    p.start = q.start ∧ r = s := by
  simp only [lineChars_header, List.append_assoc, List.append_cancel_left_eq] at h
  obtain ⟨hstart, h₁⟩ := append_inj_of_head hp.start hq.start (by simp [Token.isWordPart])
    (by simp [Token.isWordPart]) h
  obtain ⟨-, h₂⟩ :=
    Python.toString_append_inj (by simp) (by simp) (List.append_cancel_left h₁)
  have h₃ := importChars_append_inj (List.append_cancel_left h₂)
  obtain ⟨-, h₄⟩ := Python.delimited_string trivial trivial h₃
  exact ⟨String.toList_injective hstart, List.append_cancel_left h₄⟩

lemma lineChars_transitionTable (p : Program) :
    lineChars (Python.block p.transitionTable) = "\n\n".toList ++ ("TRANSITIONS".toList ++
      (" = \x7b\n".toList ++ ((p.tableKeys ++ [defaultEntry]).flatMap
        (fun key => Python.rowLine (key, "_dispatch_" ++ key)) ++ "\x7d\n".toList))) := by
  unfold transitionTable
  rw [Python.lineChars_table, List.flatMap_map]

/-- What follows the definitions begins with the table of tasks. -/
lemma exists_lineChars_taskTable (p : Program) :
    ∃ rest, lineChars (Python.block p.taskTable) = "\n\nTASKS = \x7b\n".toList ++ rest := by
  unfold Python.block taskTable Python.table
  rw [List.cons_append]
  exact ⟨_, rfl⟩

lemma definition_append_ne_taskTable (d : Definition) (r s : List Char) :
    lineChars (Python.block d.python) ++ r ≠ "\n\nTASKS = \x7b\n".toList ++ s := by
  rw [Definition.lineChars_block]
  simp

lemma toList_python (p : Program) :
    p.python.toList = lineChars p.headerLines ++
      (p.entries.flatMap (fun e => lineChars (Python.block e.python)) ++
        (lineChars (Python.block defaultLines) ++ (lineChars (Python.block p.transitionTable) ++
          (p.definitions.flatMap (fun d => lineChars (Python.block d.python)) ++
            (lineChars (Python.block p.taskTable) ++
              lineChars (Python.block bootstrapLines)))))) := by
  unfold python pythonLines
  rw [toList_joinLines]
  simp only [lineChars_append, lineChars_flatMap, List.append_assoc]

/-- The text of a program determines what the program says. -/
theorem agrees_of_python_eq {p q : Program} (hp : p.Legible) (hq : q.Legible)
    (h : p.python = q.python) : p.Agrees q := by
  -- The sections are cut off from left to right; each leaves an equation between the rests.
  have htext := congrArg String.toList h
  rw [toList_python, toList_python] at htext
  obtain ⟨hstart, h₁⟩ := header_append_inj hp hq htext
  obtain ⟨hentries, h₂⟩ := Entry.delimited_block.flatMap_append_inj
    (fun e he => Entry.lineChars_block_append_ne he) hp.entries hq.entries h₁
  simp only [lineChars_transitionTable, List.append_assoc, List.append_cancel_left_eq] at h₂
  obtain ⟨hkeys, h₃⟩ := (Python.delimited_rowLine _).flatMap_append_inj
    (fun k _ => Python.rowLine_append_ne _) (fun _ _ => trivial) (fun _ _ => trivial) h₂
  obtain ⟨rest, hrest⟩ := exists_lineChars_taskTable p
  obtain ⟨rest', hrest'⟩ := exists_lineChars_taskTable q
  rw [hrest, hrest'] at h₃
  simp only [List.append_assoc] at h₃
  obtain ⟨hdefinitions, -⟩ := Definition.delimited_block.flatMap_append_inj
    (fun d _ => definition_append_ne_taskTable d) hp.definitions hq.definitions h₃
  rw [List.map_id, List.map_id] at hkeys hdefinitions
  exact ⟨hstart, List.append_cancel_right hkeys, hentries, hdefinitions⟩

end Program

end Sortie
