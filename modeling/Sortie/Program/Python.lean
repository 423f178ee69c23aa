import Sortie.Mission.Summary
import Sortie.Program
import Sortie.Program.Literal

/-! The text of a program as a Python module: header, imports, dispatch functions, transition
table, definitions, task table and entry point. -/
namespace Sortie

/-- The table entry that answers events without a rule. -/
def defaultEntry : String := "default"

/-- The package that provides the task classes. -/
def taskPackage : String := "mission_runtime.tasks"

namespace Point

def python (p : Point) : String :=
  "\x7b\"longitude\": " ++ Python.float p.longitude ++ ", \"latitude\": " ++
    Python.float p.latitude ++ ", \"altitude\": " ++ Python.float p.altitude ++ "\x7d"

end Point

namespace Value

/-- The lines of a value. Lists of points have a line for each point. -/
def pythonLines : Value → List String
  | float v => [Python.float v]
  | int n => [toString n]
  | str s => [Python.string s]
  | colour c =>
    ["[" ++ toString c.first.toNat ++ ", " ++ toString c.second.toNat ++ ", " ++
      toString c.third.toNat ++ "]"]
  | null => ["None"]
  | points [] => ["[]"]
  | points ps => "[" :: ps.map (fun p => "            " ++ p.python ++ ",") ++ ["        ]"]

def python (v : Value) : String := String.intercalate "\n" v.pythonLines

end Value

namespace Python

/-- An assignment of a dictionary, one item a line. -/
def dictionary (name : String) (items : List (String × Value)) : List String :=
  match items with
  | [] => ["    " ++ name ++ " = \x7b\x7d"]
  | _ =>
    ("    " ++ name ++ " = \x7b") ::
      items.map (fun (key, value) => "        " ++ string key ++ ": " ++ value.python ++ ",") ++
      ["    \x7d"]

/-- A table of functions, one a line. -/
def table (name : String) (rows : List (String × String)) : List String :=
  (name ++ " = \x7b") :: rows.map (fun (key, f) => "    " ++ string key ++ ": " ++ f ++ ",") ++
    ["\x7d"]

/-- Two blank lines stand before each top-level block. -/
def block (lines : List String) : List String := "" :: "" :: lines

end Python

def Rule.python (r : Rule) : List String :=
  ["    if event == " ++ Python.string r.event ++ ":",
    "        return " ++ Python.string r.target.name]

def Entry.python (e : Entry) : List String :=
  ("def _dispatch_" ++ e.taskId ++ "(event):") :: e.rules.flatMap Rule.python ++
    ["    return _dispatch_" ++ defaultEntry ++ "(event)"]

def Definition.python (d : Definition) : List String :=
  ("def _define_" ++ d.taskId ++ "():") :: Python.dictionary "args" d.args ++
    match d.transitionArgs with
    | some items =>
      Python.dictionary "transitions" items ++
        ["    return " ++ d.taskClass.name ++ "(" ++ Python.string d.taskId ++
          ", args, transitions)"]
    | none => ["    return " ++ d.taskClass.name ++ "(" ++ Python.string d.taskId ++ ", args)"]

namespace Program

def headerLines (p : Program) : List String :=
  ["# Generated by missionc. Do not edit.",
    "# Start task: " ++ p.start ++ "; " ++ toString p.entries.length ++ " task(s).", "",
    "import logging", ""] ++
  (match p.classes with
    | [] => []
    | classes =>
      ["from " ++ taskPackage ++ " import " ++
        String.intercalate ", " (classes.map TaskClass.name), ""]) ++
  ["_log = logging.getLogger(__name__)", "", "START_TASK = " ++ Python.string p.start,
    "TERMINATE = " ++ Python.string terminateName]

def defaultLines : List String :=
  ["def _dispatch_" ++ defaultEntry ++ "(event):",
    "    _log.debug(\"no transition for event %r\", event)", "    return None"]

def transitionTable (p : Program) : List String :=
  Python.table "TRANSITIONS" ((p.tableKeys ++ [defaultEntry]).map fun k => (k, "_dispatch_" ++ k))

def taskTable (p : Program) : List String :=
  Python.table "TASKS" (p.definitions.map fun d => (d.taskId, "_define_" ++ d.taskId))

def bootstrapLines : List String :=
  ["def bootstrap(controller):", "    controller.run(START_TASK, TASKS, TRANSITIONS)"]

def pythonLines (p : Program) : List String :=
  p.headerLines ++ p.entries.flatMap (fun e => Python.block e.python) ++
    Python.block defaultLines ++ Python.block p.transitionTable ++
    p.definitions.flatMap (fun d => Python.block d.python) ++ Python.block p.taskTable ++
    Python.block bootstrapLines

/-- The text of the generated module. -/
def python (p : Program) : String := joinLines p.pythonLines

end Program
end Sortie
