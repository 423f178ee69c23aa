import Sortie.Mission

/-! The program generated for a mission: a dispatch table, the definitions of the tasks and an
entry point. -/
namespace Sortie

/-- The class that carries out a task. -/
inductive TaskClass where
  | avoid
  | detect
  | test
  | track
  deriving DecidableEq, Repr

namespace TaskClass

/-- All classes, in the order in which they are imported. -/
def all : List TaskClass := [avoid, detect, test, track]

def name : TaskClass → String
  | avoid => "AvoidTask"
  | detect => "DetectTask"
  | test => "TestTask"
  | track => "TrackTask"

end TaskClass

/-- A literal of an argument dictionary. -/
inductive Value where
  | float (v : Float)
  | int (n : Nat)
  | str (s : String)
  | points (ps : List Point)
  | colour (c : Colour)
  | null

/-- On an event, go to a target. -/
structure Rule where
  event : String
  target : Destination
  implicit : Bool
  deriving DecidableEq, Repr

/-- The rules of one task; the first that matches decides. -/
structure Entry where
  taskId : String
  rules : List Rule
  deriving DecidableEq, Repr

def Entry.dispatch (e : Entry) (event : String) : Option Destination :=
  (e.rules.find? fun r => r.event = event).map Rule.target

/-- The class and the arguments of one task, and the arguments of its written conditions when one
of them is not `done`. -/
structure Definition where
  taskId : String
  taskClass : TaskClass
  args : List (String × Value)
  transitionArgs : Option (List (String × Value))

def Definition.arg? (d : Definition) (key : String) : Option Value := d.args.lookup key

structure Program where
  entries : List Entry
  definitions : List Definition
  start : String
  tableKeys : List String

/-- What an event does to a task. -/
inductive Dispatch where
  | next (id : String)
  | terminate
  | unhandled
  deriving DecidableEq, Repr

namespace Program

def entry? (p : Program) (id : String) : Option Entry := p.entries.find? fun e => e.taskId = id

def definition? (p : Program) (id : String) : Option Definition :=
  p.definitions.find? fun d => d.taskId = id

def dispatch (p : Program) (id event : String) : Dispatch :=
  match (p.entry? id).bind fun e => e.dispatch event with
  | some (.task next) => .next next
  | some .terminate => .terminate
  | none => .unhandled

/-- The classes of the definitions, sorted and without repetition. -/
def classes (p : Program) : List TaskClass :=
  TaskClass.all.filter fun c => p.definitions.any fun d => d.taskClass = c

end Program
end Sortie
