import Sortie.Mission

/-! What can be wrong with a script that reads well. -/
namespace Sortie.Mission

/-- What an attribute's value has to be. -/
inductive Demand where
  | number
  | count
  | word
  | bounds
  | pointList
  | path
  deriving DecidableEq, Repr

def Demand.describe : Demand → String
  | number => "a number"
  | count => "a non-negative integer"
  | word => "a name or string"
  | bounds => "a 3-tuple of integers in 0..=255"
  | pointList => "a list of (longitude, latitude, altitude) tuples"
  | path => "a tuple list or <area> reference"

/-- How an error message speaks of a transition. -/
def edgeText (condition source destination : String) : String :=
  "transition(" ++ condition ++ ") " ++ source ++ " -> " ++ destination

/-- Faults of resolution concern one task's attributes; faults of validation concern the graph. -/
inductive Fault where
  | missing (kind : TaskKind) (task key : String)
  | mismatch (key task : String) (demand : Demand) (found : String)
  | unknownArea (task area : String)
  | emptyArea (area task : String)
  | badPoint (area : String) (index : Nat) (reason : CoordinateFault)
  | duplicateTask (id : String) (firstPosition : Position)
  | unknownSource (condition source destination : String)
  | reservedId (id : String)
  | undeclaredStart (id : String)
  | misplaced (condition source destination key : String)
  | unknownDestination (condition source destination : String)
  deriving DecidableEq, Repr

namespace Fault

def isResolution : Fault → Bool
  | missing .. | mismatch .. | unknownArea .. | emptyArea .. | badPoint .. => true
  | _ => false

def message : Fault → String
  | missing kind task key =>
    kind.word ++ " task '" ++ task ++ "' is missing required attribute '" ++ key ++ "'"
  | mismatch key task demand found =>
    "attribute '" ++ key ++ "' of task '" ++ task ++ "' must be " ++ demand.describe ++
      ", found " ++ found
  | unknownArea task area =>
    "task '" ++ task ++ "' references unknown waypoint area <" ++ area ++ ">"
  | emptyArea area task =>
    "waypoint area <" ++ area ++ "> referenced by task '" ++ task ++ "' has no points"
  | badPoint area index reason =>
    "waypoint area <" ++ area ++ "> point " ++ toString index ++ ": " ++ reason.message
  | duplicateTask id p =>
    "duplicate task id '" ++ id ++ "' (first declared at " ++ toString p.line ++ ":" ++
      toString p.column ++ ")"
  | unknownSource condition source destination =>
    edgeText condition source destination ++ ": unknown source task '" ++ source ++ "'"
  | reservedId id => "task id '" ++ id ++ "' is reserved"
  | undeclaredStart id => "start task '" ++ id ++ "' is not declared"
  | misplaced condition source destination key =>
    edgeText condition source destination ++ ": listed under task '" ++ key ++
      "' but its source differs"
  | unknownDestination condition source destination =>
    edgeText condition source destination ++ ": unknown destination task '" ++ destination ++ "'"

end Fault
end Sortie.Mission
