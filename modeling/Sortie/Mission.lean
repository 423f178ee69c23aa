import Sortie.Catalog
import Sortie.Script
import Sortie.Waypoints

/-! Missions: tasks with their parameters, and the transitions between them. -/
namespace Sortie

/-- The event by which a task says that it has finished. -/
def doneEvent : String := "done"

/-- The name of the terminal state. -/
def terminateName : String := "terminate"

/-- The parameters of a task that follows a path. -/
structure Survey where
  waypoints : List Point
  gimbalPitch : Float
  droneRotation : Float
  sampleRate : UInt32
  hoverDelay : UInt32
  model : String

/-- A bound on the three channels of a colour. -/
structure Colour where
  first : UInt8
  second : UInt8
  third : UInt8
  deriving DecidableEq, Repr

structure Tracking where
  gimbalPitch : Float
  target : String
  model : String
  lowerBound : Option Colour
  upperBound : Option Colour

/-- What a task does, with the parameters that its kind asks for. -/
inductive Work where
  | detect (survey : Survey)
  | track (tracking : Tracking)
  | avoid (survey : Survey) (speed : Float)
  | test

def Work.kind : Work → TaskKind
  | detect _ => .detect
  | track _ => .track
  | avoid _ _ => .avoid
  | test => .test

inductive Destination where
  | task (id : String)
  | terminate
  deriving DecidableEq, Repr

namespace Destination

def ofName (name : String) : Destination :=
  if name = terminateName then terminate else task name

def name : Destination → String
  | task id => id
  | terminate => terminateName

end Destination

/-- An edge that leaves a task on an event. The edge added to a task without a written `done` is
marked as implicit. -/
structure Transition where
  condition : String
  argument : Option Argument
  source : String
  destination : Destination
  implicit : Bool
  position : Position

namespace Transition

/-- The edge from `done` to the end of the mission. -/
def doneDefault (source : String) (position : Position) : Transition :=
  ⟨doneEvent, none, source, .terminate, true, position⟩

def ofDecl (d : TransitionDecl) : Transition :=
  ⟨d.condition, d.argument, d.source, .ofName d.destination, false, d.position⟩

end Transition

structure Task where
  id : String
  work : Work
  transitions : List Transition
  position : Position

namespace Task

/-- Where an event leads: the first transition on it decides. -/
def dispatch (t : Task) (event : String) : Option Destination :=
  (t.transitions.find? fun x => x.condition = event).map Transition.destination

/-- The transitions that were written. -/
def explicit (t : Task) : List Transition := t.transitions.filter fun x => !x.implicit

def hasExplicitDone (t : Task) : Bool := t.explicit.any fun x => x.condition = doneEvent

/-- Adds the edge from `done` to the end of the mission where none is written. -/
def withDefault (t : Task) : Task :=
  if t.hasExplicitDone then t
  else { t with transitions := t.transitions ++ [.doneDefault t.id t.position] }

end Task

/-- The start task and all tasks, in order of declaration. -/
structure Mission where
  start : String
  startPosition : Position
  tasks : Catalog Task

def Mission.transitionCount (m : Mission) : Nat :=
  (m.tasks.values.flatMap Task.transitions).length

end Sortie
