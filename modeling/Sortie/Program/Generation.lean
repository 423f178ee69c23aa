import Sortie.Program

/-! The program of a mission. -/
namespace Sortie

def Task.entry (t : Task) : Entry :=
  ⟨t.id, t.transitions.map fun x => ⟨x.condition, x.destination, x.implicit⟩⟩

def Survey.args (s : Survey) : List (String × Value) :=
  [("way_points", .points s.waypoints), ("gimbal_pitch", .float s.gimbalPitch),
    ("drone_rotation", .float s.droneRotation), ("sample_rate", .int s.sampleRate.toNat),
    ("hover_delay", .int s.hoverDelay.toNat), ("model", .str s.model)]

def Tracking.args (t : Tracking) : List (String × Value) :=
  [("gimbal_pitch", .float t.gimbalPitch), ("class", .str t.target), ("model", .str t.model)] ++
    (t.lowerBound.toList.map fun c => ("lower_bound", .colour c)) ++
    (t.upperBound.toList.map fun c => ("upper_bound", .colour c))

namespace Work

def taskClass : Work → TaskClass
  | detect _ => .detect
  | track _ => .track
  | avoid _ _ => .avoid
  | test => .test

def args : Work → List (String × Value)
  | detect s => s.args
  | track t => t.args
  | avoid s speed => s.args ++ [("speed", .float speed)]
  | test => []

end Work

def Transition.argumentValue (t : Transition) : Value :=
  match t.argument with
  | some (.text s) => .str s
  | some (.number v) => .float v
  | none => .null

/-- Each condition with its argument, for the first transition on it, after the conditions already
listed. -/
def conditionArgs (listed : List String) : List Transition → List (String × Value)
  | [] => []
  | t :: rest =>
    if listed.contains t.condition then conditionArgs listed rest
    else (t.condition, t.argumentValue) :: conditionArgs (listed ++ [t.condition]) rest

/-- The arguments of the written conditions, if one of them is not `done`. -/
def Task.transitionArgs (t : Task) : Option (List (String × Value)) :=
  if t.explicit.any fun x => x.condition ≠ doneEvent then some (conditionArgs [] t.explicit)
  else none

def Task.definition (t : Task) : Definition :=
  ⟨t.id, t.work.taskClass, t.work.args, t.transitionArgs⟩

def Program.ofMission (m : Mission) : Program :=
  ⟨m.tasks.values.map Task.entry, m.tasks.values.map Task.definition, m.start, m.tasks.keys⟩

end Sortie
