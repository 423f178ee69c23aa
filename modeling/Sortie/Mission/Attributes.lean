import Sortie.Log
import Sortie.Mission.Fault

/-! The typed parameters of a task from its attributes. Of several attributes with one key the
first counts; keys that the kind of task does not know are ignored with a warning. -/
namespace Sortie

namespace TaskKind

def surveyKeys : List String :=
  ["way_points", "gimbal_pitch", "drone_rotation", "sample_rate", "hover_delay", "model"]

/-- The attribute keys that a kind of task knows. -/
def keys : TaskKind → List String
  | detect => surveyKeys
  | avoid => surveyKeys ++ ["speed"]
  | track => ["gimbal_pitch", "class", "model", "lower_bound", "upper_bound"]
  | test => []

end TaskKind

namespace TaskDecl
open Mission (Fault Demand)

abbrev Resolved (α : Type) : Type := Except (Located Fault) α

def find? (d : TaskDecl) (key : String) : Option Attribute :=
  d.attributes.find? fun a => a.key = key

def required (d : TaskDecl) (key : String) : Resolved Attribute :=
  match d.find? key with
  | some a => .ok a
  | none => .error ⟨.missing d.kind d.name key, d.position⟩

def mismatch (d : TaskDecl) (a : Attribute) (demand : Demand) : Located Fault :=
  ⟨.mismatch a.key d.name demand a.value.describe, a.position⟩

/-- Takes a value of the wanted form, or reports the mismatch. -/
def demand {α : Type} (d : TaskDecl) (a : Attribute) (demand : Demand) (value : Option α) :
    Resolved α :=
  match value with
  | some v => .ok v
  | none => .error (d.mismatch a demand)

end TaskDecl

namespace Expr

def number? : Expr → Option Float
  | number v => some v
  | integer n => some n.toFloat
  | _ => none

/-- A count is a natural number below `2 ^ 32`, however it is written. -/
def count? : Expr → Option UInt32
  | integer n => if n.toNat < UInt32.size then some (UInt32.ofNat n.toNat) else none
  | number v => match (Decimal.Binary.ofFloat v).toNat? with
    | some n => if n < UInt32.size then some (UInt32.ofNat n) else none
    | none => none
  | _ => none

def word? : Expr → Option String
  | name s => some s
  | text s => some s
  | _ => none

/-- A channel of a colour is a natural number up to 255. -/
def channel? (v : Float) : Option UInt8 :=
  match (Decimal.Binary.ofFloat v).toNat? with
  | some n => if n ≤ 255 then some (UInt8.ofNat n) else none
  | none => none

def colour? : Expr → Option Colour
  | triple a b c => do return ⟨← channel? a, ← channel? b, ← channel? c⟩
  | _ => none

def point? : List Float → Option Point
  | [longitude, latitude, altitude] => some ⟨longitude, latitude, altitude⟩
  | _ => none

end Expr

namespace TaskDecl
open Mission (Fault Demand)

def number (d : TaskDecl) (key : String) : Resolved Float := do
  let a ← d.required key
  d.demand a .number a.value.number?

def count (d : TaskDecl) (key : String) : Resolved UInt32 := do
  let a ← d.required key
  d.demand a .count a.value.count?

def word (d : TaskDecl) (key : String) : Resolved String := do
  let a ← d.required key
  d.demand a .word a.value.word?

/-- The bounds of a colour may be left out. -/
def bounds (d : TaskDecl) (key : String) : Resolved (Option Colour) :=
  match d.find? key with
  | none => .ok none
  | some a => some <$> d.demand a .bounds a.value.colour?

/-- The points of an area, counted from an index for the error message. -/
def areaPoints (a : Attribute) (area : String) : Nat → List Waypoint → Resolved (List Point)
  | _, [] => .ok []
  | index, w :: ws =>
    match w.toPoint with
    | .error reason => .error ⟨.badPoint area index reason, a.position⟩
    | .ok p => do
      let ps ← areaPoints a area (index + 1) ws
      return p :: ps

/-- An area that a task refers to is known and has points, all of them numbers. -/
def area (d : TaskDecl) (a : Attribute) (name : String) (areas : Waypoints) :
    Resolved (List Point) :=
  match areas.get? name with
  | none => .error ⟨.unknownArea d.name name, a.position⟩
  | some [] => .error ⟨.emptyArea name d.name, a.position⟩
  | some ws => areaPoints a name 0 ws

/-- The path of a survey: a list of triples, a single triple or the points of an area. -/
def path (d : TaskDecl) (areas : Waypoints) : Resolved (List Point) := do
  let a ← d.required "way_points"
  match a.value with
  | .tuples ts => d.demand a .pointList (ts.mapM Expr.point?)
  | .triple longitude latitude altitude => return [⟨longitude, latitude, altitude⟩]
  | .area name => d.area a name areas
  | _ => .error (d.mismatch a .path)

def survey (d : TaskDecl) (areas : Waypoints) : Resolved Survey := do
  let waypoints ← d.path areas
  let gimbalPitch ← d.number "gimbal_pitch"
  let droneRotation ← d.number "drone_rotation"
  let sampleRate ← d.count "sample_rate"
  let hoverDelay ← d.count "hover_delay"
  let model ← d.word "model"
  return ⟨waypoints, gimbalPitch, droneRotation, sampleRate, hoverDelay, model⟩

def tracking (d : TaskDecl) : Resolved Tracking := do
  let gimbalPitch ← d.number "gimbal_pitch"
  let target ← d.word "class"
  let model ← d.word "model"
  let lowerBound ← d.bounds "lower_bound"
  let upperBound ← d.bounds "upper_bound"
  return ⟨gimbalPitch, target, model, lowerBound, upperBound⟩

def work (d : TaskDecl) (areas : Waypoints) : Resolved Work :=
  match d.kind with
  | .detect => return .detect (← d.survey areas)
  | .track => return .track (← d.tracking)
  | .avoid => do
    let survey ← d.survey areas
    let speed ← d.number "speed"
    return .avoid survey speed
  | .test => return .test

/-- The attributes whose key occurred before, given the keys met so far. -/
def repeatedAfter (seen : List String) : List Attribute → List Attribute
  | [] => []
  | a :: rest =>
    if seen.contains a.key then a :: repeatedAfter seen rest
    else repeatedAfter (seen ++ [a.key]) rest

def repeated (d : TaskDecl) : List Attribute := repeatedAfter [] d.attributes

def unknown (d : TaskDecl) : List Attribute :=
  d.attributes.filter fun a => !d.kind.keys.contains a.key

/-- Warnings about attributes that do not count: repeated ones first, then unknown ones. -/
def warnings (d : TaskDecl) : List Event :=
  (d.repeated.map fun a =>
    .warn "duplicate attribute ignored; first value is kept"
      [("task", d.name), ("key", a.key), ("line", toString a.position.line)]) ++
  (d.unknown.map fun a =>
    .warn "unknown attribute ignored"
      [("task", d.name), ("kind", d.kind.word), ("key", a.key),
        ("line", toString a.position.line)])

/-- The task of a declaration, as yet without transitions. -/
def resolve (d : TaskDecl) (areas : Waypoints) : Traced (Located Fault) Task := do
  .emitAll d.warnings
  let work ← .ofExcept (d.work areas)
  return ⟨d.name, work, [], d.position⟩

end TaskDecl
end Sortie
