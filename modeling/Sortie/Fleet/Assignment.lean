import Sortie.Decimal.Layout
import Sortie.Fleet.Slice
import Sortie.Fleet.Vehicle
import Sortie.Placemark.Area
import Sortie.Waypoints.Json

/-! The share of every vehicle in every survey area. -/
namespace Sortie

/-- The waypoint dictionary of each vehicle, in the order of the fleet. -/
abbrev Assignment : Type := Catalog Waypoints

/-- The text of an assignment. -/
def Assignment.toJson (a : Assignment) : String :=
  String.ofList (Json.object 0 (a.entries.map fun e => (e.1, e.2.json 1)))

namespace Fleet

/-- The vertical separation of neighbouring vehicles unless another is given. -/
def defaultStep : Float := 3.0

/-- The vehicles and their altitudes: each flies one step above the one before it. -/
structure Plan where
  vehicles : List String
  base : Float
  step : Float := defaultStep

inductive PartitionFault where
  | document (fault : DocumentFault)
  | noVehicles
  | duplicateVehicle (id : String)
  | noAreas
  deriving DecidableEq, Repr

def PartitionFault.message : PartitionFault → String
  | document fault => "malformed placemark document: " ++ fault.message
  | noVehicles => "no vehicles to partition across"
  | duplicateVehicle id => "vehicle '" ++ id ++ "' is listed more than once"
  | noAreas => "placemark source contains no usable areas"

/-- One vehicle's share of an area. -/
structure Share where
  vehicle : String
  slice : Slice
  altitude : String
  deriving DecidableEq, Repr

/-- The shares of an area, the altitude growing by one step from vehicle to vehicle. -/
def sharesFrom (step altitude : Float) : List String → List Slice → List Share
  | v :: vs, s :: ss =>
    let higher := altitude + step
    ⟨v, s, Decimal.Layout.plain.write higher⟩ :: sharesFrom step higher vs ss
  | _, _ => []

def shares (plan : Plan) (points : Nat) : List Share :=
  sharesFrom plan.step plan.base plan.vehicles (slices points plan.vehicles.length)

def Share.waypoints (s : Share) (points : List (String × String)) : List Waypoint :=
  (s.slice.take points).map fun p => ⟨p.1, p.2, s.altitude⟩

def Share.event (s : Share) (area : String) : Event :=
  .debug "assigned slice" [("area", area), ("vehicle", s.vehicle),
    ("start", toString s.slice.first), ("end", toString s.slice.last), ("altitude", s.altitude)]

/-- Enters every vehicle's share of one area. -/
def assignArea (plan : Plan) (assignment : Assignment) (area : Area) : Assignment :=
  (shares plan area.points.length).foldl
    (fun a s => a.modify s.vehicle fun d => d.insert area.name (s.waypoints area.points)) assignment

def areaEvents (plan : Plan) (area : Area) : List Event :=
  (shares plan area.points.length).map fun s => s.event area.name

/-- Splits every area across the vehicles of a plan. -/
def partition (areas : List Area) (plan : Plan) : Traced PartitionFault Assignment :=
  if plan.vehicles.isEmpty then .fail .noVehicles
  else match firstDuplicate plan.vehicles with
    | some id => .fail (.duplicateVehicle id)
    | none =>
      if areas.isEmpty then .fail .noAreas
      else do
        .emitAll (areas.flatMap (areaEvents plan))
        return areas.foldl (assignArea plan)
          (Catalog.ofList (plan.vehicles.map fun v => (v, Catalog.empty)))

/-- An assignment with the issues that were passed over. -/
structure Report where
  assignment : Assignment
  issues : List AreaIssue

/-- Splits the areas of a document across the vehicles of a plan. -/
def partitionDocument (document : String) (plan : Plan) : Traced PartitionFault Report := do
  let placemarks ← (Placemark.read document).mapError .document
  let findings := Placemark.collect placemarks
  .emitAll findings.events
  let assignment ← partition findings.areas plan
  .emit (.info "partitioned placemark areas" [("areas", toString findings.areas.length),
    ("vehicles", toString plan.vehicles.length), ("skipped", toString findings.issues.length)])
  return ⟨assignment, findings.issues⟩

end Fleet
end Sortie
