import Sortie.Decimal.Numeral
import Sortie.Disk.Path
import Sortie.Fleet.Assignment
import Sortie.Yaml.Node

/-! The settings of the compiler and their reading from YAML. -/
namespace Sortie

/-- The altitudes of the fleet, its vehicles, and where outputs go: below the output root each
vehicle has a directory with a mission file and a waypoint file. -/
structure Settings where
  altitudeBase : Float := 15.0
  altitudeStep : Float := Fleet.defaultStep
  vehicles : List String := ["drone1"]
  outputRoot : Path := "generated"
  missionFile : String := "mission.py"
  waypointFile : String := "waypoints.json"

namespace Settings

instance : Inhabited Settings := ⟨{}⟩

/-- The plan for splitting areas across the fleet. -/
def plan (s : Settings) : Fleet.Plan := ⟨s.vehicles, s.altitudeBase, s.altitudeStep⟩

/-- A number is finite in decimal notation, or an infinity or no number by its name after a dot. One
plus sign is allowed in front. -/
def number? (text : String) : Option Float :=
  let unsigned : Option String := match text.toList with
    | '+' :: rest => if rest.head?.any (fun c => c == '+' || c == '-') then none
      else some (String.ofList rest)
    | _ => some text
  let isInfinite (v : Float) : Bool := match Decimal.Binary.ofFloat v with
    | .finite .. => false
    | _ => true
  match unsigned with
  | none => none
  | some unsigned =>
    if [".inf", ".Inf", ".INF"].contains unsigned then some (1.0 / 0.0)
    else if ["-.inf", "-.Inf", "-.INF"].contains text then some (-1.0 / 0.0)
    else if [".nan", ".NaN", ".NAN"].contains text then some (0.0 / 0.0)
    else (Decimal.read unsigned).filter fun v => !isInfinite v

/-- A number is written without quotes. -/
def float? : Yaml.Node → Option Float
  | .scalar text true => number? text
  | _ => none

/-- A list of texts; an empty scalar counts as an empty list. -/
def texts? : Yaml.Node → Option (List String)
  | .list items => items.mapM Yaml.Node.text?
  | .scalar "" true => some []
  | _ => none

def fieldNames : List String :=
  ["altitude_base", "altitude_step", "vehicles", "output_root", "mission_file_name",
    "waypoint_file_name"]

/-- The value of a field, or its default where the field is missing. -/
def field {α : Type} (fields : List (String × Yaml.Node)) (name : String)
    (read : Yaml.Node → Option α) (default : α) : Option α :=
  match fields.lookup name with
  | some node => read node
  | none => some default

/-- Reads settings from named values. Unknown names do not matter; a known one may occur once. -/
def ofFields (fields : List (String × Yaml.Node)) : Option Settings := do
  let names := fields.map Prod.fst
  if fieldNames.any fun n => 1 < names.count n then none
  let d : Settings := {}
  return {
    altitudeBase := ← field fields "altitude_base" float? d.altitudeBase
    altitudeStep := ← field fields "altitude_step" float? d.altitudeStep
    vehicles := ← field fields "vehicles" texts? d.vehicles
    outputRoot := ← field fields "output_root" Yaml.Node.text? d.outputRoot
    missionFile := ← field fields "mission_file_name" Yaml.Node.text? d.missionFile
    waypointFile := ← field fields "waypoint_file_name" Yaml.Node.text? d.waypointFile }

/-- Reads settings from a mapping; an empty document leaves every default. -/
def ofNode : Yaml.Node → Option Settings
  | .mapping pairs => do
    let fields ← pairs.mapM fun p => p.1.text?.map fun name => (name, p.2)
    ofFields fields
  | .scalar "" true => some {}
  | _ => none

/-- Reads settings from a YAML text. -/
def ofYaml (text : String) : Option Settings := Yaml.Node.parse text >>= ofNode

end Settings
end Sortie
