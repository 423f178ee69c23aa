import Sortie.Catalog
import Sortie.Decimal.Numeral
import Sortie.Text.Blank

/-! Waypoints, as texts and as numbers, and the dictionary of named survey areas. Coordinates stay
texts until a task refers to their area. -/
namespace Sortie

/-- Longitude and latitude in degrees, altitude in metres. -/
structure Point where
  longitude : Float
  latitude : Float
  altitude : Float

/-- A waypoint as supplied, each coordinate a text. -/
structure Waypoint where
  longitude : String
  latitude : String
  altitude : String
  deriving DecidableEq, Repr

inductive Axis where
  | longitude
  | latitude
  | altitude
  deriving DecidableEq, Repr

def Axis.word : Axis → String
  | longitude => "longitude"
  | latitude => "latitude"
  | altitude => "altitude"

/-- A coordinate that cannot be read as a number. -/
structure CoordinateFault where
  axis : Axis
  written : String
  deriving DecidableEq, Repr

def CoordinateFault.message (f : CoordinateFault) : String :=
  f.axis.word ++ " '" ++ f.written ++ "' is not a number"

/-- Reads one coordinate; blanks around it do not matter. -/
def Axis.read (axis : Axis) (written : String) : Except CoordinateFault Float :=
  match Decimal.readChars (Text.trimChars written.toList) with
  | some v => .ok v
  | none => .error ⟨axis, written⟩

/-- The point of a waypoint, or the first coordinate that is not a number. -/
def Waypoint.toPoint (w : Waypoint) : Except CoordinateFault Point := do
  let longitude ← Axis.longitude.read w.longitude
  let latitude ← Axis.latitude.read w.latitude
  let altitude ← Axis.altitude.read w.altitude
  return ⟨longitude, latitude, altitude⟩

/-- The waypoints of each named area, in document order. -/
abbrev Waypoints : Type := Catalog (List Waypoint)

end Sortie
