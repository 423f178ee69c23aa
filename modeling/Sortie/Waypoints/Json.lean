import Sortie.Json.Reader
import Sortie.Json.Text
import Sortie.Waypoints

/-! Waypoint dictionaries as JSON: an object of areas, each a list of triples of strings. -/
namespace Sortie

def Waypoint.json (level : Nat) (w : Waypoint) : List Char :=
  Json.list level [Json.quoted w.longitude, Json.quoted w.latitude, Json.quoted w.altitude]

namespace Waypoints

def areaJson (level : Nat) (ws : List Waypoint) : List Char :=
  Json.list level (ws.map fun w => w.json (level + 1))

def json (level : Nat) (areas : Waypoints) : List Char :=
  Json.object level (areas.entries.map fun e => (e.1, areaJson (level + 1) e.2))

/-- The text of a dictionary. -/
def toJson (areas : Waypoints) : String := String.ofList (json 0 areas)

/-- A triple of strings, neither more nor fewer. -/
def readWaypoint (cs : List Char) : Except Json.Flaw (Waypoint × List Char) :=
  match Json.skipSpace cs with
  | '[' :: rest => do
    let (longitude, rest) ← Json.readNext true Json.readString rest
    let (latitude, rest) ← Json.readNext false Json.readString rest
    let (altitude, rest) ← Json.readNext false Json.readString rest
    let rest ← Json.readEnd rest
    return (⟨longitude, latitude, altitude⟩, rest)
  | cs => .error (Json.misfit cs)

/-- Reads a dictionary; a repeated area replaces the points and keeps its first place. -/
def ofJson (text : String) : Except Json.Flaw Waypoints := do
  let entries ← Json.readAll (Json.readObject (Json.readList readWaypoint)) text
  return Catalog.ofList entries

end Waypoints
end Sortie
