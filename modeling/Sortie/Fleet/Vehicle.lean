/-! The names of the vehicles of a fleet. -/
namespace Sortie.Fleet

/-- The first name that repeats an earlier one, given the names met so far. -/
def duplicateAfter (seen : List String) : List String → Option String
  | [] => none
  | id :: rest => if seen.contains id then some id else duplicateAfter (seen ++ [id]) rest

def firstDuplicate (ids : List String) : Option String := duplicateAfter [] ids

inductive VehicleFault where
  | none
  | invalid (id : String)
  | duplicate (id : String)
  deriving DecidableEq, Repr

def VehicleFault.message : VehicleFault → String
  | none => "no vehicles configured"
  | invalid id => "invalid vehicle id '" ++ id ++ "': use letters, digits, '_' or '-'"
  | duplicate id => "vehicle '" ++ id ++ "' is listed more than once"

/-- A vehicle's name serves as the name of a directory: letters and digits of ASCII, underscores
and hyphens. -/
def isValidId (id : String) : Bool :=
  id ≠ "" && id.toList.all fun c => c.isAlphanum || c == '_' || c == '-'

/-- A fleet has vehicles, and their names are valid and distinct. -/
def checkVehicles (ids : List String) : Except VehicleFault Unit :=
  if ids.isEmpty then .error .none
  else match ids.find? fun id => !isValidId id with
    | some id => .error (.invalid id)
    | Option.none => match firstDuplicate ids with
      | some id => .error (.duplicate id)
      | Option.none => .ok ()

end Sortie.Fleet
