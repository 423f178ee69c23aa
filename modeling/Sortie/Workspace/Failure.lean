import Sortie.Compilation
import Sortie.Disk
import Sortie.Fleet.Assignment

/-! What can go wrong between files and missions. -/
namespace Sortie

inductive Failure where
  | compile (path : Path) (vehicle : Option String) (error : CompileError)
  | partition (path : Path) (fault : Fleet.PartitionFault)
  | waypoints (path : Path) (flaw : Json.Flaw)
  | settings (path : Path)
  | disk (path : Path) (fault : DiskFault)
  | vehicles (fault : Fleet.VehicleFault)

def Failure.message : Failure → String
  | compile path none error => path ++ ": " ++ error.text
  | compile path (some vehicle) error =>
    path ++ " (vehicle " ++ vehicle ++ "): " ++ error.text
  | partition path fault => path ++ ": " ++ fault.message
  | waypoints path _ => path ++ ": invalid waypoint dictionary: "
  | settings path => path ++ ": invalid config: "
  | disk path fault => path ++ ": " ++ fault.message
  | vehicles fault => fault.message

end Sortie
