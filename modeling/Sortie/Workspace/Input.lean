import Sortie.Settings
import Sortie.Workspace.Failure
import Sortie.Workspace.Job

/-! Reading missions, areas and settings from files, and compiling for every vehicle. -/
namespace Sortie.Workspace
variable {m : Type → Type} [Monad m] [Files m]

def readText (p : Path) : Job m Failure String := .attempt (.disk p) (Files.read p)

/-- The waypoint dictionary in a file. -/
def loadWaypoints (p : Path) : Job m Failure Waypoints := do
  let text ← readText p
  .ofTraced (.ofExcept ((Waypoints.ofJson text).mapError (.waypoints p)))

/-- Splits the areas of a placemark file across a fleet; each issue is a warning. -/
def partitionFile (p : Path) (plan : Fleet.Plan) : Job m Failure Fleet.Report := do
  let document ← readText p
  let report ← .ofTraced ((Fleet.partitionDocument document plan).mapError (.partition p))
  .ofTraced (.emitAll (report.issues.map fun i => .warn i.message [("path", p)]))
  return report

/-- Where the areas of a mission come from. -/
inductive AreaSource where
  | none
  | dictionary (path : Path)
  | document (path : Path)
  deriving DecidableEq, Repr

def checkVehicles (ids : List String) : Job m Failure Unit :=
  .ofTraced (.ofExcept ((Fleet.checkVehicles ids).mapError .vehicles))

/-- The dictionary of each vehicle, in the order of the fleet. -/
def dictionaries (source : AreaSource) (s : Settings) :
    Job m Failure (List (String × Waypoints)) := do
  checkVehicles s.vehicles
  match source with
  | .document p => return (← partitionFile p s.plan).assignment.entries
  | .dictionary p =>
    let areas ← loadWaypoints p
    return s.vehicles.map fun v => (v, areas)
  | .none => return s.vehicles.map fun v => (v, Catalog.empty)

/-- The mission compiled for one vehicle, with the dictionary it was compiled against. -/
structure VehicleOutput where
  vehicle : String
  output : Compilation.Output
  waypoints : Waypoints

/-- Compiles a mission text for one vehicle. -/
def compileFor (path : Path) (text vehicle : String) (areas : Waypoints) :
    Traced Failure VehicleOutput := do
  let output ← (Compilation.compile text areas).mapError (.compile path (some vehicle))
  .emit (.debug "vehicle compiled"
    [("vehicle", vehicle), ("tasks", toString output.mission.tasks.size)])
  return ⟨vehicle, output, areas⟩

/-- Compiles a mission file for every vehicle. Nothing is written. -/
def compileAll (path : Path) (source : AreaSource) (s : Settings) :
    Job m Failure (List VehicleOutput) := do
  let text ← readText path
  let ds ← dictionaries source s
  .ofTraced (ds.mapM fun d => compileFor path text d.1 d.2)

/-- The mission in a file, resolved and checked. -/
def check (path : Path) (areas : Option Path) : Job m Failure Mission := do
  let text ← readText path
  let areas ← match areas with
    | some p => loadWaypoints p
    | none => pure Catalog.empty
  .ofTraced ((Compilation.check text areas).mapError (.compile path none))

/-- The file that settings are read from unless another is given. -/
def settingsPath (home : Path) : Path := (home.join ".missionc").join "config.yaml"

def loadSettingsFrom (p : Path) : Job m Failure Settings := do
  let text ← readText p
  match Settings.ofYaml text with
  | some s => return s
  | none => .fail (.settings p)

/-- Reads the settings file that is given, else the one in the home folder if it is there. -/
def loadSettings (home explicit : Option Path) : Job m Failure Settings :=
  match explicit with
  | some p => loadSettingsFrom p
  | none =>
    match home with
    | none => return {}
    | some home => do
      if ← .lift (Files.isPresent (settingsPath home)) then loadSettingsFrom (settingsPath home)
      else return {}

end Sortie.Workspace
