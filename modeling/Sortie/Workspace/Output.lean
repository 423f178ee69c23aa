import Sortie.Workspace.Input

/-! Writing the outputs of a fleet. Files are staged in a scratch folder inside the output root, and
moved to their places once all of them exist. -/
namespace Sortie.Workspace
variable {m : Type → Type} [Monad m] [Files m]

/-- The names of a vehicle's files with their contents. -/
def VehicleOutput.files (o : VehicleOutput) (s : Settings) : List (String × String) :=
  [(s.missionFile, o.output.python), (s.waypointFile, o.waypoints.toJson)]

/-- No file may stand where a vehicle's folder goes, and no folder where a file goes. -/
def checkUnblocked (s : Settings) (o : VehicleOutput) : Job m Failure Unit := do
  let folder := s.outputRoot.join o.vehicle
  if (← .lift (Files.isPresent folder)) && !(← .lift (Files.isFolder folder)) then
    .fail (.disk folder .blocked)
  (o.files s).forM fun f => do
    let path := folder.join f.1
    if ← .lift (Files.isFolder path) then .fail (.disk path .blocked)

/-- The beginning of the name of a scratch folder. -/
def stagingStem : String := ".missionc-staging-"

/-- Writes the files of one vehicle into the scratch folder. -/
def stageVehicle (staging : Path) (s : Settings) (o : VehicleOutput) : Job m Failure Unit := do
  let folder := staging.join o.vehicle
  .attempt (.disk folder) (Files.makeFolder folder)
  (o.files s).forM fun f => do
    let path := folder.join f.1
    .attempt (.disk path) (Files.write path f.2)
  .emit (.debug "staged outputs" [("vehicle", o.vehicle)])

/-- Stages all files and returns the scratch folder, which is gone again after a failure. -/
def stage (outputs : List VehicleOutput) (s : Settings) : Job m Failure Path := do
  .attempt (.disk s.outputRoot) (Files.makeFolders s.outputRoot)
  let staging := s.outputRoot.join (← .lift (Files.freshName s.outputRoot stagingStem))
  .attempt (.disk s.outputRoot) (Files.makeFolder staging)
  Job.onFailure (outputs.forM (stageVehicle staging s)) (Files.removeAll staging)
  return staging

/-- Moves the files of one vehicle to their places. -/
def settleVehicle (staging : Path) (s : Settings) (o : VehicleOutput) :
    Job m Failure (List Path) := do
  let folder := s.outputRoot.join o.vehicle
  .attempt (.disk folder) (Files.makeFolders folder)
  (o.files s).mapM fun f => do
    let target := folder.join f.1
    .attempt (.disk target) (Files.move ((staging.join o.vehicle).join f.1) target)
    return target

/-- Writes the outputs of a fleet and returns the paths written. An output root that was not there
before is gone again when staging fails. -/
def writeOutputs (outputs : List VehicleOutput) (s : Settings) : Job m Failure (List Path) := do
  checkVehicles (outputs.map VehicleOutput.vehicle)
  outputs.forM (checkUnblocked s)
  let existed ← .lift (Files.isPresent s.outputRoot)
  let staging ← (stage outputs s).onFailure
    (if existed then pure () else Files.removeAll s.outputRoot)
  let written ← Job.andFinally (outputs.mapM (settleVehicle staging s)) (Files.removeAll staging)
  let written := written.flatten
  .emit (.info "outputs written"
    [("files", toString written.length), ("root", s.outputRoot)])
  return written

/-- Compiles a mission file for every vehicle, then writes all outputs. -/
def compileToDisk (path : Path) (source : AreaSource) (s : Settings) :
    Job m Failure (List Path) := do
  writeOutputs (← compileAll path source s) s

end Sortie.Workspace
