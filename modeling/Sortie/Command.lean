import Sortie.Command.Arguments
import Sortie.Workspace.Output

/-! The command line as a function of its arguments and the files it reaches. -/
namespace Sortie.Command
variable {m : Type → Type} [Monad m] [Files m]

/-- Vehicles and the altitude from the command line replace those of the settings; vehicles only if
some name is left when blanks are dropped. -/
def override (s : Settings) (vehicles : List String) (altitude : Option Float) : Settings :=
  let named := (vehicles.map Text.trim).filter (· ≠ "")
  { s with
    vehicles := if named.isEmpty then s.vehicles else named
    altitudeBase := altitude.getD s.altitudeBase }

/-- Carries out an action and returns what it prints. -/
def Action.perform (s : Settings) : Action → Job m Failure String
  | .compile mission source vehicles altitude output => do
    let s := override s vehicles altitude
    Workspace.checkVehicles s.vehicles
    let s := { s with outputRoot := output.getD s.outputRoot }
    let written ← Workspace.compileToDisk mission source s
    return joinLines written
  | .partition document vehicles altitude output => do
    let s := override s vehicles altitude
    Workspace.checkVehicles s.vehicles
    let report ← Workspace.partitionFile document s.plan
    let text := report.assignment.toJson
    match output with
    | none => return text ++ "\n"
    | some p =>
      Job.attempt (.disk p) (Files.write p text)
      return ""
  | .check mission waypoints => do
    return (← Workspace.check mission waypoints).summary

def Invocation.perform (i : Invocation) (home : Option Path) : Job m Failure String := do
  i.action.perform (← Workspace.loadSettings home i.config)

/-- How a run ends: its exit status, what it prints, and its error line. -/
structure Outcome where
  status : Nat
  printed : String
  error : Option String
  deriving DecidableEq, Repr

def versionLine : String := "missionc 0.1.0\n"

def usage : String :=
  joinLines ["Usage: missionc [--config PATH] [-v]... <compile|partition|check> ...",
    "  compile DSL [--kml PATH | --waypoints PATH] [--vehicles A,B] [--altitude N] [-o DIR]",
    "  partition KML [--vehicles A,B] [--altitude N] [-o FILE]",
    "  check DSL [--waypoints PATH]"]

/-- The ending of a run with a result: 0 after success, 1 after a failure. -/
def Outcome.ofResult : Except Failure String → Outcome
  | .ok printed => ⟨0, printed, none⟩
  | .error e => ⟨1, "", some ("error: " ++ e.message)⟩

/-- A run of the command line, with the events that its verbosity shows. Wrong usage ends with
status 2. -/
def execute (args : List String) (home : Option Path) : m (Outcome × List Event) := do
  match Request.ofArguments args with
  | none => return (⟨2, "", some usage⟩, [])
  | some .version => return (⟨0, versionLine, none⟩, [])
  | some .help => return (⟨0, usage, none⟩, [])
  | some (.run i) =>
    let t ← (i.perform home).run
    return (.ofResult t.result, t.events.filter fun e => e.level.shownAt i.verbosity)

end Sortie.Command
