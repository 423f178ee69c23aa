import Sortie.Mission.Analysis
import Sortie.Program.Generation
import Sortie.Program.Python
import Sortie.Script.Parse
import Sortie.Token.Scan

/-! From the text of a script to the text of its program. The first fault ends the compilation. -/
namespace Sortie

inductive CompileFault where
  | lexical (fault : Token.Fault)
  | grammatical (fault : Script.Fault)
  | semantic (fault : Mission.Fault)

namespace CompileFault

/-- The name of the family of a fault. -/
def label : CompileFault → String
  | lexical _ => "SyntaxError"
  | grammatical _ => "SyntaxError"
  | semantic f => if f.isResolution then "ResolutionError" else "ValidationError"

def message : CompileFault → String
  | lexical f => f.message
  | grammatical f => f.message
  | semantic f => f.message

end CompileFault

abbrev CompileError : Type := Located CompileFault

/-- The place, the family and the message of an error. -/
def CompileError.text (e : CompileError) : String :=
  "[" ++ toString e.position.line ++ ":" ++ toString e.position.column ++ "] " ++ e.fault.label ++
    ": " ++ e.fault.message

namespace Compilation

def scan (source : String) : Except CompileError (List Token) :=
  (Token.scan source).mapError (Located.map .lexical)

def parse (tokens : List Token) : Except CompileError Script :=
  (Script.parse tokens).mapError (Located.map .grammatical)

def analyze (tokens : List Token) (areas : Waypoints) : Traced CompileError Mission := do
  let script ← .ofExcept (parse tokens)
  (Mission.ofScript script areas).mapError (Located.map .semantic)

/-- The mission of a text, resolved and checked. -/
def check (source : String) (areas : Waypoints) : Traced CompileError Mission := do
  let tokens ← .ofExcept (scan source)
  analyze tokens areas

/-- A mission with its program and the text of the program. -/
structure Output where
  mission : Mission
  program : Program
  python : String

def ofMission (mission : Mission) : Output :=
  let program := Program.ofMission mission
  ⟨mission, program, program.python⟩

def compile (source : String) (areas : Waypoints) : Traced CompileError Output := do
  let mission ← check source areas
  let output := ofMission mission
  .emit (.debug "compiled mission" [("tasks", toString mission.tasks.size),
    ("transitions", toString mission.transitionCount),
    ("bytes", toString output.python.utf8ByteSize)])
  return output

end Compilation
end Sortie
