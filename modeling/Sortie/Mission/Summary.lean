import Sortie.Mission

/-! The listing of a mission for its author. -/
namespace Sortie

def Transition.summaryLine (t : Transition) : String :=
  "    " ++ t.condition ++ " -> " ++ t.destination.name ++ (if t.implicit then " (default)" else "")

def Task.summaryLines (t : Task) : List String :=
  ("  " ++ t.work.kind.word ++ " " ++ t.id) :: t.transitions.map Transition.summaryLine

/-- The lines of a text, each closed by a line feed. -/
def joinLines (lines : List String) : String := String.join (lines.map (· ++ "\n"))

def Mission.summary (m : Mission) : String :=
  joinLines (("start: " ++ m.start ++ " (" ++ toString m.tasks.size ++ " task(s), " ++
    toString m.transitionCount ++ " transition(s))") :: m.tasks.values.flatMap Task.summaryLines)

end Sortie
