import Sortie.Log
import Sortie.Program

/-! The machine that runs a program: one task is active at a time, and an event raised by the
active task moves the machine along the dispatch table. -/
namespace Sortie.Machine

/-- What the machine asks of its host. -/
inductive HostCall where
  | start (taskClass : TaskClass) (id : String)
  | stop (id : String)
  | finish
  deriving DecidableEq, Repr

inductive State where
  | idle
  | running (id : String)
  | halted
  deriving DecidableEq, Repr

def State.active? : State → Option String
  | running id => some id
  | _ => none

/-- What is done to the machine from outside. -/
inductive Input where
  | start
  | deliver (task event : String)
  deriving DecidableEq, Repr

inductive Outcome where
  | started
  | transitioned (source target : String)
  | terminated
  | unhandled
  | ignored
  deriving DecidableEq, Repr

inductive Fault where
  | alreadyStarted
  | unknownTask (id : String)
  deriving DecidableEq, Repr

def Fault.message : Fault → String
  | alreadyStarted => "mission already started"
  | unknownTask id => "no definition for task '" ++ id ++ "'"

/-- One step of the machine: the calls it makes, the state it leaves and what it reports. -/
structure Turn where
  calls : List HostCall
  state : State
  events : List Event
  outcome : Except Fault Outcome

/-- Enters a task after the given calls. Without a definition the state stays as it was, and the
calls that were made before stand. -/
def enter (p : Program) (before : State) (calls : List HostCall) (id : String) (report : Event)
    (outcome : Outcome) : Turn :=
  match p.definition? id with
  | none => ⟨calls, before, [], .error (.unknownTask id)⟩
  | some d => ⟨calls ++ [.start d.taskClass d.taskId], .running id, [report], .ok outcome⟩

def start (p : Program) (state : State) : Turn :=
  match state with
  | .idle => enter p .idle [] p.start (.info "mission started" [("task", p.start)]) .started
  | _ => ⟨[], state, [], .error .alreadyStarted⟩

/-- An event counts only when its task is active. -/
def deliver (p : Program) (state : State) (task event : String) : Turn :=
  if state = .running task then
    match p.dispatch task event with
    | .next target =>
      enter p state [.stop task] target
        (.debug "transition" [("from", task), ("to", target), ("event", event)])
        (.transitioned task target)
    | .terminate =>
      ⟨[.stop task, .finish], .halted,
        [.info "mission terminated" [("task", task), ("event", event)]], .ok .terminated⟩
    | .unhandled =>
      ⟨[], state, [.warn "no transition for event" [("task", task), ("event", event)]],
        .ok .unhandled⟩
  else
    ⟨[], state, [.debug "event for inactive task ignored" [("task", task), ("event", event)]],
      .ok .ignored⟩

def step (p : Program) (state : State) : Input → Turn
  | .start => start p state
  | .deliver task event => deliver p state task event

/-- The turns of a sequence of inputs. -/
def run (p : Program) (state : State) : List Input → List Turn
  | [] => []
  | input :: rest =>
    let turn := step p state input
    turn :: run p turn.state rest

end Sortie.Machine
