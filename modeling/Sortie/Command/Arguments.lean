import Sortie.Decimal.Numeral
import Sortie.Workspace.Input

/-! The arguments of the command line. Options may stand anywhere after the place where they are
known; two hyphens alone end them. -/
namespace Sortie.Command

inductive Verb where
  | compile
  | partition
  | check
  deriving DecidableEq, Repr

def Verb.ofWord? : String → Option Verb
  | "compile" => some .compile
  | "partition" => some .partition
  | "check" => some .check
  | _ => none

inductive Opt where
  | config
  | verbose
  | version
  | help
  | kml
  | waypoints
  | vehicles
  | altitude
  | output
  deriving DecidableEq, Repr

namespace Opt

def all : List Opt :=
  [config, verbose, version, help, kml, waypoints, vehicles, altitude, output]

def longName : Opt → String
  | config => "config"
  | verbose => "verbose"
  | version => "version"
  | help => "help"
  | kml => "kml"
  | waypoints => "waypoints"
  | vehicles => "vehicles"
  | altitude => "altitude"
  | output => "output"

def shortName? : Opt → Option Char
  | verbose => some 'v'
  | version => some 'V'
  | help => some 'h'
  | output => some 'o'
  | _ => none

def takesValue : Opt → Bool
  | verbose => false
  | version => false
  | help => false
  | _ => true

/-- Whether an option is known: the version before the verb only, the settings file, the verbosity
and help everywhere, the others after the verbs that use them. -/
def isKnown (verb : Option Verb) : Opt → Bool
  | config => true
  | verbose => true
  | help => true
  | version => verb.isNone
  | kml => verb = some .compile
  | waypoints => verb = some .compile ∨ verb = some .check
  | vehicles => verb = some .compile ∨ verb = some .partition
  | altitude => verb = some .compile ∨ verb = some .partition
  | output => verb = some .compile ∨ verb = some .partition

def ofLong? (verb : Option Verb) (name : String) : Option Opt :=
  all.find? fun o => o.longName = name && o.isKnown verb

def ofShort? (verb : Option Verb) (c : Char) : Option Opt :=
  all.find? fun o => o.shortName? = some c && o.isKnown verb

end Opt

/-- One thing that arguments say. -/
inductive Item where
  | flag (o : Opt)
  | setting (o : Opt) (value : String)
  | verb (v : Verb)
  | operand (value : String)
  deriving DecidableEq, Repr

/-- Whether an argument holds options, rather than a value. A hyphen alone is a value. -/
def looksLikeOption (arg : String) : Bool := arg.startsWith "-" && arg ≠ "-"

/-- A cluster of short options. The first that takes a value takes the rest of the cluster, without
an equals sign in front; if nothing is left, the value is still to come. -/
def readCluster (verb : Option Verb) : List Char → Option (List Item × Option Opt)
  | [] => some ([], none)
  | c :: rest => do
    let o ← Opt.ofShort? verb c
    if o.takesValue then
      match rest with
      | [] => some ([], some o)
      | '=' :: value => some ([.setting o (String.ofList value)], none)
      | value => some ([.setting o (String.ofList value)], none)
    else if o = .version ∨ o = .help then some ([.flag o], none)
    else do
      let (items, open?) ← readCluster verb rest
      return (.flag o :: items, open?)

/-- A long option, its value after an equals sign or still to come. -/
def readLong (verb : Option Verb) (body : List Char) : Option (List Item × Option Opt) := do
  let name := body.takeWhile (· != '=')
  let o ← Opt.ofLong? verb (String.ofList name)
  match body.drop name.length, o.takesValue with
  | _ :: value, true => some ([.setting o (String.ofList value)], none)
  | [], true => some ([], some o)
  | [], false => some ([.flag o], none)
  | _ :: _, false => none

def isFinal (items : List Item) : Bool :=
  items.contains (.flag .version) || items.contains (.flag .help)

/-- What help can be asked for: everything, a verb, or help itself. -/
def isTopic : List String → Bool
  | [] => true
  | [word] => word = "help" || (Verb.ofWord? word).isSome
  | _ => false

/-- Reads arguments, given the verb met so far. Asking for the version or for help ends the
reading. -/
def readItems (verb : Option Verb) : List String → Option (List Item)
  | [] => some []
  | arg :: rest =>
    if arg = "--" then if verb.isSome then some (rest.map .operand) else none
    else if looksLikeOption arg then
      let body := arg.toList.tail
      let found := match body with
        | '-' :: long => readLong verb long
        | _ => readCluster verb body
      match found with
      | none => none
      | some (items, none) =>
        if isFinal items then some items else (readItems verb rest).map (items ++ ·)
      | some (items, some o) =>
        match rest with
        | value :: rest =>
          if looksLikeOption value then none
          else (readItems verb rest).map (items ++ .setting o value :: ·)
        | [] => none
    else match verb with
      | some _ => (readItems verb rest).map (.operand arg :: ·)
      | none =>
        if arg = "help" then if isTopic rest then some [.flag .help] else none
        else match Verb.ofWord? arg with
          | some v => (readItems (some v) rest).map (.verb v :: ·)
          | none => none

/-- What has been asked for so far. -/
structure Draft where
  verb : Option Verb := none
  config : Option Path := none
  configHere : Bool := false
  verbosity : Nat := 0
  verbosityHere : Nat := 0
  operand : Option Path := none
  kml : Option Path := none
  waypoints : Option Path := none
  vehicles : List String := []
  altitude : Option Float := none
  output : Option Path := none

namespace Draft

/-- A value may be given once, and a path is not empty. -/
def path (old : Option Path) (value : Path) : Option Path :=
  if old.isSome ∨ value = "" then none else some value

/-- Takes up a value. The settings file may be given once before the verb and once after it. -/
def set (d : Draft) (o : Opt) (value : String) : Option Draft :=
  match o with
  | .config =>
    if d.configHere ∨ value = "" then none
    else some { d with config := some value, configHere := true }
  | .kml => do return { d with kml := ← path d.kml value }
  | .waypoints => do return { d with waypoints := ← path d.waypoints value }
  | .output => do return { d with output := ← path d.output value }
  | .vehicles => some { d with vehicles := d.vehicles ++ Text.splitAt ',' value }
  | .altitude =>
    if d.altitude.isSome then none
    else do return { d with altitude := ← Decimal.read value }
  | _ => none

/-- Takes up one item. What is said after the verb wins over what is said before it. -/
def apply (d : Draft) : Item → Option Draft
  | .flag .verbose => some { d with verbosityHere := d.verbosityHere + 1 }
  | .flag _ => some d
  | .setting o value => d.set o value
  | .verb v =>
    some { d with
      verb := some v, configHere := false, verbosity := d.verbosityHere, verbosityHere := 0 }
  | .operand value => do return { d with operand := ← path d.operand value }

end Draft

/-- Work to be done. -/
inductive Action where
  | compile (mission : Path) (source : Workspace.AreaSource) (vehicles : List String)
      (altitude : Option Float) (output : Option Path)
  | partition (document : Path) (vehicles : List String) (altitude : Option Float)
      (output : Option Path)
  | check (mission : Path) (waypoints : Option Path)

structure Invocation where
  config : Option Path
  verbosity : Nat
  action : Action

inductive Request where
  | version
  | help
  | run (invocation : Invocation)

def Draft.action? (d : Draft) : Option Action := do
  let verb ← d.verb
  let operand ← d.operand
  match verb with
  | .compile =>
    let source ← match d.kml, d.waypoints with
      | some _, some _ => none
      | some p, none => some (.document p)
      | none, some p => some (.dictionary p)
      | none, none => some .none
    return .compile operand source d.vehicles d.altitude d.output
  | .partition => return .partition operand d.vehicles d.altitude d.output
  | .check => return .check operand d.waypoints

/-- What a list of arguments asks for; there is no answer to wrong usage. -/
def Request.ofArguments (args : List String) : Option Request := do
  let items ← readItems none args
  let d ← items.foldlM Draft.apply {}
  if items.contains (.flag .version) then return .version
  else if items.contains (.flag .help) then return .help
  else
    let verbosity := if d.verbosityHere = 0 then d.verbosity else d.verbosityHere
    return .run ⟨d.config, verbosity, ← d.action?⟩

end Sortie.Command
