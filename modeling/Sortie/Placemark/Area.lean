import Sortie.Markup.Scan
import Sortie.Placemark

/-! Survey areas from placemarks. -/
namespace Sortie

/-- A named list of longitude and latitude pairs, as written. -/
structure Area where
  name : String
  points : List (String × String)
  deriving DecidableEq, Repr

/-- Why a placemark does not become an area. -/
inductive AreaIssue where
  | missingName (index : Nat)
  | missingCoordinates (area : String)
  | duplicate (area : String)
  deriving DecidableEq, Repr

def AreaIssue.message : AreaIssue → String
  | missingName index => "placemark #" ++ toString index ++ " has no name"
  | missingCoordinates area => "area '" ++ area ++ "' has no usable coordinates"
  | duplicate area => "area '" ++ area ++ "' is declared more than once; later copies skipped"

/-- The name of the launch point, which is no area. -/
def takeoffName : String := "takeoff"

namespace Area

/-- The first two fields of a coordinate, if neither is empty. -/
def pair? (token : String) : Option (String × String) :=
  match Text.splitAt ',' token with
  | longitude :: latitude :: _ =>
    if longitude ≠ "" ∧ latitude ≠ "" then some (longitude, latitude) else none
  | _ => none

def pairs (coordinates : String) : List (String × String) :=
  (Text.words coordinates).filterMap pair?

def dropped (area coordinates : String) : List Event :=
  ((Text.words coordinates).filter fun t => (pair? t).isNone).map fun t =>
    .warn "malformed coordinate dropped" [("area", area), ("token", t)]

end Area

/-- The areas and the issues found so far, with what was reported on the way. -/
structure Survey.Findings where
  areas : List Area
  issues : List AreaIssue
  events : List Event

namespace Survey.Findings

def initial : Findings := ⟨[], [], []⟩

/-- Takes up a placemark: it becomes an area, an issue, or is skipped as the launch point. -/
def take (f : Findings) (index : Nat) (p : Placemark) : Findings :=
  match p.name.filter (· ≠ "") with
  | none =>
    { f with
      issues := f.issues ++ [.missingName index]
      events := f.events ++ [.warn "placemark without a name skipped" [("index", toString index)]] }
  | some name =>
    if name = takeoffName then
      { f with events := f.events ++ [.debug "skipping reserved takeoff placemark" []] }
    else if f.areas.any fun a => a.name = name then
      { f with
        issues := f.issues ++ [.duplicate name]
        events := f.events ++ [.warn "duplicate area skipped; first placemark is kept"
          [("area", name), ("index", toString index)]] }
    else
      let coordinates := p.coordinates.getD ""
      let dropped := Area.dropped name coordinates
      match Area.pairs coordinates with
      | [] =>
        { f with
          issues := f.issues ++ [.missingCoordinates name]
          events := f.events ++ dropped ++
            [.warn "area without usable coordinates skipped" [("area", name)]] }
      | points => { f with areas := f.areas ++ [⟨name, points⟩], events := f.events ++ dropped }

def takeAll (f : Findings) (index : Nat) : List Placemark → Findings
  | [] => f
  | p :: ps => (f.take index p).takeAll (index + 1) ps

end Survey.Findings

namespace Placemark

/-- The areas that a list of placemarks yields, and the issues, each in document order. -/
def collect (ps : List Placemark) : Survey.Findings := Survey.Findings.initial.takeAll 0 ps

/-- The placemarks of a document. -/
def read (document : String) : Traced DocumentFault (List Placemark) := do
  let ps ← .ofExcept (ofStream (Markup.scan document))
  .emit (.debug "read placemarks" [("count", toString ps.length)])
  return ps

end Placemark
end Sortie
