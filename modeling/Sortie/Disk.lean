import Sortie.Disk.Path
import Sortie.Text.Utf8

/-! A disk: folders and files under names, and the folder that relative paths start from. -/
namespace Sortie

/-- The content of a file: a text, or bytes that are none. -/
inductive Content where
  | text (s : String)
  | bytes (bs : List UInt8)
  deriving DecidableEq, Repr

namespace Content

def ofBytes (bs : List UInt8) : Content :=
  match Text.ofBytes? bs with
  | some s => text s
  | none => bytes bs

/-- The content for display. -/
def shown : Content → String
  | text s => s
  | bytes bs => Text.ofBytesLossy bs

end Content

/-- Why a file operation fails. -/
inductive DiskFault where
  | missing
  | notFolder
  | isFolder
  | occupied
  | notEmpty
  | busy
  | invalid
  | tooLong
  | containsNull
  | notText
  | blocked
  | other (description : String)
  deriving DecidableEq, Repr

def DiskFault.message : DiskFault → String
  | missing => "No such file or directory (os error 2)"
  | notFolder => "Not a directory (os error 20)"
  | isFolder => "Is a directory (os error 21)"
  | occupied => "File exists (os error 17)"
  | notEmpty => "Directory not empty (os error 39)"
  | busy => "Device or resource busy (os error 16)"
  | invalid => "Invalid argument (os error 22)"
  | tooLong => "File name too long (os error 36)"
  | containsNull => "file name contained an unexpected NUL byte"
  | notText => "stream did not contain valid UTF-8"
  | blocked => "in the way of generated output"
  | other description => description

/-- The names on the way from the root of a disk. -/
abbrev Place : Type := List String

inductive Disk.Item where
  | folder
  | file (content : Content)
  deriving DecidableEq, Repr

/-- What is present where, below the root, and the working folder. -/
structure Disk where
  entries : List (Place × Disk.Item)
  here : Place

namespace Disk

/-- A disk with an empty working folder. -/
def empty : Disk := ⟨[(["work"], .folder)], ["work"]⟩

instance : Inhabited Disk := ⟨empty⟩

/-- What is present at a place. The root is a folder. -/
def get? (d : Disk) (p : Place) : Option Item :=
  if p = [] then some .folder else d.entries.lookup p

/-- Takes away what is at the places that pass a test. -/
def eraseIf (d : Disk) (test : Place → Bool) : Disk :=
  { d with entries := d.entries.filter fun e => !test e.1 }

def put (d : Disk) (p : Place) (e : Item) : Disk :=
  { d with entries := (p, e) :: d.entries.filter fun e => e.1 ≠ p }

theorem lookup_filter {α : Type} (test : Place → Bool) (q : Place) (es : List (Place × α)) :
    (es.filter fun e => test e.1).lookup q = if test q then es.lookup q else none := by
  induction es with
  | nil => simp
  | cons e es ih =>
    obtain ⟨p, a⟩ := e
    by_cases hp : test p
    · rw [List.filter_cons_of_pos (by exact hp), List.lookup_cons, List.lookup_cons, ih]
      by_cases hq : q == p
      · rw [beq_iff_eq] at hq; subst hq; simp [hp]
      · simp [hq]
    · rw [List.filter_cons_of_neg (by exact hp), ih, List.lookup_cons]
      by_cases hq : q == p
      · rw [beq_iff_eq] at hq; subst hq; simp [hp]
      · simp [hq]

theorem get?_eraseIf (d : Disk) (test : Place → Bool) {q : Place} (hq : q ≠ []) :
    (d.eraseIf test).get? q = if test q then none else d.get? q := by
  simp only [get?, if_neg hq, eraseIf]
  rw [lookup_filter fun p => !test p]
  cases test q <;> rfl

theorem get?_put (d : Disk) (p : Place) (e : Item) {q : Place} (hq : q ≠ []) :
    (d.put p e).get? q = if q = p then some e else d.get? q := by
  simp only [get?, if_neg hq, put, List.lookup_cons]
  by_cases h : q = p
  · simp [h]
  · rw [lookup_filter fun r => decide (r ≠ p)]
    simp [h, beq_eq_false_iff_ne.2 h]

/-- A place that must be a folder. -/
def requireFolder (d : Disk) (p : Place) : Except DiskFault Unit :=
  match d.get? p with
  | none => .error .missing
  | some (.file _) => .error .notFolder
  | some .folder => .ok ()

/-- Goes from a folder to one of its names, to itself or to the folder around it. A name has at most
255 bytes. -/
def enter (d : Disk) (p : Place) (name : String) : Except DiskFault Place := do
  d.requireFolder p
  if 255 < name.utf8ByteSize then .error .tooLong
  else return if name = "." then p else if name = ".." then p.dropLast else p ++ [name]

/-- Where the names of a path are looked up from. A path has fewer than 4096 bytes. -/
def start (d : Disk) (p : Path) : Except DiskFault Place :=
  if p.containsNull then .error .containsNull
  else if p = "" then .error .missing
  else if 4096 ≤ p.utf8ByteSize then .error .tooLong
  else .ok (if p.isAbsolute then [] else d.here)

/-- The place that a path names, whether or not something is present there. The folders on the way
must be. -/
def resolve (d : Disk) (p : Path) : Except DiskFault Place := do
  p.pieces.foldlM d.enter (← d.start p)

/-- Finds the folder in which the last name of a path is looked up. -/
def resolveFolder (d : Disk) (p : Path) : Except DiskFault Unit := do
  d.requireFolder (← p.pieces.dropLast.foldlM d.enter (← d.start p))

/-- What is present at a path; only a folder is at a path that ends in a slash. -/
def look (d : Disk) (p : Path) : Except DiskFault Item := do
  match d.get? (← d.resolve p) with
  | none => .error .missing
  | some .folder => return .folder
  | some (.file c) => if p.endsInSlash then .error .notFolder else return .file c

def isPresent (d : Disk) (p : Path) : Bool := (d.look p).toBool

def isFolder (d : Disk) (p : Path) : Bool :=
  match d.look p with
  | .ok .folder => true
  | _ => false

/-- The text of a file. -/
def read (d : Disk) (p : Path) : Except DiskFault String := do
  match ← d.look p with
  | .folder => .error .isFolder
  | .file (.text s) => return s
  | .file (.bytes _) => .error .notText

def makeFolder (d : Disk) (p : Path) : Except DiskFault Disk := do
  let place ← d.resolve p
  if (d.get? place).isSome then .error .occupied else return d.put place .folder

/-- Writes a file, new or in place of an old one, unless the path can only name a folder. -/
def write (d : Disk) (p : Path) (text : String) : Except DiskFault Disk := do
  d.resolveFolder p
  if p.endsInSlash || p.lastName?.isNone then .error .isFolder
  else
    let place ← d.resolve p
    match d.get? place with
    | some .folder => .error .isFolder
    | _ => return d.put place (.file (.text text))

/-- Whether a place lies properly below another. -/
def isBelow (outer p : Place) : Bool := outer.isPrefixOf p && outer.length < p.length

/-- Puts what is at a place, with everything below it, at another in place of what is there. -/
def relocate (d : Disk) (source target : Place) : Disk :=
  let rest := d.eraseIf (· == target)
  { rest with entries := rest.entries.map fun e =>
      if source.isPrefixOf e.1 then (target ++ e.1.drop source.length, e.2) else e }

/-- Moves what is at one place to another. A file replaces only a file, and a folder only an empty
folder; nothing moves into itself or onto a folder around it. -/
def moveTo (d : Disk) (item : Item) (source target : Place) : Except DiskFault Disk :=
  if isBelow source target then .error .invalid
  else if isBelow target source then .error .notEmpty
  else if source = target then .ok d
  else match item, d.get? target with
    | .file _, some .folder => .error .isFolder
    | .folder, some (.file _) => .error .notFolder
    | .folder, some .folder =>
      if d.entries.any fun e => isBelow target e.1 then .error .notEmpty
      else .ok (d.relocate source target)
    | _, _ => .ok (d.relocate source target)

/-- Moves a file or folder. A path that ends in dots cannot be moved from or to, and a file neither
from nor to a path that ends in a slash. -/
def move (d : Disk) (p q : Path) : Except DiskFault Disk := do
  [p, q].forM fun r => discard (d.start r)
  [p, q].forM d.resolveFolder
  if p.lastName?.isNone || q.lastName?.isNone then .error .busy
  else
    let source ← d.resolve p
    match d.get? source with
    | none => .error .missing
    | some item =>
      let target ← d.resolve q
      if item ≠ .folder && (p.endsInSlash || q.endsInSlash) then .error .notFolder
      else d.moveTo item source target

/-- Removes a folder with everything below it. The folder itself stays if the path ends in dots. -/
def removeAll (d : Disk) (p : Path) : Disk :=
  if d.isFolder p then
    match d.resolve p with
    | .ok place => d.eraseIf fun q => isBelow place q || (q == place && p.lastName?.isSome)
    | .error _ => d
  else d

/-- A name that is new in a folder: it ends in stars, as many as it takes. -/
def freshName (d : Disk) (folder : Path) (stem : String) : String :=
  let candidates := (List.range (d.entries.length + 1)).map fun n =>
    stem ++ String.ofList (List.replicate (n + 1) '*')
  (candidates.find? fun n => !d.isPresent (folder.join n)).getD stem

/-- Puts an entry at a path, with the folders around it. -/
def install (d : Disk) (p : Path) (e : Item) : Disk :=
  let folders := (p.parents.filter (· ≠ "")).reverse
  let d := folders.foldl (fun d f => (d.makeFolder f).toOption.getD d) d
  match d.resolve p with
  | .ok place =>
    match e with
    | .folder => if (d.get? place).isSome then d else d.put place .folder
    | .file _ => d.put place e
  | .error _ => d

/-- Everything below a path, under the path continued by its names. -/
def below (d : Disk) (p : Path) : List (Path × Item) :=
  match if p = "" then .ok d.here else d.resolve p with
  | .error _ => []
  | .ok place => (d.entries.filter fun e => isBelow place e.1).map fun e =>
      (p.join ("/".intercalate (e.1.drop place.length)), e.2)

end Disk
end Sortie
