import Sortie.Disk
import Sortie.Log

/-! Work on files. What a job does is said over any way of reaching files, so that the same work runs
on a disk held as a value and on a real one. -/
namespace Sortie

/-- The file operations that jobs use. -/
class Files (m : Type → Type) where
  read : Path → m (Except DiskFault String)
  isPresent : Path → m Bool
  isFolder : Path → m Bool
  makeFolder : Path → m (Except DiskFault Unit)
  write : Path → String → m (Except DiskFault Unit)
  move : Path → Path → m (Except DiskFault Unit)
  removeAll : Path → m Unit
  freshName : Path → String → m String

/-- Carries out a change of the disk, if it succeeds. -/
def Disk.change (f : Disk → Except DiskFault Disk) : StateM Disk (Except DiskFault Unit) := fun d =>
  match f d with
  | .ok d => (.ok (), d)
  | .error e => (.error e, d)

instance : Files (StateM Disk) where
  read p := fun d => (d.read p, d)
  isPresent p := fun d => (d.isPresent p, d)
  isFolder p := fun d => (d.isFolder p, d)
  makeFolder p := Disk.change fun d => d.makeFolder p
  write p text := Disk.change fun d => d.write p text
  move p q := Disk.change fun d => d.move p q
  removeAll p := fun d => ((), d.removeAll p)
  freshName p stem := fun d => (d.freshName p stem, d)

/-- Work in a monad that reports events and may fail; what was reported and done before a failure
stays. -/
structure Job (m : Type → Type) (ε α : Type) where
  run : m (Traced ε α)

namespace Job
variable {m : Type → Type} [Monad m] {ε α β : Type}

protected def pure (a : α) : Job m ε α := ⟨Pure.pure (Traced.pure a)⟩

protected def bind (x : Job m ε α) (f : α → Job m ε β) : Job m ε β :=
  ⟨do
    let t ← x.run
    match t.result with
    | .error e => return ⟨t.events, .error e⟩
    | .ok a =>
      let u ← (f a).run
      return ⟨t.events ++ u.events, u.result⟩⟩

instance : Monad (Job m ε) where
  pure := Job.pure
  bind := Job.bind

def lift (x : m α) : Job m ε α := ⟨do return Traced.pure (← x)⟩

def ofTraced (t : Traced ε α) : Job m ε α := ⟨Pure.pure t⟩

def fail (e : ε) : Job m ε α := ofTraced (.fail e)

def emit (e : Event) : Job m ε Unit := ofTraced (.emit e)

/-- A file operation whose fault becomes a failure. -/
def attempt (onFault : DiskFault → ε) (x : m (Except DiskFault α)) : Job m ε α :=
  ⟨do return .ofExcept ((← x).mapError onFault)⟩

theorem run_bind (x : Job m ε α) (f : α → Job m ε β) :
    (x >>= f).run = (do
      let t ← x.run
      match t.result with
      | .error e => return ⟨t.events, .error e⟩
      | .ok a =>
        let u ← (f a).run
        return ⟨t.events ++ u.events, u.result⟩) := rfl

/-- Cleans up after a failure. -/
def onFailure (x : Job m ε α) (cleanup : m Unit) : Job m ε α :=
  ⟨do
    let t ← x.run
    match t.result with
    | .error e =>
      cleanup
      return ⟨t.events, .error e⟩
    | .ok a => return ⟨t.events, .ok a⟩⟩

/-- Cleans up in any case. -/
def andFinally (x : Job m ε α) (cleanup : m Unit) : Job m ε α :=
  ⟨do
    let t ← x.run
    cleanup
    return t⟩

end Job

namespace Files
variable {m : Type → Type} [Monad m] [Files m]

/-- A folder that could not be made will do if it is there already. -/
def accept (p : Path) (made : Except DiskFault Unit) : m (Except DiskFault Unit) := do
  match made with
  | .ok _ => return .ok ()
  | .error e => if ← isFolder p then return .ok () else return .error e

/-- Makes a folder, given the folders around it, innermost first: where one is missing, the next is
made before it. -/
def makeFoldersFrom (p : Path) : List Path → m (Except DiskFault Unit)
  | [] => do
    if p = "" then return .ok ()
    match ← makeFolder p with
    | .error .missing => return .error .missing
    | made => accept p made
  | q :: outer => do
    if p = "" then return .ok ()
    match ← makeFolder p with
    | .error .missing =>
      match ← makeFoldersFrom q outer with
      | .error e => return .error e
      | .ok _ => accept p (← makeFolder p)
    | made => accept p made

/-- Makes a folder and the folders around it, as far as they are missing. -/
def makeFolders (p : Path) : m (Except DiskFault Unit) := makeFoldersFrom p p.parents

end Files
end Sortie
