import Sortie.Command

/-! The command line on a real disk. -/
namespace Sortie

/-- Whether an error has a number, which is reported with either sign. -/
def hasNumber (code n : UInt32) : Bool := code == n || code == 0 - n

/-- The fault that an error of the operating system stands for. -/
def DiskFault.ofError : IO.Error → DiskFault
  | .noFileOrDirectory .. => .missing
  | .alreadyExists .. => .occupied
  | .inappropriateType _ code details =>
    if hasNumber code 20 then .notFolder
    else if hasNumber code 21 then .isFolder
    else .other details
  | .unsatisfiedConstraints code details =>
    if hasNumber code 39 then .notEmpty else .other details
  | .resourceBusy code details => if hasNumber code 16 then .busy else .other details
  | .invalidArgument _ code details =>
    if hasNumber code 22 then .invalid
    else if hasNumber code 36 then .tooLong
    else .other details
  | e => .other (toString e)

/-- An operation on files at some paths, with its fault as a value. -/
def attemptFiles {α : Type} (paths : List Path) (x : IO α) : IO (Except DiskFault α) := do
  if paths.any Path.containsNull then return .error .containsNull
  try
    return .ok (← x)
  catch e => return .error (.ofError e)

/-- The answer to a question about files, which is no where the operation fails. -/
def askFiles (p : Path) (x : IO Bool) : IO Bool := do
  return match ← attemptFiles [p] x with
    | .ok answer => answer
    | .error _ => false

instance : Files IO where
  read p := do
    match ← attemptFiles [p] (IO.FS.readBinFile p) with
    | .error e => return .error e
    | .ok bytes =>
      match Content.ofBytes bytes.toList with
      | .text s => return .ok s
      | .bytes _ => return .error .notText
  isPresent p := askFiles p do
    let _ ← IO.FS.realPath p
    return true
  isFolder p := askFiles p do (← IO.FS.realPath p).isDir
  makeFolder p := attemptFiles [p] (IO.FS.createDir p)
  write p text := attemptFiles [p] (IO.FS.writeFile p text)
  move p q := attemptFiles [p, q] (IO.FS.rename p q)
  removeAll p := do
    let _ ← attemptFiles [p] (IO.FS.removeDirAll p)
  freshName _ stem := do
    return stem ++ toString (← IO.rand 100000000 999999999)

/-- An event as a line of text. -/
def Event.line (e : Event) : String :=
  " ".intercalate (e.level.label :: e.message :: e.fields.map fun f => f.1 ++ "=" ++ f.2)

end Sortie

def main (args : List String) : IO UInt32 := do
  let (outcome, events) ← Sortie.Command.execute args (← IO.getEnv "HOME")
  for e in events do
    IO.eprintln e.line
  IO.print outcome.printed
  if let some line := outcome.error then
    IO.eprintln line
  return UInt32.ofNat outcome.status
