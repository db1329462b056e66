import BoardSchema.Command.Run
/-!
The command over the file system.
-/
namespace BoardSchema

/-- The cause of a failure of the system. -/
def FileError.ofSystem : IO.Error → FileError
  | .noFileOrDirectory .. => .notFound
  | .noSuchThing .. => .notFound
  | .alreadyExists .. => .alreadyExists
  | .inappropriateType .. => .notADirectory
  | .unsupportedOperation .. => .isADirectory
  | .invalidArgument _ 36 _ => .nameTooLong
  | error => .other (toString error)

def answering {α : Type} (action : IO α) : IO (Except FileError α) := do
  try
    return .ok (← action)
  catch error =>
    return .error (.ofSystem error)

def readSystemText (path : String) : IO (Except FileError String) := do
  match ← answering (IO.FS.readBinFile path) with
  | .error cause => return .error cause
  | .ok bytes =>
    match String.fromUTF8? bytes with
    | some text => return .ok text
    | none => return .error .invalidText

/-- What is there under a path followed by a dot is a directory. -/
def makeSystemDirectory (path : String) : IO (Except FileError Unit) := do
  match ← answering (IO.FS.createDir path) with
  | .error .alreadyExists =>
    match ← answering (IO.FS.realPath (path ++ "/.")) with
    | .ok _ => return .ok ()
    | .error _ => return .error .alreadyExists
  | answer => return answer

/-- Asks on the terminal, if there is one. -/
def askTerminal (question : String) : IO (Option Bool) := do
  let stdin ← IO.getStdin
  if ← stdin.isTty then
    IO.eprint (question ++ " [y/N] ")
    let answer ← stdin.getLine
    return some (answer.toList.head? = some 'y' || answer.toList.head? = some 'Y')
  else return none

def FileProgram.perform {α : Type} : FileProgram α → IO α
  | done result => return result
  | readText path next => do perform (next (← readSystemText path))
  | contains path next => do
    let found ← answering (IO.FS.realPath path)
    perform (next (match found with
      | .ok _ => true
      | .error _ => false))
  | makeDirectory path next => do perform (next (← makeSystemDirectory path))
  | writeText path text next => do
    let written ← answering (IO.FS.writeFile path text)
    perform (next written)
  | confirm question next => do perform (next (← askTerminal question))

end BoardSchema

def main (arguments : List String) : IO UInt32 := do
  let outcome ← (BoardSchema.Command.run arguments).perform
  IO.print outcome.stdout
  IO.eprint outcome.stderr
  return UInt32.ofNat outcome.exitCode
