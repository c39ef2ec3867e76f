import OverrideCheck.Command.Session

/-!
# `OverrideCheck.Main`: the program

Runs a session on the files of the system and prints what it leaves
behind.
-/

set_option autoImplicit false

namespace OverrideCheck.Main

/-- Why the system did not give out a file. -/
def readError : IO.Error → ReadError
  | .noFileOrDirectory .. => .notFound
  | .inappropriateType .. => .notDirectory
  | e => .other e.toString

/-- Read a text file. -/
def read (path : Path) : IO (Except ReadError String) := do
  if path.hasZero then return .error .invalidPath
  let file := (← IO.currentDir) / path.text
  if ← file.isDir then return .error .isDirectory
  try
    let bytes ← IO.FS.readBinFile file
    return (String.fromUTF8? bytes).elim (.error .invalidText) .ok
  catch e => return .error (readError e)

/-- Whether a path leads to a directory. -/
def isDirectory (path : Path) : IO Bool := do ((← IO.currentDir) / path.text).isDir

/-- Whether a path leads to a file. -/
def isFile (path : Path) : IO Bool := do
  let file := (← IO.currentDir) / path.text
  return (← file.pathExists) && !(← file.isDir)

/-- The files below a directory. -/
partial def filesBelow (path : Path) : IO (List Path) := do
  let mut found := []
  for entry in ← ((← IO.currentDir) / path.text).readDir do
    let inner := path.join ⟨entry.fileName⟩
    if ← isDirectory inner then found := found ++ (← filesBelow inner)
    else found := found ++ [inner]
  return found

/-- The files of the system. -/
def files : FileAccess IO := { read, isFile, isDirectory, filesBelow }

/-- What the program finds itself in. -/
def surroundings : IO Surroundings := do
  return {
    cwd := ⟨(← IO.currentDir).toString⟩
    forceColor := ← IO.getEnv "CLICOLOR_FORCE"
    noColor := ← IO.getEnv "NO_COLOR"
    color := ← IO.getEnv "CLICOLOR"
    isTerminal := ← (← IO.getStdout).isTty }

end OverrideCheck.Main

open OverrideCheck in
/-- Run a session on the command line. -/
def main (line : List String) : IO UInt32 := do
  let outcome ← Session.run Main.files (← Main.surroundings) line
  IO.print outcome.output
  IO.eprint outcome.errors
  return outcome.exitCode.toUInt32
