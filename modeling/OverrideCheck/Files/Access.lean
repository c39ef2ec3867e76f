import OverrideCheck.Files.Path

/-!
# `OverrideCheck.Files.Access`: what is asked of a file system

The program reads files and looks into directories and does nothing
else with them. What it needs is gathered here, for any monad, so that
the same program runs on real files and on files that are data.
-/

set_option autoImplicit false

namespace OverrideCheck

/-- Why a file cannot be read. -/
inductive ReadError where
  | notFound
  | isDirectory
  | notDirectory
  /-- No file can have this path, because it has a zero character in
  it. -/
  | invalidPath
  /-- The path, or a name in it, is longer than a file system takes. -/
  | tooLong
  /-- The bytes of the file are no text. -/
  | invalidText
  /-- Any other reason, in the words of the system. -/
  | other (message : String)
  deriving DecidableEq, Repr, Inhabited

/-- The words for a reason. -/
def ReadError.message : ReadError → String
  | notFound => "No such file or directory (os error 2)"
  | isDirectory => "Is a directory (os error 21)"
  | notDirectory => "Not a directory (os error 20)"
  | invalidPath => "file name contained an unexpected NUL byte"
  | tooLong => "File name too long (os error 36)"
  | invalidText => "stream did not contain valid UTF-8"
  | other message => message

/-- A file system as the program uses it. -/
structure FileAccess (m : Type → Type) where
  read : Path → m (Except ReadError String)
  isFile : Path → m Bool
  isDirectory : Path → m Bool
  /-- The files anywhere below a directory, in any order. Their paths
  start with that of the directory as it was given. -/
  filesBelow : Path → m (List Path)

end OverrideCheck
