import OverrideCheck.Files.Access

/-!
# `OverrideCheck.Files.Tree`: files as data

A file tree is a file system that is a value. A path is followed part
by part. Every part, also one that leads nowhere, has to be taken from
a directory, and two dots lead back to where the path came from. At the
root they lead to the root. Names and paths are of limited length, and
a path with a zero character in it is refused before it is followed.
-/

set_option autoImplicit false

namespace OverrideCheck

/-- A file with its bytes, or a directory with what is in it. -/
inductive FileTree where
  | file (bytes : ByteArray)
  | directory (entries : List (String × FileTree))

namespace FileTree

instance : Inhabited FileTree := ⟨.directory []⟩

/-- What a directory holds under a name. -/
def lookup (name : String) : List (String × FileTree) → Option FileTree
  | [] => none
  | (key, t) :: rest => if key = name then some t else lookup name rest

/-- The bytes that a name may have. -/
def maxName : Nat := 255

/-- The bytes that a path may have. -/
def maxPath : Nat := 4095

/-- Follow the parts of a path from a place, with the places that led
there, the nearest first. -/
def follow : List String → FileTree → List FileTree → Except ReadError FileTree
  | [], here, _ => .ok here
  | _ :: _, .file _, _ => .error .notDirectory
  | part :: parts, .directory entries, above =>
    if Path.isIdle part then follow parts (.directory entries) above
    else if part = ".." then
      match above with
      | [] => follow parts (.directory entries) []
      | up :: above => follow parts up above
    else if maxName < part.utf8ByteSize then .error .tooLong
    else match lookup part entries with
      | none => .error .notFound
      | some t => follow parts t (.directory entries :: above)

/-- What a path leads to. -/
def find (root : FileTree) (p : Path) : Except ReadError FileTree :=
  if p.hasZero then .error .invalidPath
  else if maxPath < p.text.utf8ByteSize then .error .tooLong
  else follow p.parts root []

/-- The text of a file. -/
def read (root : FileTree) (p : Path) : Except ReadError String :=
  match root.find p with
  | .error e => .error e
  | .ok (.directory _) => .error .isDirectory
  | .ok (.file bytes) => (String.fromUTF8? bytes).elim (.error .invalidText) .ok

/-- Whether a path leads to a file. -/
def isFile (root : FileTree) (p : Path) : Bool :=
  match root.find p with
  | .ok (.file _) => true
  | _ => false

/-- Whether a path leads to a directory. -/
def isDirectory (root : FileTree) (p : Path) : Bool :=
  match root.find p with
  | .ok (.directory _) => true
  | _ => false

mutual

/-- The files at a place and below it. The path names the place. -/
def filesAt (p : Path) : FileTree → List Path
  | .file _ => [p]
  | .directory entries => filesIn p entries

/-- The files in a directory and below it. -/
def filesIn (p : Path) : List (String × FileTree) → List Path
  | [] => []
  | (name, t) :: rest => filesAt (p.join ⟨name⟩) t ++ filesIn p rest

end

/-- The files below a directory. -/
def filesBelow (root : FileTree) (p : Path) : List Path :=
  match root.find p with
  | .ok t => filesAt p t
  | .error _ => []

/-- A file tree as a file system. -/
def access (root : FileTree) : FileAccess Id where
  read := root.read
  isFile := root.isFile
  isDirectory := root.isDirectory
  filesBelow := root.filesBelow

/-- Put something under a name of a directory, instead of what is
there. -/
def place (name : String) (t : FileTree) : List (String × FileTree) → List (String × FileTree)
  | [] => [(name, t)]
  | (key, old) :: rest =>
    if key = name then (key, t) :: rest else (key, old) :: place name t rest

/-- Put something at the end of a row of names, with the directories
on the way. An empty directory leaves alone a directory that is already
there. -/
def insert (t : FileTree) : List String → FileTree → FileTree
  | [], here =>
    match t, here with
    | .directory [], .directory entries => .directory entries
    | t, _ => t
  | name :: names, here =>
    let entries := match here with
      | .directory entries => entries
      | .file _ => []
    .directory (place name (insert t names ((lookup name entries).getD default)) entries)

end FileTree

end OverrideCheck
