/-!
# `OverrideCheck.Files.Path`: names of files

A path is kept as it is written. Joining puts texts together and
resolves nothing, so a message shows a path the way the user gave it.
Two paths are the same if they have the same components: repeated
slashes and single dots do not count, while two dots do, because where
they lead is known only to the file system.
-/

set_option autoImplicit false

namespace OverrideCheck

/-- The name of a file or directory, as it is written. -/
structure Path where
  text : String
  deriving DecidableEq, Repr, Inhabited

namespace Path

/-- A part of a path, in the order in which parts are sorted. -/
inductive Component where
  | root
  /-- A dot at the start of a path. -/
  | current
  | parent
  | name (text : String)
  deriving DecidableEq, Repr, Inhabited

/-- Split at slashes. -/
def splitChars : List Char → List (List Char)
  | [] => [[]]
  | '/' :: rest => [] :: splitChars rest
  | c :: rest =>
    match splitChars rest with
    | [] => [[c]]
    | part :: parts => (c :: part) :: parts

/-- What stands between the slashes. -/
def parts (p : Path) : List String := (splitChars p.text.toList).map String.ofList

/-- Whether the path starts at the root. -/
def isAbsolute (p : Path) : Bool := p.text.toList.head? = some '/'

/-- Whether a zero character stands in the path. No file has such a
path. -/
def hasZero (p : Path) : Bool := p.text.toList.contains '\x00'

/-- Whether a part leads nowhere. -/
def isIdle (part : String) : Bool := part = "" || part = "."

/-- The component of a part that leads somewhere. -/
def Component.ofPart (part : String) : Component := if part = ".." then .parent else .name part

/-- The components of a path. -/
def components (p : Path) : List Component :=
  let start : List Component :=
    if p.isAbsolute then [.root]
    else if p.parts.head? = some "." then [.current]
    else []
  start ++ (p.parts.filter (!isIdle ·)).map .ofPart

/-- Whether two paths are the same. -/
def same (p q : Path) : Bool := p.components = q.components

/-- The place of a component among others. -/
def Component.rank : Component → Nat
  | root => 0
  | current => 1
  | parent => 2
  | name _ => 3

/-- Whether a component comes before another. -/
def Component.before : Component → Component → Bool
  | name a, name b => a < b
  | a, b => a.rank < b.rank

/-- Whether components come before others or are the same. -/
def componentsLe : List Component → List Component → Bool
  | [], _ => true
  | _ :: _, [] => false
  | a :: as, b :: bs => if a = b then componentsLe as bs else a.before b

/-- The order in which paths are listed. -/
def le (p q : Path) : Bool := componentsLe p.components q.components

/-- A path seen from another one. An absolute path stays as it is. -/
def join (base p : Path) : Path :=
  if p.isAbsolute then p
  else if base.text.isEmpty || base.text.toList.getLast? = some '/' then ⟨base.text ++ p.text⟩
  else ⟨base.text ++ "/" ++ p.text⟩

/-- The directory of a path: what is left of it without its last
component, and without parts that lead nowhere at its end. -/
def parent? (p : Path) : Option Path :=
  match p.components.getLast? with
  | none | some .root => none
  | some .current => some ⟨""⟩
  | _ =>
    -- The first part is the root, or a component of its own.
    let (first, rest) := match p.parts with
      | [] => ([], [])
      | part :: parts =>
        if p.isAbsolute || part = "." then ([part], parts) else ([], part :: parts)
    let rest := (rest.reverse.dropWhile isIdle).drop 1
    let kept := first ++ (rest.dropWhile isIdle).reverse
    if kept = [""] then some ⟨"/"⟩ else some ⟨"/".intercalate kept⟩

/-- The name of the file at the end of the path. -/
def fileName? (p : Path) : Option String :=
  match p.components.getLast? with
  | some (.name text) => some text
  | _ => none

/-- The extension of a file name: what follows its last dot, unless
that dot is its first character. -/
def extensionOf? (name : String) : Option String :=
  let cs := name.toList.reverse
  match cs.dropWhile (· ≠ '.') with
  | _ :: _ :: _ => some (String.ofList (cs.takeWhile (· ≠ '.')).reverse)
  | _ => none

/-- The extension of the file at the end of the path. -/
def extension? (p : Path) : Option String := p.fileName?.bind extensionOf?

end Path

end OverrideCheck
