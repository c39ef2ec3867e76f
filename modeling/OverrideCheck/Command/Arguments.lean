import OverrideCheck.Files.Path

/-!
# `OverrideCheck.Command.Arguments`: the command line

An option is written with its long name or, if it has one, its letter.
Its value follows as the next argument, or is attached: after an equals
sign, or directly behind the letter.

A value that follows is judged late. It waits until the next option, or
the end of the line, asks for the option to be complete, and an
argument that the program does not know is reported before a value that
waits. An attached value is judged at once, and so is everything that
waits before it.
-/

set_option autoImplicit false

namespace OverrideCheck

/-- How results are written. -/
inductive OutputFormat where
  | text
  | json
  deriving DecidableEq, Repr, Inhabited

/-- Why a command line is not run. The last two are requests. -/
inductive UsageError where
  | unknownArgument
  | invalidValue
  | argumentConflict
  | tooManyValues
  | missingRequiredArgument
  | displayHelp
  | displayVersion
  deriving DecidableEq, Repr, Inhabited

/-- What a command line asks for. -/
structure Arguments where
  /-- The project file, or the directory that holds it. -/
  project : Option Path := none
  assembly : Option Path := none
  dependencies : List Path := []
  dependencyDirs : List Path := []
  allowInterfaceCovariance : Option Bool := none
  format : Option OutputFormat := none
  /-- Whether text is painted. -/
  pretty : Option Bool := none
  /-- The overriding type of a question. -/
  sub : Option String := none
  /-- The overridden type of a question. -/
  sup : Option String := none
  deriving DecidableEq, Repr, Inhabited

/-- The two types of a question, if one is asked. -/
def Arguments.query? (a : Arguments) : Option (String × String) :=
  match a.sub, a.sup with
  | some sub, some sup => some (sub, sup)
  | _, _ => none

namespace Arguments

/-- The options that take a value. -/
inductive Key where
  | project
  | assembly
  | dependency
  | dependencyDir
  | allowInterfaceCovariance
  | format
  | pretty
  | sub
  | sup
  deriving DecidableEq, Repr, Inhabited

namespace Key

/-- The long name. -/
def long : Key → String
  | project => "project"
  | assembly => "assembly"
  | dependency => "dep"
  | dependencyDir => "deps-dir"
  | allowInterfaceCovariance => "allow-interface-covariance"
  | format => "format"
  | pretty => "pretty"
  | sub => "sub"
  | sup => "super"

/-- The letter. -/
def letter? : Key → Option Char
  | project => some 'p'
  | assembly => some 'a'
  | dependency => some 'd'
  | _ => none

/-- Every option. -/
def all : List Key :=
  [project, assembly, dependency, dependencyDir, allowInterfaceCovariance, format, pretty, sub, sup]

/-- The value of an option that is given without one. Such an option
never takes the next argument for its value. -/
def bareValue? : Key → Option String
  | allowInterfaceCovariance => some "true"
  | _ => none

end Key

/-- One argument, taken by itself. -/
inductive Word where
  | option (key : Key) (attached : Option String)
  /-- A request, perhaps with a value that it cannot have. -/
  | request (what : UsageError) (attached : Bool)
  /-- It starts like an option and is none. -/
  | unknown
  /-- Only plain arguments follow. -/
  | escape
  | plain (text : String)
  deriving DecidableEq, Repr, Inhabited

namespace Word

/-- The name and the attached value of a long option. -/
def splitLong (cs : List Char) : String × Option String :=
  let name := String.ofList (cs.takeWhile (· ≠ '='))
  match cs.dropWhile (· ≠ '=') with
  | [] => (name, none)
  | _ :: value => (name, some (String.ofList value))

/-- A long option, from behind its two dashes. -/
def ofLong (cs : List Char) : Word :=
  let (name, value) := splitLong cs
  match Key.all.find? (·.long = name) with
  | some key => option key value
  | none =>
    if name = "help" then request .displayHelp value.isSome
    else if name = "version" then request .displayVersion value.isSome
    else unknown

/-- The value behind a letter. An equals sign does not belong to it. -/
def behindLetter : List Char → Option String
  | [] => none
  | '=' :: value => some (String.ofList value)
  | value => some (String.ofList value)

/-- An option by its letter. -/
def ofLetter (c : Char) (rest : List Char) : Word :=
  match Key.all.find? (·.letter? = some c) with
  | some key => option key (behindLetter rest)
  | none =>
    if c = 'h' then request .displayHelp false
    else if c = 'V' then request .displayVersion false
    else unknown

/-- What an argument is by itself. A dash alone is plain. -/
def ofText (text : String) : Word :=
  match text.toList with
  | ['-', '-'] => escape
  | '-' :: '-' :: cs => ofLong cs
  | '-' :: c :: rest => ofLetter c rest
  | _ => plain text

end Word

/-- A path is not empty. -/
def readPath (value : String) : Except UsageError Path :=
  if value.isEmpty then .error .invalidValue else .ok ⟨value⟩

/-- A truth value. -/
def readBool (value : String) : Except UsageError Bool :=
  match value with
  | "true" => .ok true
  | "false" => .ok false
  | _ => .error .invalidValue

/-- The name of a format. -/
def readFormat (value : String) : Except UsageError OutputFormat :=
  match value with
  | "text" => .ok .text
  | "json" => .ok .json
  | _ => .error .invalidValue

/-- An option that may be given once. -/
def once {α : Type} (old : Option α) (value : Except UsageError α) :
    Except UsageError (Option α) :=
  if old.isSome then .error .argumentConflict else value.map some

/-- Complete an option. -/
def record (a : Arguments) (key : Key) (value : String) : Except UsageError Arguments :=
  match key with
  | .project => do return { a with project := ← once a.project (readPath value) }
  | .assembly => do return { a with assembly := ← once a.assembly (readPath value) }
  | .dependency => do return { a with dependencies := a.dependencies ++ [← readPath value] }
  | .dependencyDir => do
    return { a with dependencyDirs := a.dependencyDirs ++ [← readPath value] }
  | .allowInterfaceCovariance => do
    return { a with
      allowInterfaceCovariance := ← once a.allowInterfaceCovariance (readBool value) }
  | .format => do return { a with format := ← once a.format (readFormat value) }
  | .pretty => do return { a with pretty := ← once a.pretty (readBool value) }
  | .sub => do return { a with sub := ← once a.sub (.ok value) }
  | .sup => do return { a with sup := ← once a.sup (.ok value) }

/-- A command line that is read up to some argument. -/
structure Progress where
  complete : Arguments := {}
  /-- The option that waits, perhaps with its value. -/
  waiting : Option (Key × Option String) := none
  /-- Only plain arguments follow. -/
  escaped : Bool := false
  deriving DecidableEq, Repr, Inhabited

namespace Progress

/-- Complete the option that waits. -/
def settle (s : Progress) : Except UsageError Arguments :=
  match s.waiting with
  | none => .ok s.complete
  | some (_, none) => .error .invalidValue
  | some (key, some value) => s.complete.record key value

/-- Take an option. -/
def takeOption (s : Progress) (key : Key) (attached : Option String) :
    Except UsageError Progress := do
  let complete ← s.settle
  match attached <|> key.bareValue? with
  | some value => return { s with complete := ← complete.record key value, waiting := none }
  | none => return { s with complete, waiting := some (key, none) }

/-- Take one argument. No plain argument stands alone: it is the value
that an option waits for, or unknown. -/
def take (s : Progress) (word : Word) : Except UsageError Progress :=
  match word with
  | .option key attached => s.takeOption key attached
  | .request what false => do
    let _ ← s.settle
    .error what
  | .request _ true => .error .tooManyValues
  | .unknown => .error .unknownArgument
  | .escape => .ok { s with escaped := true }
  | .plain text =>
    match s.waiting with
    | some (key, none) => .ok { s with waiting := some (key, some text) }
    | _ => .error .unknownArgument

/-- Take the arguments one after the other. -/
def takeAll : List String → Progress → Except UsageError Progress
  | [], s => .ok s
  | text :: rest, s =>
    if s.escaped then .error .unknownArgument
    else do takeAll rest (← s.take (.ofText text))

/-- At the end of the line every option is complete, and the two types
of a question are given together. -/
def finish (s : Progress) : Except UsageError Arguments := do
  let a ← s.settle
  if a.sub.isSome = a.sup.isSome then return a else .error .missingRequiredArgument

end Progress

/-- Read a command line. -/
def parse (line : List String) : Except UsageError Arguments := do
  (← Progress.takeAll line {}).finish

end Arguments

end OverrideCheck
