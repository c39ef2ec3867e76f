import OverrideCheck.Command.Arguments
import OverrideCheck.Command.Failure
import OverrideCheck.Json.Record
import OverrideCheck.Policy
import OverrideCheck.Text.Blank

/-!
# `OverrideCheck.Command.Project`: project files and options

A project file names the assembly to check, its dependencies and the
policy. All of that can also be said on the command line, and there it
wins; dependencies of both are taken together, those of the file first.
Relative paths in a file are seen from the directory of the file.
-/

set_option autoImplicit false

namespace OverrideCheck

open Json (Decoder Layout)

/-- The contents of a project file. -/
structure Project where
  assembly : Option Path := none
  dependencies : List Path := []
  dependencyDirs : List Path := []
  allowInterfaceCovariance : Option Bool := none
  deriving DecidableEq, Repr, Inhabited

namespace Project

/-- The words that stand for truth values. -/
def ofWord? (word : String) : Option Bool :=
  let word := Text.word word
  if word ∈ ["true", "1", "yes", "on"] then some true
  else if word ∈ ["false", "0", "no", "off"] then some false
  else none

/-- A truth value, also as a word, or nothing. It is read ahead, because
it can be of more than one kind. -/
def looseBoolean : Decoder (Option Bool)
  | _, .null => .ok none
  | ctx, o => do
    if !ctx.ahead then Json.lift (o.settle ctx.room)
    match o with
    | .bool b => return some b
    | .str (some word) =>
      match ofWord? word with
      | some b => return some b
      | none => .error (.mismatch (.notBoolean word))
    | _ => .error (.mismatch .neitherBooleanNorString)

/-- The layout of the policy of a project file, whose draft is its only
entry. -/
def policy : Layout (Option (Option Bool)) (Option Bool) where
  name := "PolicyConfig"
  fields := [.of "allowInterfaceCovariance" looseBoolean id fun _ v => some v]
  start := none
  complete _ s := .ok s.join

/-- A path. -/
def path : Decoder Path := fun ctx o => (Json.path ctx o).map Path.mk

/-- A project file while it is read. Null is a value of `assembly`. -/
structure Draft where
  assembly : Option (Option Path) := none
  dependencies : Option (List Path) := none
  dependencyDirs : Option (List Path) := none
  policy : Option (Option Bool) := none

/-- The layout of a project file. -/
def layout : Layout Draft Project where
  name := "ProjectConfig"
  fields :=
    [.of "assembly" (Json.optional path) (·.assembly) fun s v => { s with assembly := some v },
      .of "dependencies" (Json.list path) (·.dependencies)
        fun s v => { s with dependencies := some v },
      .of "dependencyDirs" (Json.list path) (·.dependencyDirs)
        fun s v => { s with dependencyDirs := some v },
      .of "policy" policy.decoder (·.policy) fun s v => { s with policy := some v }]
  start := {}
  complete _ s := .ok {
    assembly := s.assembly.join
    dependencies := s.dependencies.getD []
    dependencyDirs := s.dependencyDirs.getD []
    allowInterfaceCovariance := s.policy.join }

/-- Read the text of a project file. -/
def parse (text : String) : Except Json.Fault Project := Json.decode layout.decoder text

/-- The project with its paths seen from a directory. -/
def rebase (p : Project) (base : Path) : Project :=
  { p with
    assembly := p.assembly.map base.join
    dependencies := p.dependencies.map base.join
    dependencyDirs := p.dependencyDirs.map base.join }

/-- Load a project file. -/
def load {m : Type → Type} [Monad m] (files : FileAccess m) (path : Path) :
    ExceptT Failure m Project := do
  match ← files.read path with
  | .error e => throw (.projectUnreadable path e)
  | .ok text =>
    match parse text with
    | .error fault => throw (.projectFaulty path fault)
    | .ok project => return project.rebase (path.parent?.getD ⟨"."⟩)

/-- The project of a run. A project that is named has to be there. If
none is named, and no assembly either, the file in the working
directory counts if there is one. -/
def find {m : Type → Type} [Monad m] (files : FileAccess m) (cwd : Path) (args : Arguments) :
    ExceptT Failure m Project := do
  match args.project with
  | some project =>
    let project := cwd.join project
    let path := if ← files.isDirectory project then project.join ⟨projectFileName⟩ else project
    if !(← files.isFile path) then throw (.projectNotFound path)
    load files path
  | none =>
    let path := cwd.join ⟨projectFileName⟩
    if args.assembly.isNone && (← files.isFile path) then load files path else return {}

end Project

/-- What a run works on. -/
structure Options where
  assembly : Option Path := none
  dependencies : List Path := []
  dependencyDirs : List Path := []
  policy : Policy
  deriving DecidableEq, Repr, Inhabited

namespace Options

/-- The options of a project and a command line, whose relative paths
are seen from the working directory. -/
def merge (cwd : Path) (project : Project) (args : Arguments) : Options where
  assembly := args.assembly.map cwd.join <|> project.assembly
  dependencies := project.dependencies ++ args.dependencies.map cwd.join
  dependencyDirs := project.dependencyDirs ++ args.dependencyDirs.map cwd.join
  policy :=
    { allowInterfaceCovariance :=
        (args.allowInterfaceCovariance <|> project.allowInterfaceCovariance).getD false }

/-- The options of a run. -/
def resolve {m : Type → Type} [Monad m] (files : FileAccess m) (cwd : Path) (args : Arguments) :
    ExceptT Failure m Options := do
  return merge cwd (← Project.find files cwd args) args

end Options

end OverrideCheck
