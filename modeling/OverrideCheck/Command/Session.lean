import OverrideCheck.Command.Project
import OverrideCheck.Interchange.Assembly
import OverrideCheck.Interchange.Report

/-!
# `OverrideCheck.Command.Session`: a run of the program

A run reads the command line and the project file, loads the assemblies
that they name, and then audits the assembly or answers a question. The
first thing that cannot be done ends it.

Of several dependencies with one name only the first is kept.
-/

set_option autoImplicit false

namespace OverrideCheck

namespace Session

variable {m : Type → Type} [Monad m]

/-- Load an assembly. -/
def loadAssembly (files : FileAccess m) (path : Path) : ExceptT Failure m Assembly := do
  match ← files.read path with
  | .error e => throw (.assemblyUnreadable path e)
  | .ok text =>
    match Interchange.parseAssembly text with
    | .error fault => throw (.assemblyFaulty path fault)
    | .ok a => return a

/-- Whether a file in a directory of dependencies is one. -/
def isDependency (exclude : List Path) (path : Path) : Bool :=
  path.extension? = some "json" && path.fileName? ≠ some projectFileName
    && !exclude.any path.same

/-- The dependencies in a directory, in the order of their paths. -/
def dependenciesIn (files : FileAccess m) (exclude : List Path) (dir : Path) :
    ExceptT Failure m (List Path) := do
  if !(← files.isDirectory dir) then throw (.directoryNotFound dir)
  let found ← files.filesBelow dir
  return (found.filter (isDependency exclude)).mergeSort Path.le

/-- The dependencies in directories, one directory after the other. -/
def collectDependencies (files : FileAccess m) (exclude : List Path) :
    List Path → ExceptT Failure m (List Path)
  | [] => return []
  | dir :: dirs => do
    let found ← dependenciesIn files exclude dir
    return found ++ (← collectDependencies files exclude dirs)

/-- Load dependencies behind others. -/
def loadAll (files : FileAccess m) : List Path → Dependencies → ExceptT Failure m Dependencies
  | [], deps => return deps
  | path :: paths, deps => do
    let a ← loadAssembly files path
    loadAll files paths (if (deps.find? a.name).isSome then deps else deps ++ [a])

/-- Load the dependencies of a run: those that are named, then those in
directories. The assembly itself is none of the latter. -/
def loadDependencies (files : FileAccess m) (options : Options) :
    ExceptT Failure m Dependencies := do
  let found ← collectDependencies files options.assembly.toList options.dependencyDirs
  loadAll files (options.dependencies ++ found) []

/-- Audit the assembly of a run. -/
def audit (files : FileAccess m) (options : Options) : ExceptT Failure m AuditReport := do
  match options.assembly with
  | none => throw .noAssembly
  | some path =>
    let a ← loadAssembly files path
    let deps ← loadDependencies files options
    return { assembly := a.name, findings := Audit.checkAssembly options.policy a deps }

/-- Read a type of a question: void, or a type reference. -/
def parseTypeRef (text : String) : Except Failure (Option TypeRef) :=
  if Text.trim text = "void" then .ok none
  else match Json.decode Interchange.typeRef text with
    | .ok t => .ok (some t)
    | .error fault => .error (.typeRefFaulty text fault)

/-- Answer a question. Without an assembly only the dependencies are
known. -/
def answer (files : FileAccess m) (options : Options) (sub sup : String) :
    ExceptT Failure m QueryReport := do
  let sub ← ExceptT.mk (pure (parseTypeRef sub))
  let sup ← ExceptT.mk (pure (parseTypeRef sup))
  let a ← match options.assembly with
    | some path => loadAssembly files path
    | none => pure (Assembly.empty "")
  let deps ← loadDependencies files options
  return { sub, sup, explanation := explain (World.of a deps) sub sup }

end Session

/-- What a run has to say. -/
inductive Report where
  | audit (r : AuditReport)
  | query (r : QueryReport)
  deriving DecidableEq, Repr, Inhabited

namespace Report

/-- The report as text. -/
def render (color : Bool) : Report → String
  | audit r => r.render color
  | query r => r.render color

/-- The report as JSON. -/
def toJson : Report → Json
  | audit r => Interchange.auditReportJson r
  | query r => Interchange.queryReportJson r

/-- Whether the report is good news. -/
def isGood : Report → Bool
  | audit r => r.errorCount = 0
  | query r => r.explanation.allowed

end Report

/-- What a run works in. -/
structure Surroundings where
  /-- The working directory, an absolute path. -/
  cwd : Path
  /-- The variables `CLICOLOR_FORCE`, `NO_COLOR` and `CLICOLOR`. -/
  forceColor : Option String := none
  noColor : Option String := none
  color : Option String := none
  /-- The output goes to a terminal. -/
  isTerminal : Bool := false
  deriving DecidableEq, Repr, Inhabited

/-- Whether text can be painted. A variable is on unless it is `0`. To
force colours wins over having none, and that wins over the rest. -/
def Surroundings.canPaint (s : Surroundings) : Bool :=
  if s.forceColor.any (· ≠ "0") then true
  else if s.noColor.isSome then false
  else s.color.all (· ≠ "0") && s.isTerminal

/-- What a run leaves behind. -/
structure Outcome where
  exitCode : Nat
  output : String := ""
  errors : String := ""
  deriving DecidableEq, Repr, Inhabited

namespace Session

variable {m : Type → Type} [Monad m]

/-- Audit or answer, as the command line says. -/
def report (files : FileAccess m) (options : Options) (args : Arguments) :
    ExceptT Failure m Report := do
  match args.query? with
  | some (sub, sup) => return .query (← answer files options sub sup)
  | none => return .audit (← audit files options)

/-- The version that the program tells. -/
def versionText : String := "covary 0.1.0\n"

/-- How the program is called. -/
def usageText : String :=
  "Usage: covary [--project PATH] [--assembly PATH] [--dep PATH]... [--deps-dir PATH]...\n"
    ++ "       [--allow-interface-covariance[=BOOL]] [--format text|json] [--pretty BOOL]\n"
    ++ "       [--sub TYPE --super TYPE]\n"

/-- A run whose command line was refused, or that was asked about the
program itself. -/
def refuse : UsageError → Outcome
  | .displayHelp => { exitCode := 0, output := usageText }
  | .displayVersion => { exitCode := 0, output := versionText }
  | _ => { exitCode := 2, errors := usageText }

/-- Write a report. The number of errors is also told apart from JSON
output, which other programs read. -/
def write (s : Surroundings) (args : Arguments) (r : Report) : Outcome :=
  let exitCode := if r.isGood then 0 else 1
  match args.format.getD .text, r with
  | .text, r => { exitCode, output := r.render (args.pretty.getD s.isTerminal && s.canPaint) }
  | .json, .query _ => { exitCode, output := r.toJson.pretty ++ "\n" }
  | .json, .audit a =>
    { exitCode
      output := r.toJson.pretty ++ "\n"
      errors := if r.isGood then ""
        else "covary: " ++ toString a.errorCount ++ " error(s)\n" }

/-- Run the program. -/
def run (files : FileAccess m) (s : Surroundings) (line : List String) : m Outcome := do
  match Arguments.parse line with
  | .error e => return refuse e
  | .ok args =>
    let result ← ExceptT.run (do
      let options ← Options.resolve files s.cwd args
      report files options args)
    match result with
    | .ok r => return write s args r
    | .error failure => return { exitCode := 1, errors := failure.render }

end Session

end OverrideCheck
