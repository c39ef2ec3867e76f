import OverrideCheck.Files.Access
import OverrideCheck.Json.Fault

/-!
# `OverrideCheck.Command.Failure`: why a run ends early

A failure says what could not be done and, where something deeper was
the reason, what that was.
-/

set_option autoImplicit false

namespace OverrideCheck

/-- The name of a project file. -/
def projectFileName : String := "covary.json"

/-- Why a run ends early. -/
inductive Failure where
  | projectNotFound (path : Path)
  | projectUnreadable (path : Path) (e : ReadError)
  | projectFaulty (path : Path) (fault : Json.Fault)
  | noAssembly
  | assemblyUnreadable (path : Path) (e : ReadError)
  | assemblyFaulty (path : Path) (fault : Json.Fault)
  | directoryNotFound (path : Path)
  | typeRefFaulty (text : String) (fault : Json.Fault)
  deriving DecidableEq, Repr, Inhabited

/-- What lies at the bottom of a failure. -/
inductive Cause where
  | read (e : ReadError)
  | json (fault : Json.Fault)
  deriving DecidableEq, Repr, Inhabited

namespace Failure

/-- What could not be read in a project file. -/
def projectContent : String := "failed to parse " ++ projectFileName

/-- What could not be done, the outermost first. -/
def messages : Failure → List String
  | projectNotFound path => ["project file not found: " ++ path.text]
  | projectUnreadable path _ => ["failed to read project file: " ++ path.text]
  | projectFaulty path _ => ["failed to load project file: " ++ path.text, projectContent]
  | noAssembly =>
    ["no assembly to check: pass --assembly or a " ++ projectFileName
      ++ " with an \"assembly\" entry"]
  | assemblyUnreadable path _ => ["failed to read assembly: " ++ path.text]
  | assemblyFaulty path _ => ["failed to parse assembly: " ++ path.text]
  | directoryNotFound path => ["dependency directory not found: " ++ path.text]
  | typeRefFaulty text _ => ["invalid type reference: " ++ text]

/-- What lies at the bottom. -/
def cause? : Failure → Option Cause
  | projectUnreadable _ e | assemblyUnreadable _ e => some (.read e)
  | projectFaulty _ fault | assemblyFaulty _ fault | typeRefFaulty _ fault => some (.json fault)
  | projectNotFound _ | noAssembly | directoryNotFound _ => none

end Failure

/-- The words for what lies at the bottom. -/
def Cause.message : Cause → String
  | .read e => e.message
  | .json (.cut .malformed) => "malformed JSON"
  | .json (.cut .unfinished) => "unfinished JSON"
  | .json (.mismatch m) => m.message

/-- The whole text of a failure: what could not be done, and below it
the reasons, numbered if there are several. -/
def Failure.render (f : Failure) : String :=
  let reasons := f.messages.drop 1 ++ (f.cause?.map (·.message)).toList
  let lines := match reasons with
    | [] => []
    | [reason] => ["", "Caused by:", "    " ++ reason]
    | reasons =>
      ["", "Caused by:"]
        ++ reasons.mapIdx fun i reason => "    " ++ toString i ++ ": " ++ reason
  "\n".intercalate (("Error: " ++ (f.messages.head?).getD "") :: lines) ++ "\n"

end OverrideCheck
