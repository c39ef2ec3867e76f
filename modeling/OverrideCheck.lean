import OverrideCheck.Ancestry
import OverrideCheck.Assembly
import OverrideCheck.Audit
import OverrideCheck.Command.Arguments
import OverrideCheck.Command.Failure
import OverrideCheck.Command.Project
import OverrideCheck.Command.Session
import OverrideCheck.Definition
import OverrideCheck.Diagnostic.Basic
import OverrideCheck.Diagnostic.Rule
import OverrideCheck.Files.Access
import OverrideCheck.Files.Path
import OverrideCheck.Files.Tree
import OverrideCheck.Interchange.Assembly
import OverrideCheck.Interchange.Definition
import OverrideCheck.Interchange.Report
import OverrideCheck.Interchange.TypeRef
import OverrideCheck.Json.Binary64
import OverrideCheck.Json.Choice
import OverrideCheck.Json.Decoder
import OverrideCheck.Json.Fault
import OverrideCheck.Json.Numeral
import OverrideCheck.Json.Outline
import OverrideCheck.Json.Parse
import OverrideCheck.Json.Record
import OverrideCheck.Json.Value
import OverrideCheck.Lineage
import OverrideCheck.Log
import OverrideCheck.Main
import OverrideCheck.Narrowing.Basic
import OverrideCheck.Narrowing.Checker
import OverrideCheck.Narrowing.Reason
import OverrideCheck.Narrowing.Search
import OverrideCheck.Policy
import OverrideCheck.Report.Basic
import OverrideCheck.Report.Paint
import OverrideCheck.Text.Blank
import OverrideCheck.Text.Printable
import OverrideCheck.Text.Quoted
import OverrideCheck.Text.Replace
import OverrideCheck.TypeRef.Basic
import OverrideCheck.TypeRef.Render
import OverrideCheck.Walk.Counter
import OverrideCheck.Walk.Guard
import OverrideCheck.World
import OverrideCheck.Proofs.Inheritance
import OverrideCheck.Proofs.InterfaceChain
import OverrideCheck.Proofs.Lineage
import OverrideCheck.Proofs.Narrowing.BaseChain
import OverrideCheck.Proofs.Narrowing.Derivation
import OverrideCheck.Proofs.Narrowing.Soundness
import OverrideCheck.Proofs.Narrowing.Completeness
import OverrideCheck.Proofs.Narrowing.Order
import OverrideCheck.Proofs.Narrowing.Reuse
import OverrideCheck.Proofs.Ancestry.Exploration
import OverrideCheck.Proofs.Ancestry.Enumeration
import OverrideCheck.Proofs.Ancestry.Coverage
import OverrideCheck.Proofs.Ancestry.Agreement
import OverrideCheck.Proofs.Audit.Contract
import OverrideCheck.Proofs.Audit.Decision
import OverrideCheck.Proofs.Audit.Chain
import OverrideCheck.Proofs.Ancestry.Cycles
import OverrideCheck.Proofs.Audit.Outcome
import OverrideCheck.Proofs.Audit.Leniency
import OverrideCheck.Proofs.Json.Nesting
import OverrideCheck.Proofs.Json.Scanning
import OverrideCheck.Proofs.Json.Rereading
import OverrideCheck.Proofs.Interchange.Rereading
import OverrideCheck.Proofs.Json.Shallow
import OverrideCheck.Proofs.Interchange.Shallow
import OverrideCheck.Proofs.Interchange.RoundTrip
import OverrideCheck.Proofs.Narrowing.Boundary
import OverrideCheck.Proofs.Narrowing.Layers
import OverrideCheck.Proofs.Narrowing.Truth
import OverrideCheck.Proofs.Narrowing.Attempts
import OverrideCheck.Proofs.Policy
import OverrideCheck.Proofs.Narrowing.Growth
import OverrideCheck.Proofs.Resolution
import OverrideCheck.Proofs.Dependencies
import OverrideCheck.Proofs.Json.Grammar
import OverrideCheck.Proofs.Json.Rearrangement
import OverrideCheck.Proofs.Interchange.Rearrangement
import OverrideCheck.Proofs.Diagnostic.Filling
import OverrideCheck.Proofs.Audit.Unfollowed
import OverrideCheck.Proofs.Ancestry.Questions
import OverrideCheck.Proofs.Ancestry.Limits
import OverrideCheck.Proofs.BaseLoop
import OverrideCheck.Proofs.Ancestry.BaseChain
import OverrideCheck.Proofs.Totality
import OverrideCheck.Proofs.Walk.History
import OverrideCheck.Proofs.Insertion
import OverrideCheck.Proofs.Report.Decoration
