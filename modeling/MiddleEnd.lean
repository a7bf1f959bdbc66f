import MiddleEnd.Binary.Decimal
import MiddleEnd.Binary.Format
import MiddleEnd.C.Basic
import MiddleEnd.Compiler.Token
import MiddleEnd.Compiler.Literal
import MiddleEnd.Compiler.Macro
import MiddleEnd.Compiler.Value
import MiddleEnd.Compiler.Tree
import MiddleEnd.Compiler.Simplify
import MiddleEnd.Compiler.Ty
import MiddleEnd.Compiler.Scope
import MiddleEnd.Compiler.Operand
import MiddleEnd.Compiler.Reader
import MiddleEnd.Compiler.Initializer
import MiddleEnd.Compiler.Expression
import MiddleEnd.Compiler.Declarator
import MiddleEnd.Compiler.Statement
import MiddleEnd.Compiler.Directive
import MiddleEnd.C.Program
import MiddleEnd.C.Text
import MiddleEnd.Check.Expr
import MiddleEnd.Check.Monad
import MiddleEnd.Check.Program
import MiddleEnd.Check.TypeExpr
import MiddleEnd.CommandLine.Arguments
import MiddleEnd.CommandLine.Disk
import MiddleEnd.CommandLine.Execution
import MiddleEnd.CommandLine.Path
import MiddleEnd.CommandLine.Script
import MiddleEnd.Diagnostic
import MiddleEnd.Event
import MiddleEnd.Identity
import MiddleEnd.Json.Basic
import MiddleEnd.Json.Read
import MiddleEnd.Json.Token
import MiddleEnd.Json.Write
import MiddleEnd.Location
import MiddleEnd.Lower.Expr
import MiddleEnd.Lower.Monad
import MiddleEnd.Lower.Program
import MiddleEnd.Lower.Ty
import MiddleEnd.Main
import MiddleEnd.Session
import MiddleEnd.Syntax.Basic
import MiddleEnd.Syntax.Text
import MiddleEnd.Syntax.Visit
import MiddleEnd.Tables.Bindings
import MiddleEnd.Tables.Registry
import MiddleEnd.Tables.TypeTable
import MiddleEnd.Ty.Basic
import MiddleEnd.Ty.Combine
import MiddleEnd.UnitText.Read
import MiddleEnd.UnitText.Record
import MiddleEnd.UnitText.Write
import MiddleEnd.Proofs.C.Lines
import MiddleEnd.Proofs.Chain
import MiddleEnd.Proofs.Check.Binding
import MiddleEnd.Proofs.Check.Derivation
import MiddleEnd.Proofs.Check.Evolution
import MiddleEnd.Proofs.Check.Frame
import MiddleEnd.Proofs.Check.Idempotent
import MiddleEnd.Proofs.Check.Judgement
import MiddleEnd.Proofs.Check.Parts
import MiddleEnd.Proofs.Check.Pass
import MiddleEnd.Proofs.Check.Run
import MiddleEnd.Proofs.Check.Signatures
import MiddleEnd.Proofs.Check.Soundness
import MiddleEnd.Proofs.Check.Typed
import MiddleEnd.Proofs.Check.Whole
import MiddleEnd.Proofs.Lower.Calls
import MiddleEnd.Proofs.Lower.Changes
import MiddleEnd.Proofs.Lower.Emission
import MiddleEnd.Proofs.Lower.Emitted
import MiddleEnd.Proofs.Lower.Fields
import MiddleEnd.Proofs.Lower.Functions
import MiddleEnd.Proofs.Lower.Items
import MiddleEnd.Proofs.Lower.Losses
import MiddleEnd.Proofs.Lower.Renderings
import MiddleEnd.Proofs.Lower.Run
import MiddleEnd.Proofs.Lower.Slots
import MiddleEnd.Proofs.Lower.Whole
import MiddleEnd.Proofs.Syntax.Ids
import MiddleEnd.Proofs.Syntax.Parts
import MiddleEnd.Proofs.Syntax.Samples
import MiddleEnd.Proofs.Tables.Fresh
import MiddleEnd.Proofs.Ty.Alike
import MiddleEnd.Proofs.Check.Coverage
import MiddleEnd.Proofs.C.Capture
import MiddleEnd.Proofs.Lower.Invariant
import MiddleEnd.Proofs.Lower.Names
import MiddleEnd.Proofs.Check.Fade
import MiddleEnd.Proofs.Check.Unresolved
import MiddleEnd.Proofs.Check.Outcome
import MiddleEnd.Proofs.Check.Regular
import MiddleEnd.Proofs.Lower.Clean
import MiddleEnd.Proofs.C.Execution
import MiddleEnd.Proofs.Lower.Places
import MiddleEnd.Proofs.Lower.Laziness
import MiddleEnd.Proofs.C.Variables
import MiddleEnd.Proofs.Lower.Constants
import MiddleEnd.Proofs.Lower.Remains
import MiddleEnd.Proofs.Lower.Targets
import MiddleEnd.Proofs.Lower.Operands
import MiddleEnd.Proofs.Lower.Scopes
import MiddleEnd.Proofs.Lower.Phases
import MiddleEnd.Proofs.C.Layout
import MiddleEnd.Proofs.C.Definitions
import MiddleEnd.Proofs.C.Sections
import MiddleEnd.Proofs.Lower.Mentions
import MiddleEnd.Proofs.Lower.Grounded
import MiddleEnd.Proofs.Lower.Declarations
import MiddleEnd.Proofs.Lower.Episodes
import MiddleEnd.Proofs.Lower.Locals
import MiddleEnd.Proofs.Syntax.Renumber
import MiddleEnd.Proofs.Ty.Renumber
import MiddleEnd.Proofs.Tables.Renumber
import MiddleEnd.Proofs.Tables.Numbering
import MiddleEnd.Proofs.Runs
import MiddleEnd.Proofs.Check.Translate
import MiddleEnd.Proofs.Lower.Renumber
import MiddleEnd.Proofs.Lower.Numbering
import MiddleEnd.Proofs.Ty.Order
import MiddleEnd.Proofs.Ty.Joint
import MiddleEnd.Proofs.Ty.Laws
import MiddleEnd.Proofs.Check.FieldTypes
import MiddleEnd.Proofs.Tables.Reordered
import MiddleEnd.Proofs.Check.Local
import MiddleEnd.Proofs.Check.Reordered
import MiddleEnd.Proofs.C.Evaluation
import MiddleEnd.Proofs.Meaning.Operators
import MiddleEnd.Proofs.Meaning.Evaluation
import MiddleEnd.Proofs.Meaning.Direct
import MiddleEnd.Proofs.Meaning.Conformance
import MiddleEnd.Proofs.Meaning.Operands
import MiddleEnd.Proofs.Meaning.Simulation
import MiddleEnd.Proofs.Meaning.Bodies
import MiddleEnd.Proofs.Meaning.Function
import MiddleEnd.Proofs.C.Forest
import MiddleEnd.Proofs.Lower.Appends
import MiddleEnd.Proofs.Lower.Forest
import MiddleEnd.Proofs.Lower.Uses
import MiddleEnd.Proofs.Syntax.Unascribed
import MiddleEnd.Proofs.Ty.Twin
import MiddleEnd.Proofs.Check.Unascribed
import MiddleEnd.Proofs.Check.Kinds
import MiddleEnd.Proofs.Tables.Unascribed
import MiddleEnd.Proofs.Check.Bare
import MiddleEnd.Proofs.Lower.Unascribed
import MiddleEnd.Proofs.Ty.Rooted
import MiddleEnd.Proofs.Check.Rooted
import MiddleEnd.Proofs.Lower.Steps
import MiddleEnd.Proofs.Lower.Correspondence
import MiddleEnd.Proofs.Lower.Found
import MiddleEnd.Proofs.Syntax.Blanks
import MiddleEnd.Proofs.Check.Settling
import MiddleEnd.Proofs.Check.Unknown
import MiddleEnd.Proofs.Check.Silence
import MiddleEnd.Proofs.Check.Reported
import MiddleEnd.Proofs.Json.RoundTrip
import MiddleEnd.Proofs.UnitText.Nesting
import MiddleEnd.Proofs.UnitText.RoundTrip
import MiddleEnd.Proofs.Check.Variables
import MiddleEnd.Proofs.Check.Records
import MiddleEnd.Proofs.C.Paths
import MiddleEnd.Proofs.Lower.Returns
import MiddleEnd.Proofs.Lower.Temporaries
import MiddleEnd.Proofs.Syntax.Carried
import MiddleEnd.Proofs.Syntax.Translate
import MiddleEnd.Proofs.Tables.Reserved
import MiddleEnd.Proofs.Check.Names
import MiddleEnd.Proofs.Check.Course
import MiddleEnd.Proofs.Check.Halts
import MiddleEnd.Proofs.CommandLine.Checked
import MiddleEnd.Proofs.CommandLine.Building
import MiddleEnd.Proofs.Check.StructLiterals
import MiddleEnd.Proofs.Lower.Constructors
import MiddleEnd.Proofs.Lower.Integers
import MiddleEnd.Proofs.Lower.Repetition
import MiddleEnd.Proofs.C.FreshNames
import MiddleEnd.Proofs.C.Grouping
import MiddleEnd.Proofs.Check.ReturnTypes
