/-
  What can be wrong. A problem is a mistake in the program: it is reported at a position, and
  checking goes on unless the problem is fatal. A defect is a broken promise of an earlier pass or
  of this library. A fault ends what was being done.

  Problems and defects are causes; their wording is in `Problem.message` and `Defect.message`.
-/
import MiddleEnd.Ty.Combine
import MiddleEnd.UnitText.Read
import MiddleEnd.UnitText.Write

namespace MiddleEnd

/-! ## Problems -/

inductive Problem
  /-- A type annotation names no type. -/
  | unresolvedType (name : String)
  /-- An identifier or call whose name is not bound; shown whole. -/
  | unboundName (shown : String)
  /-- A name is bound to a node without a definition. -/
  | unknownReference
  /-- A name is bound to a node that is not in the crate. -/
  | noSuchNode
  /-- A name is bound to a node without a type. -/
  | untyped (shown : String)
  /-- A name is used before any value settled its type. -/
  | unsettled (shown : String)
  | mismatch (m : Mismatch)
  | notAFunction (found : Ty)
  | argumentCount (expected got : Nat)
  | unresolvedStruct (name : String)
  | notAStruct (found : Ty)
  | noSuchField (struct field : String)
  | missingField (struct field : String)
  | emptyArray
  /-- An index into a value that is no array. -/
  | notAnArray
  /-- A problem stated by someone else. -/
  | stated (text : String)
  deriving DecidableEq, Repr

/-- The wording of a problem. -/
def Problem.message : Problem → String
  | .unresolvedType name => s!"failed to resolve type: {name}"
  | .unboundName shown => s!"failed to lookup reference for node: {shown}"
  | .unknownReference => "unknown reference"
  | .noSuchNode => "reverse lookup failure"
  | .untyped shown => s!"consider giving this a type: {shown}"
  | .unsettled shown => s!"type annotations needed for {shown}"
  | .mismatch m => m.text
  | .notAFunction found => s!"expected a function type, found [{found.text}]"
  | .argumentCount expected got =>
    s!"differing number of arguments: expected {expected}, got {got}"
  | .unresolvedStruct name => s!"failed to resolve struct path: {name}"
  | .notAStruct found => s!"expected a struct type, found [{found.text}]"
  | .noSuchField struct field => s!"struct {struct} has no field named {field}"
  | .missingField struct field => s!"missing field {field} in initializer of {struct}"
  | .emptyArray => "cannot infer the element type of an empty array"
  | .notAnArray => "expected an ArrayType for index expression"
  | .stated text => text

/-! ## Diagnostics -/

inductive Severity
  | error
  | fatal
  deriving DecidableEq, Repr

/-- A problem that was reported. -/
structure Diagnostic where
  severity : Severity
  problem : Problem
  location : Location
  deriving DecidableEq, Repr

def Severity.text : Severity → String
  | .error => "error"
  | .fatal => "fatal"

def Severity.ofText? : String → Option Severity
  | "error" => some .error
  | "fatal" => some .fatal
  | _ => none

namespace Diagnostic

def message (d : Diagnostic) : String := d.problem.message

def toJson (d : Diagnostic) : Json :=
  .object [("severity", .text d.severity.text), ("message", .text d.message),
    ("location", d.location.toJson)]

/-- Diagnostics as a document over several lines. -/
def listText (ds : List Diagnostic) : String := (Json.arr (ds.map toJson)).pretty

/-- A diagnostic as the document form spells it. -/
def read : Nat → Json → Option Diagnostic
  | 0, _ => none
  | n + 1, j => do
    let slot ← UnitText.record ["severity", "message", "location"] j
    let severity ← (slot "severity").required fun j =>
      (UnitText.bareVariant n j).bind Severity.ofText?
    let message ← (slot "message").required UnitText.text
    let location ← (slot "location").required (UnitText.location n)
    return ⟨severity, .stated message, location⟩

end Diagnostic

/-! ## Defects -/

inductive Defect
  -- while checking
  | missingBuiltin (name : String)
  | returnOutside
  | tailOutside
  | indexType (m : Mismatch)
  | noSignature (name : String)
  | untypedItem (name : String)
  -- while lowering
  | untypedNode (id : IrId)
  | malformedLiteral (spelling : String)
  | unresolvedName (shown : String)
  | noDefinition (shown : String)
  | noSuchNode (shown : String)
  | notAValue (name : String)
  | unresolvedCallee (shown : String)
  | notADeclaredFunction (shown : String)
  | structLiteralType (name : String) (found : Ty)
  | missingFieldValue (struct field : String)
  | uncheckedItem (name : String)
  | structItemType (name : String) (found : Ty)
  | functionItemType (name : String) (found : Ty)
  | undeclaredFunction (name : String)
  | bodyNotBlock (name : String)
  | builtinWithoutId (name : String)
  | builtinWithoutType (name : String)
  | notABuiltin (found : Ty)
  | neverCompiled (type : Ty)
  | notCompilable (type : Ty)
  | noOpenBlock
  | statementOutsideBlock
  | noFunctionToLeave
  | noActiveFunction
  -- while writing C
  | notAFunctionType (spelling : String)
  | unknownFunction
  | undeclaredConstant (name : String)
  | notAGlobal (name : String)
  /-- A defect stated by someone else. -/
  | stated (text : String)
  deriving DecidableEq, Repr

/-- The wording of a defect. -/
def Defect.message : Defect → String
  | .missingBuiltin name => s!"builtin type {name} is not registered"
  | .returnOutside => "return expression outside of a function"
  | .tailOutside => "if/else in tail position outside of a function"
  | .indexType m => s!"array index is not an i32: {m.text}"
  | .noSignature name => s!"function {name} has no signature"
  | .untypedItem name => s!"item {name} has no type"
  | .untypedNode id => s!"no type recorded for {id.text}"
  | .malformedLiteral spelling => s!"malformed literal {spelling}"
  | .unresolvedName shown => s!"unresolved name {shown}"
  | .noDefinition shown => s!"no definition for {shown}"
  | .noSuchNode shown => s!"reverse lookup failure for {shown}"
  | .notAValue name => s!"{name} does not name a variable or constant"
  | .unresolvedCallee shown => s!"unresolved callee {shown}"
  | .notADeclaredFunction shown => s!"{shown} is not a declared function"
  | .structLiteralType name found => s!"struct literal {name} has type {found.text}"
  | .missingFieldValue struct field => s!"missing field {field} in {struct}"
  | .uncheckedItem name => s!"item {name} was not type checked"
  | .structItemType name found => s!"struct {name} has type {found.text}"
  | .functionItemType name found => s!"function {name} has type {found.text}"
  | .undeclaredFunction name => s!"function {name} was not declared"
  | .bodyNotBlock name => s!"body of {name} is not a block"
  | .builtinWithoutId name => s!"builtin {name} has no type identity"
  | .builtinWithoutType name => s!"builtin {name} has no type"
  | .notABuiltin found => s!"{found.text} is not a builtin type"
  | .neverCompiled type => s!"type {type.text} ({type.ref.text}) was never compiled"
  | .notCompilable type => s!"cannot compile type {type.text}"
  | .noOpenBlock => "pop_block with no open block"
  | .statementOutsideBlock => "statement added with no open block"
  | .noFunctionToLeave => "pop_fn with no active function"
  | .noActiveFunction => "peek_fn with no active function"
  | .notAFunctionType spelling => s!"{spelling} is not a function type"
  | .unknownFunction => "unknown function handle"
  | .undeclaredConstant name => s!"undeclared constant {name}"
  | .notAGlobal name => s!"{name} is not a global"
  | .stated text => text

/-! ## Faults -/

/-- What ends a check, a lowering or a command. -/
inductive Fault
  /-- A problem after which checking cannot go on. -/
  | fatal (location : Location) (problem : Problem)
  | internal (defect : Defect)
  /-- Reading or writing a file failed. -/
  | io (text : String)
  /-- The C compiler refused the program. -/
  | codegen (text : String)
  deriving DecidableEq, Repr

namespace Fault

/-- The wording of a fault. -/
def message : Fault → String
  | fatal location problem => s!"{location.text}: fatal error: {problem.message}"
  | internal defect => s!"internal compiler error: {defect.message}"
  | io text => s!"I/O error: {text}"
  | codegen text => s!"code generation error: {text}"

def location? : Fault → Option Location
  | fatal location _ => some location
  | _ => none

def isInternal : Fault → Bool
  | internal _ => true
  | _ => false

end Fault

end MiddleEnd
