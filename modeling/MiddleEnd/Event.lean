/-
  The log: what checking and lowering do, step by step. Events are kept as data in the order in
  which they happen; level and wording follow from the event.
-/
import MiddleEnd.Diagnostic

namespace MiddleEnd

/-- Log levels, the gravest first. -/
inductive Level
  | error | warn | info | debug | trace
  deriving DecidableEq, Repr

namespace Level

def rank : Level → Nat
  | error => 0
  | warn => 1
  | info => 2
  | debug => 3
  | trace => 4

def name : Level → String
  | error => "ERROR"
  | warn => "WARN"
  | info => "INFO"
  | debug => "DEBUG"
  | trace => "TRACE"

end Level

inductive Event
  | builtinDeclared (name : String) (node : SurfaceId)
  | builtinRegistered (name : String) (id : IrId)
  | sessionLoaded (items names : Nat)
  | checking (items : Nat)
  | checkingBody (function : String)
  | typed (id : IrId) (type : Ty)
  | combined (step : CombineStep)
  | reported (d : Diagnostic)
  | blockOpened (depth : Nat)
  | blockClosed (statements : Nat)
  /-- A function of the C program is filled, by its number. -/
  | functionEntered (number : Nat)
  | flushing (types constants functions vars : Nat)
  | lowering (items : Nat)
  | lowered (function : String)
  | emitted (functions bytes : Nat)
  deriving DecidableEq, Repr

namespace Event

def level : Event → Level
  | builtinDeclared .. | builtinRegistered .. | combined _ | blockOpened _ | blockClosed _ => .trace
  | typed .. | checkingBody _ | functionEntered _ | flushing .. | lowered _ => .debug
  | sessionLoaded .. | checking _ | lowering _ | emitted .. => .info
  | reported d =>
    match d.severity with
    | .error => .debug
    | .fatal => .error

/-- The wording of an event. -/
def message : Event → String
  | builtinDeclared name node => s!"builtin type {name} declared as {node.text}"
  | builtinRegistered name id => s!"builtin {name} registered as {id.text}"
  | sessionLoaded items names => s!"session loaded: {items} items, {names} name bindings"
  | checking items => s!"type checking {items} items"
  | checkingBody function => s!"checking body of {function}"
  | typed id type => s!"{id.text} : {type.text}"
  | combined step => s!"combine {step.left.text} with {step.right.text} -> {step.result.text}"
  | reported d => s!"{d.severity.text} at {d.location.text}: {d.message}"
  | blockOpened depth => s!"push block (depth {depth})"
  | blockClosed statements => s!"pop block with {statements} statements"
  | functionEntered number => s!"enter function FunctionId({number})"
  | flushing types constants functions vars =>
    s!"flushing {types} types, {constants} constants, {functions} functions, " ++
      s!"{vars} variables to the C backend"
  | lowering items => s!"lowering {items} items"
  | lowered function => s!"lowered function {function}"
  | emitted functions bytes => s!"emitted {functions} functions to C ({bytes} bytes)"

/-- The events no finer than a level. -/
def upTo (l : Level) (events : List Event) : List Event :=
  events.filter fun e => e.level.rank ≤ l.rank

end Event

end MiddleEnd
