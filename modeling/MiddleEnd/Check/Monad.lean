/-
  What a check carries along: the tables it reads, which never change, and its progress, which
  outlives a fault. A check that ends early leaves behind the types it recorded, the diagnostics it
  reported and the events it logged, up to the fault.
-/
import MiddleEnd.Event
import MiddleEnd.Tables.TypeTable

namespace MiddleEnd

/-- The tables that checking and lowering read. -/
structure Scope where
  registry : Registry
  bindings : Bindings

/-- What checking has found out so far. -/
structure Progress where
  types : TypeTable
  diagnostics : List Diagnostic
  events : List Event

/-- A step of checking: it may end in a fault, and changes the progress either way. -/
abbrev Check := ExceptT Fault (StateM Progress)

namespace Progress

def note (p : Progress) (es : List Event) : Progress := { p with events := p.events ++ es }

def record (p : Progress) (id : IrId) (t : Ty) : Progress :=
  { p with types := p.types.record id t }.note [.typed id t]

def report (p : Progress) (d : Diagnostic) : Progress :=
  { p with diagnostics := p.diagnostics ++ [d] }.note [.reported d]

end Progress

namespace Check

variable {α : Type}

def note (e : Event) : Check Unit := modify (·.note [e])

def defect (d : Defect) : Check α := throw (.internal d)

/-- The type recorded for a node. -/
def typeOf? (id : IrId) : Check (Option Ty) := do return (← get).types.get? id

/-- Record the type of a node. -/
def record (id : IrId) (t : Ty) : Check Unit := modify (·.record id t)

/-- Find a type and record it for a node, unless there is none. -/
def recording (id : IrId) (m : Check (Option Ty)) : Check (Option Ty) := do
  match ← m with
  | some t =>
    record id t
    return some t
  | none => return none

/-- Report a problem and go on. -/
def report (l : Location) (p : Problem) : Check Unit := modify (·.report ⟨.error, p, l⟩)

/-- Report a problem and go on without a type. -/
def reject (l : Location) (p : Problem) : Check (Option Ty) := do
  report l p
  return none

/-- Report a problem and end the check. -/
def fatal (l : Location) (p : Problem) : Check α := do
  modify (·.report ⟨.fatal, p, l⟩)
  throw (.fatal l p)

/-- Combine two types, and log how. -/
def combine (expected got : Ty) : Check (Except Mismatch Ty) := do
  modify (·.note ((expected.combineSteps got).map .combined))
  return expected.combine got

/-- Combine two types; a mismatch is reported at `l`. -/
def reconcile (expected got : Ty) (l : Location) : Check (Option Ty) := do
  match ← combine expected got with
  | .ok t => return some t
  | .error m => reject l (.mismatch m)

/-- Whether a type that may be missing combines with the expected one; a mismatch is reported at
`l`. -/
def fits (expected : Ty) (got : Option Ty) (l : Location) : Check Bool := do
  match got with
  | some t => return (← reconcile expected t l).isSome
  | none => return false

/-- The return type of the innermost function being checked. -/
def return? : Check (Option Ty) := do return (← get).types.return?

/-- Run `m` inside a function with return type `t`; the function is left again whatever `m` comes
to. -/
def inFunction (t : Ty) (m : Check α) : Check α := ExceptT.mk do
  modify fun p => { p with types := p.types.pushReturn t }
  let r ← m.run
  modify fun p => { p with types := p.types.popReturn.2 }
  return r

end Check

end MiddleEnd
