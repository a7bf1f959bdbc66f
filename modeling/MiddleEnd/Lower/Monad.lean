/-
  What lowering carries along: the C program built so far, what has been built for which node, the
  open blocks with the statements that wait to be put into them, the functions being filled, and
  the declarations to be written. All of it outlives a fault.
-/
import MiddleEnd.C.Text
import MiddleEnd.Check.Monad

namespace MiddleEnd

open Std

/-- What checking hands over to lowering. -/
structure Checked where
  scope : Scope
  types : TypeTable

/-- A function being filled, and the variable that holds its result. -/
structure Activation where
  function : C.FunctionId
  slot : Option C.VarId
  deriving DecidableEq, Repr

/-- A block that is open, and its statements so far. They are put into it when it is closed. -/
structure OpenBlock where
  block : C.BlockId
  pending : List C.Stmt

structure Lowering where
  c : C.Program
  types : TreeMap IrId C.Ty
  functions : TreeMap IrId C.FunctionId
  vars : TreeMap IrId C.VarId
  constants : TreeMap IrId C.Expr
  /-- The functions being filled, innermost first. -/
  active : List Activation
  /-- The open blocks, innermost first. -/
  blocks : List OpenBlock
  declared : C.Program.Declarations
  events : List Event

namespace Lowering

/-- Nothing lowered yet. -/
def empty (target : String) : Lowering :=
  ⟨.empty target, {}, {}, {}, {}, [], [], ⟨[], [], [], []⟩, []⟩

def note (l : Lowering) (e : Event) : Lowering := { l with events := l.events ++ [e] }

/-- The innermost open block. -/
def enclosing? (l : Lowering) : Option C.BlockId := l.blocks.head?.map (·.block)

/-- Whether a function is among those to be written. -/
def isDeclared (l : Lowering) (f : C.FunctionId) : Bool := l.declared.functions.contains f

end Lowering

/-- A step of lowering: it may end in a fault, and changes the state either way. -/
abbrev Lower := ExceptT Fault (StateM Lowering)

namespace Lower

variable {α : Type}

def defect (d : Defect) : Lower α := throw (.internal d)

def note (e : Event) : Lower Unit := modify (·.note e)

/-- What there is, or a defect. -/
def require (d : Defect) : Option α → Lower α
  | some a => return a
  | none => defect d

/-- Build something in the C program. -/
def build (f : C.Program → α × C.Program) : Lower α := do
  let l ← get
  let (a, c) := f l.c
  set { l with c := c }
  return a

/-- Build something in the C program that may turn out impossible. -/
def buildOrFail (f : C.Program → Except Defect α × C.Program) : Lower α := do
  match ← build f with
  | .ok a => return a
  | .error d => defect d

/-- Look something up in the C program. -/
def look (f : C.Program → α) : Lower α := do return f (← get).c

/-! ## Blocks -/

/-- Open a block; statements added from now on belong to it. -/
def pushBlock (b : C.BlockId) : Lower Unit := do
  note (.blockOpened ((← get).blocks.length + 1))
  modify fun l => { l with blocks := ⟨b, []⟩ :: l.blocks }

/-- Close the innermost block and put its statements into it. -/
def popBlock : Lower C.BlockId := do
  let l ← get
  match l.blocks with
  | [] => defect .noOpenBlock
  | ⟨b, pending⟩ :: rest =>
    set { l with blocks := rest }
    note (.blockClosed pending.length)
    modify fun l => { l with c := l.c.extendBlock b pending }
    return b

/-- Add a statement to the innermost open block. -/
def addStmt (s : C.Stmt) : Lower Unit := do
  let l ← get
  match l.blocks with
  | [] => defect .statementOutsideBlock
  | ⟨b, pending⟩ :: rest => set { l with blocks := ⟨b, pending ++ [s]⟩ :: rest }

/-! ## Functions being filled -/

def pushFunction (a : Activation) : Lower Unit := do
  note (.functionEntered a.function.index)
  modify fun l => { l with active := a :: l.active }

def popFunction : Lower Activation := do
  let l ← get
  match l.active with
  | [] => defect .noFunctionToLeave
  | a :: rest =>
    set { l with active := rest }
    return a

/-- The function being filled. -/
def activation : Lower Activation := do require .noActiveFunction (← get).active.head?

/-! ## Declarations -/

/-- Change what is to be written. -/
def modifyDeclared (f : C.Program.Declarations → C.Program.Declarations) : Lower Unit :=
  modify fun l => { l with declared := f l.declared }

def declareType (t : C.Ty) : Lower Unit :=
  modifyDeclared fun d => { d with types := d.types ++ [t] }

def declareConstant (e : C.Expr) : Lower Unit :=
  modifyDeclared fun d => { d with constants := d.constants ++ [e] }

def declareFunction (f : C.FunctionId) : Lower Unit :=
  modifyDeclared fun d => { d with functions := d.functions ++ [f] }

def declareVariable (v : C.VarId) : Lower Unit :=
  modifyDeclared fun d => { d with vars := d.vars ++ [v] }

def setType (id : IrId) (t : C.Ty) : Lower Unit :=
  modify fun l => { l with types := l.types.insert id t }

def setFunction (id : IrId) (f : C.FunctionId) : Lower Unit :=
  modify fun l => { l with functions := l.functions.insert id f }

def setVariable (id : IrId) (v : C.VarId) : Lower Unit :=
  modify fun l => { l with vars := l.vars.insert id v }

def setConstant (id : IrId) (e : C.Expr) : Lower Unit :=
  modify fun l => { l with constants := l.constants.insert id e }

/-- Write everything declared. -/
def write : Lower Unit := do
  let d := (← get).declared
  note (.flushing d.types.length d.constants.length d.functions.length d.vars.length)
  buildOrFail (·.write d)
  note (.emitted d.functions.length (← get).c.output.utf8ByteSize)

end Lower

end MiddleEnd
