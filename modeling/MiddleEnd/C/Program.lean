/-
  A C program under construction: types, constants, functions, variables and blocks, each numbered
  in the order of creation. Blocks are created empty, get their statements later and are referred
  to by number, so a block can be filled while others are still open.

  Within a function every parameter and local variable has a name of its own: a name that is taken
  gets the first free number behind it.
-/
import MiddleEnd.C.Basic
import MiddleEnd.Diagnostic

namespace MiddleEnd.C

/-- The definition of a struct, or of the wrapper of an array. -/
inductive TypeDef
  | struct (name : String) (fields : List (String × Ty))
  | array (name : String) (element : Ty) (length : Expr)

structure Function where
  name : String
  result : Ty
  params : List VarId
  body : Option BlockId
  /-- The names of its parameters and local variables. -/
  taken : List String

/-- Initial value and mutability of a variable of the whole program. -/
structure Global where
  init : Expr
  isMutable : Bool

structure Variable where
  name : String
  type : Ty
  global : Option Global

structure Constant where
  type : Ty
  value : Expr

structure Program where
  /-- The platform the program's text says it is for. -/
  target : String
  typeDefs : List TypeDef
  structNames : List String
  /-- The wrappers of arrays, by the texts of element type and length. -/
  arrays : List ((String × String) × Ty)
  /-- Named constants, the last declared first. -/
  constants : List (String × Constant)
  functions : Array Function
  vars : Array Variable
  blocks : Array (List Stmt)
  /-- The text written last. -/
  output : String

namespace Program

def empty (target : String) : Program := ⟨target, [], [], [], [], #[], #[], #[], ""⟩

/-! ## Types -/

/-- The name of a wrapper, by how many there are before it. -/
def arrayName (n : Nat) : String := s!"__array_{n}"

/-- The wrapper of arrays of a type and length; the same one for the same texts. -/
def arrayType (p : Program) (element : Ty) (length : Expr) : Ty × Program :=
  let key := (element.spelling, length.text)
  match p.arrays.lookup key with
  | some t => (t, p)
  | none =>
    let name := arrayName p.arrays.length
    (.named name, { p with
      typeDefs := p.typeDefs ++ [.array name element length]
      arrays := p.arrays ++ [(key, .named name)] })

def structType (p : Program) (name : String) (fields : List (String × Ty)) : Ty × Program :=
  (.named name, { p with
    typeDefs := p.typeDefs ++ [.struct name fields]
    structNames := p.structNames ++ [name] })

/-! ## Constants, functions and variables -/

/-- Declare a constant and refer to it. -/
def constant (p : Program) (type : Ty) (name : String) (value : Expr) : Expr × Program :=
  (.constant name, { p with constants := (name, ⟨type, value⟩) :: p.constants })

def function (p : Program) (name : String) (type : Ty) : Except Defect FunctionId × Program :=
  match type with
  | .function _ result =>
    (.ok ⟨p.functions.size⟩, { p with functions := p.functions.push ⟨name, result, [], none, []⟩ })
  | t => (.error (.notAFunctionType t.spelling), p)

def functionName (p : Program) (f : FunctionId) : String :=
  (p.functions[f.index]?.map (·.name)).getD ""

def modifyFunction (p : Program) (f : FunctionId) (g : Function → Function) : Program :=
  { p with functions := p.functions.modify f.index g }

/-- The names tried for a local variable, in order. -/
def candidate (name : String) : Nat → String
  | 0 => name
  | n + 1 => s!"{name}_{n + 1}"

/-- The first candidate that is not taken. So many names are taken that one of one more candidates
is not. -/
def freshName (taken : List String) (name : String) : String :=
  (((List.range (taken.length + 1)).map (candidate name)).find? (!taken.contains ·)).getD name

/-- A new variable of a function, under a name of its own there. -/
def newLocal (p : Program) (f : FunctionId) (name : String) (type : Ty) : VarId × Program :=
  let name := freshName ((p.functions[f.index]?.map (·.taken)).getD []) name
  let p := p.modifyFunction f fun g => { g with taken := name :: g.taken }
  (⟨p.vars.size⟩, { p with vars := p.vars.push ⟨name, type, none⟩ })

def parameter (p : Program) (f : FunctionId) (name : String) (type : Ty) : VarId × Program :=
  let (v, p) := p.newLocal f name type
  (v, p.modifyFunction f fun g => { g with params := g.params ++ [v] })

def globalVariable (p : Program) (name : String) (type : Ty) (init : Expr) (isMutable : Bool) :
    VarId × Program :=
  (⟨p.vars.size⟩,
    { p with vars := p.vars.push ⟨name, type, some ⟨init, isMutable⟩⟩ })

/-- A use of a variable. -/
def varExpr (p : Program) (v : VarId) : Expr :=
  .var v ((p.vars[v.index]?.map (·.name)).getD "")

/-- A call of a function. -/
def callExpr (p : Program) (f : FunctionId) (args : List Expr) : Expr :=
  .call f (p.functionName f) args

/-- The declaration of a variable. -/
def declareStmt (p : Program) (v : VarId) (init : Option Expr) : Stmt :=
  match p.vars[v.index]? with
  | some x => .declare v x.type x.name init
  | none => .declare v .void "" init

def setBody (p : Program) (f : FunctionId) (body : BlockId) : Except Defect Unit × Program :=
  if f.index < p.functions.size then
    (.ok (), p.modifyFunction f fun g => { g with body := some body })
  else (.error .unknownFunction, p)

/-! ## Blocks -/

def newBlock (p : Program) : BlockId × Program :=
  (⟨p.blocks.size⟩, { p with blocks := p.blocks.push [] })

/-- Add statements at the end of a block. -/
def extendBlock (p : Program) (b : BlockId) (stmts : List Stmt) : Program :=
  { p with blocks := p.blocks.modify b.index (· ++ stmts) }

def statements (p : Program) (b : BlockId) : List Stmt := (p.blocks[b.index]?).getD []

end Program

end MiddleEnd.C
