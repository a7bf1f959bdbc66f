/-
  Lowering expressions and statements. An expression becomes a C expression; whatever has control
  flow or assigns a variable becomes statements in the innermost open block, and where it also has
  a value, the value is left in a temporary variable.
-/
import MiddleEnd.Lower.Ty
import MiddleEnd.Syntax.Text

namespace MiddleEnd.Lower

/-! ## Names and types -/

/-- The type that checking recorded for a node. -/
def typeOf (k : Checked) (id : IrId) : Lower Ty := require (.untypedNode id) (k.types.get? id)

/-- The node that declares the value `e` names. -/
def declaration (k : Checked) (e : Expr) : Lower IrId := do
  let decl ← require (.unresolvedName e.text) (k.scope.bindings.name? e.surface)
  let d ← require (.noDefinition e.text) (k.scope.bindings.definition? decl)
  require (.noSuchNode e.text) (k.scope.registry.node? ⟨e.head.id.crate, d.parent⟩)

/-- The use of a variable or constant. -/
def identifier (k : Checked) (e : Expr) (name : String) : Lower C.Expr := do
  let id ← declaration k e
  let l ← get
  match l.vars[id]? with
  | some v => return l.c.varExpr v
  | none => require (.notAValue name) l.constants[id]?

/-- The function that a callee names. -/
def callee (k : Checked) (e : Expr) : Lower C.FunctionId := do
  let decl ← require (.unresolvedCallee e.text) (k.scope.bindings.name? e.surface)
  let id ← require (.noSuchNode e.text) (k.scope.registry.node? ⟨e.head.id.crate, decl⟩)
  require (.notADeclaredFunction e.text) (← get).functions[id]?

/-! ## Literals -/

/-- The least and the greatest integer a literal may spell. -/
def intRange : Int × Int := 
  (-170141183460469231731687303715884105728, 170141183460469231731687303715884105727)

/-- The integer a text spells: digits with an optional sign, within range. -/
def int? (s : String) : Option Int :=
  (Binary.signedDigits? s.toList).bind fun n =>
    if intRange.1 ≤ n ∧ n ≤ intRange.2 then some n else none

def bool? : String → Option Bool
  | "true" => some true
  | "false" => some false
  | _ => none

/-- The spelling of a literal without the underscores that group its digits. -/
def plainSpelling (s : String) : String := String.ofList (s.toList.filter (· ≠ '_'))

def isFloat : Ty → Bool
  | .float .. => true
  | _ => false

def literal (k : Checked) (id : IrId) (lit : Literal) : Lower C.Expr := do
  let t ← typeOf k id
  let s := plainSpelling lit.spelling
  match lit.kind with
  | .bool => return .bool (← require (.malformedLiteral lit.spelling) (bool? s))
  | .float => float t s
  | .int =>
    if isFloat t then float t s
    else
      let n ← require (.malformedLiteral lit.spelling) (int? s)
      return .int (← type t) n
where
  float (t : Ty) (s : String) : Lower C.Expr := do
    let v ← require (.malformedLiteral lit.spelling) (Binary.binary64.ofText? s)
    return .float (← type t) v

/-! ## Variables and branches -/

/-- A new variable for a value of this type, declared in the innermost open block. -/
def temporary (t : Ty) : Lower C.VarId := do
  let ct ← type t
  let a ← activation
  let v ← build (·.newLocal a.function "__tmp" ct)
  addStmt (← look (·.declareStmt v none))
  return v

/-- A new variable for a value of this type, unless it has none. -/
def temporary? (t : Ty) : Lower (Option C.VarId) := do
  if t.isUnit then return none
  return some (← temporary t)

/-- Assign a value to a variable. -/
def store (v : C.VarId) (value : C.Expr) : Lower Unit := do
  addStmt (.assign (← look (·.varExpr v)) value)

/-- A new local variable for the declaration `id`, declared in the innermost open block. -/
def declare (id : IrId) (name : String) (t : C.Ty) (init : Option C.Expr) : Lower Unit := do
  let a ← activation
  let v ← build (·.newLocal a.function name t)
  setVariable id v
  addStmt (← look (·.declareStmt v init))

/-- Assign a value to a variable, if there are both. -/
def storeIn : Option C.VarId → Option C.Expr → Lower Unit
  | some v, some value => store v value
  | _, _ => return ()

/-- The value left in a variable, if there is one. -/
def load : Option C.VarId → Lower C.Expr
  | some v => look (·.varExpr v)
  | none => return .unit

/-- A block of its own for what `body` adds; its value, if any, goes to `target`. -/
def inBlock (target : Option C.VarId) (body : Lower (Option C.Expr)) : Lower C.BlockId := do
  discard activation
  let b ← build (·.newBlock)
  pushBlock b
  storeIn target (← body)
  popBlock

/-- Whether an expression has already added all its statements when it is lowered. -/
def addsItself : Expr → Bool
  | .ret .. | .assign .. | .ifOnly .. | .ifElse .. | .ifElseIf .. | .block .. => true
  | _ => false

/-- Lower an expression for its effects only. -/
def effect (e : Expr) (value : Lower C.Expr) : Lower Unit := do
  let v ← value
  if addsItself e then return () else addStmt (.expr v)

/-- Lower the body of a branch that is no block. -/
def effectOnly (e : Expr) (value : Lower C.Expr) : Lower (Option C.Expr) := do
  effect e value
  return none

/-- Whether the value of an expression is worth keeping. -/
def hasValue (k : Checked) : Expr → Lower Bool
  | .ret .. => return false
  | e => do return !(← typeOf k e.ir).isUnit

/-! ## Struct literals -/

/-- Whether an expression may be evaluated at any time. -/
def isInert : Expr → Bool
  | .literal .. | .identifier .. => true
  | _ => false

/-- Keep the value of a field for later: it moves to a temporary variable, unless it has none. -/
def keep (t : Ty) (value : C.Expr) : Lower C.Expr := do
  match ← temporary? t with
  | some v =>
    store v value
    look (·.varExpr v)
  | none => return value

/-- The values of fields in the order of the declaration. A value is used up by the first field of
its name. -/
def inDeclaredOrder (struct : String) (given : List (String × C.Expr)) :
    List String → Lower (List C.Expr)
  | [] => return []
  | name :: rest => do
    let v ← require (.missingFieldValue struct name) (given.lookup name)
    return v :: (← inDeclaredOrder struct (given.filter (·.1 ≠ name)) rest)

/-! ## Expressions and statements -/

mutual

/-- The C expression of an expression, after the statements that it needs. -/
def expr (k : Checked) : Expr → Lower C.Expr
  | .literal h lit => literal k h.id.ir lit
  | .identifier h name => identifier k (.identifier h name) name
  | .ret _ none => do
    discard activation
    addStmt (.ret none)
    return .unit
  | .ret _ (some value) => do
    let v ← expr k value
    discard activation
    addStmt (.ret (some v))
    return .unit
  | .call _ f args => do
    let f ← callee k f
    let values ← exprs k args
    look (·.callExpr f values)
  | .assign _ target value => do
    let t ← expr k target
    let v ← expr k value
    addStmt (.assign t v)
    return t
  | .binary _ op lhs rhs => do
    let l ← expr k lhs
    let r ← expr k rhs
    return .binary op l r
  | .ifOnly _ condition body => do
    let c ← expr k condition
    let b ← inBlock none (match body with
      | .block _ ss tail => do stmts k ss; tailValue k tail
      | e => effectOnly e (expr k e))
    addStmt (.branch c b none)
    return .unit
  | .ifElse h condition thenBody elseBody => do
    let t ← typeOf k h.id.ir
    let c ← expr k condition
    let target ← temporary? t
    let b ← inBlock target (match thenBody with
      | .block _ ss tail => do stmts k ss; tailValue k tail
      | e => effectOnly e (expr k e))
    let d ← inBlock target (match elseBody with
      | .block _ ss tail => do stmts k ss; tailValue k tail
      | e => effectOnly e (expr k e))
    addStmt (.branch c b (some d))
    load target
  | .ifElseIf _ condition thenBody elseIf => do
    let c ← expr k condition
    let b ← inBlock none (match thenBody with
      | .block _ ss tail => do stmts k ss; tailValue k tail
      | e => effectOnly e (expr k e))
    let d ← inBlock none (match elseIf with
      | .block _ ss tail => do stmts k ss; tailValue k tail
      | e => effectOnly e (expr k e))
    addStmt (.branch c b (some d))
    return .unit
  | .block h ss tail => do
    let t ← typeOf k h.id.ir
    let target ← temporary? t
    let b ← inBlock target (do stmts k ss; tailValue k tail)
    addStmt (.block b)
    load target
  | .index _ base position => do
    let b ← expr k base
    let p ← expr k position
    return .index b p
  | .array h values => do
    let ct ← type (← typeOf k h.id.ir)
    return .array ct (← exprs k values)
  | .copies h element count => do
    let ct ← type (← typeOf k h.id.ir)
    let v ← expr k element
    return .array ct (List.replicate count.toNat v)
  | .struct h path fields => do
    let t ← typeOf k h.id.ir
    match t.struct? with
    | none => defect (.structLiteralType path.name t)
    | some (_, decls) =>
      let ct ← type t
      let names := decls.toList.map (·.1)
      let given ← fieldInits k (fields.map FieldInit.name == names) fields
      return .struct ct (← inDeclaredOrder path.name given.reverse names)

def exprs (k : Checked) : List Expr → Lower (List C.Expr)
  | [] => return []
  | e :: rest => do
    let v ← expr k e
    return v :: (← exprs k rest)

/-- The values of the fields of a struct literal, in the order in which they stand there. Where
that is not the order of the declaration, values that could change meanwhile are kept. -/
def fieldInits (k : Checked) (inOrder : Bool) : List FieldInit → Lower (List (String × C.Expr))
  | [] => return []
  | .mk _ name value :: rest => do
    let v ← expr k value
    if inOrder || isInert value then
      return (name, v) :: (← fieldInits k inOrder rest)
    else
      let v ← keep (← typeOf k value.ir) v
      return (name, v) :: (← fieldInits k inOrder rest)

/-- The value of the last expression of a block, if there is one and it has a value. -/
def tailValue (k : Checked) : Option Expr → Lower (Option C.Expr)
  | none => return none
  | some e => do
    if ← hasValue k e then return some (← expr k e)
    effectOnly e (expr k e)

def stmt (k : Checked) : Stmt → Lower Unit
  | .expr e => effect e (expr k e)
  | .bind h pattern _ none => do
    let t ← typeOf k h.id.ir
    if t.isUnit || t.isInfer then return ()
    let ct ← type t
    declare h.id.ir pattern.name ct none
  | .bind h pattern _ (some init) => do
    let t ← typeOf k h.id.ir
    if t.isUnit || t.isInfer then effect init (expr k init)
    else
      let ct ← type t
      -- the initial value still sees a variable of the same name
      let v ← expr k init
      declare h.id.ir pattern.name ct (some v)

def stmts (k : Checked) : List Stmt → Lower Unit
  | [] => return ()
  | s :: rest => do
    stmt k s
    stmts k rest

end

/-- Lower the statements of a block into the innermost open one, and the value of its tail. -/
def contents (k : Checked) (ss : List Stmt) (tail : Option Expr) : Lower (Option C.Expr) := do
  stmts k ss
  tailValue k tail

end MiddleEnd.Lower
