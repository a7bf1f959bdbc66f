/-
  The types of expressions and statements, found from the parts to the whole. An expression whose
  type cannot be found has been reported and is left without a type; what stands beside it is
  checked all the same. Only three things end a check: an index into a value that is no array, an
  index that is no `i32`, and a `return` outside of functions.

  Comparisons and lazy operators have the type their operands combine to. A conditional has the
  type of its branches only in tail position, where its value is the function's.
-/
import MiddleEnd.Check.TypeExpr
import MiddleEnd.Syntax.Text

namespace MiddleEnd

/-- The primitive type that kind and hint of a literal select. An integer spelling with a float
hint is a float; hints that do not fit the kind are passed over. -/
def Literal.primitive (lit : Literal) : Primitive :=
  match lit.kind with
  | .int =>
    match lit.hint with
    | .i8 => .int .w8
    | .i16 => .int .w16
    | .i64 => .int .w64
    | .i128 => .int .w128
    | .u8 => .uint .w8
    | .u16 => .uint .w16
    | .u32 => .uint .w32
    | .u64 => .uint .w64
    | .u128 => .uint .w128
    | .f32 => .float .w32
    | .f64 => .float .w64
    | .i32 | .bool | .unknown => .int .w32
  | .float =>
    match lit.hint with
    | .f64 => .float .w64
    | _ => .float .w32
  | .bool => .bool

namespace Check

/-! ## Names -/

/-- The node that owns the type of the value `e` names, or why there is none. -/
def declaration (s : Scope) (e : Expr) : Except Problem IrId :=
  match s.bindings.name? e.surface with
  | none => .error (.unboundName e.text)
  | some decl =>
    match s.bindings.definition? decl with
    | none => .error .unknownReference
    | some d =>
      match s.registry.node? ⟨e.head.id.crate, d.parent⟩ with
      | none => .error .noSuchNode
      | some id => .ok id

/-- The type of the value `e` names. Only the target of an assignment may still be unsettled. -/
def identifier (s : Scope) (e : Expr) (isTarget : Bool) : Check (Option Ty) := do
  match declaration s e with
  | .error p => reject e.locus p
  | .ok id =>
    match ← typeOf? id with
    | some t => if t.isInfer && !isTarget then reject e.locus (.unsettled e.text) else return some t
    | none => reject (s.registry.location id) (.untyped e.text)

/-- The type of the function that the callee of the call `e` names. -/
def calleeType (s : Scope) (e callee : Expr) : Check (Option Ty) := do
  match s.bindings.name? callee.surface with
  | none => reject e.locus (.unboundName e.text)
  | some decl =>
    match s.registry.node? ⟨e.head.id.crate, decl⟩ with
    | none => reject e.locus .noSuchNode
    | some id =>
      match ← typeOf? id with
      | none => reject e.locus (.untyped e.text)
      | some t => return some t

/-- The struct type that the literal `e` names. -/
def structType (s : Scope) (e : Expr) (path : StructPath) : Check (Option Ty) := do
  match s.bindings.type? path.id.surface with
  | none => reject e.locus (.unresolvedStruct path.name)
  | some decl =>
    match s.registry.node? ⟨path.id.crate, decl⟩ with
    | none => reject e.locus .noSuchNode
    | some id =>
      match ← typeOf? id with
      | none => reject e.locus (.untyped e.text)
      | some t => return some t

def literal (lit : Literal) : Check Ty := do
  match (← get).types.builtin? lit.primitive.name with
  | some t => return t
  | none => defect (.missingBuiltin lit.primitive.name)

/-! ## Several types at once -/

/-- The type that elements of an array settle on; the first that does not fit is reported. -/
def settle (element : Ty) : List (Ty × Location) → Check (Option Ty)
  | [] => return some element
  | (t, l) :: rest => do
    match ← reconcile element t l with
    | some next => settle next rest
    | none => return none

/-- Report every declared field that a struct literal leaves out. -/
def missingFields (l : Location) (struct : String) (given : List String) : Members → Check Bool
  | .nil => return true
  | .cons name _ rest =>
    if given.contains name then missingFields l struct given rest
    else do
      report l (.missingField struct name)
      discard (missingFields l struct given rest)
      return false

/-- Whether the value of one field fits its declaration, whose type is then recorded for the
field. A field without a declaration is reported as `p`. -/
def fieldInit (h : Head) (declared : Option Ty) (p : Problem) (value : Option Ty) :
    Check Bool := do
  match declared, value with
  | none, _ =>
    report h.locus p
    return false
  | some _, none => return false
  | some declared, some t => return (← recording h.id.ir (reconcile declared t h.locus)).isSome

/-- An index must be an `i32`. -/
def checkIndex (id : IrId) : Option Ty → Check Unit
  | none => return ()
  | some t => do
    match ← combine (.int id .w32) t with
    | .ok _ => return ()
    | .error m => defect (.indexType m)

/-- Record the type that a value settled for the declaration of an unsettled target. -/
def settleDeclaration (s : Scope) (target : Expr) (before after : Ty) : Check Unit :=
  if before.isInfer then
    match declaration s target with
    | .ok id => record id after
    | .error _ => return ()
  else return ()

/-- The type of an assignment, from those of its sides. It settles the type of its target. -/
def assigned (s : Scope) (h : Head) (target : Expr) (targetType valueType : Option Ty) :
    Check (Option Ty) := do
  match targetType, valueType with
  | some tt, some vt =>
    match ← recording target.ir (reconcile tt vt h.locus) with
    | some t =>
      settleDeclaration s target tt t
      return some t
    | none => return none
  | _, _ => return none

/-- The type of an operation on two operands. -/
def combined (l : Location) (lhs rhs : Option Ty) : Check (Option Ty) := do
  match lhs, rhs with
  | some a, some b => reconcile a b l
  | _, _ => return none

/-- The type of a conditional whose value is the function's, from the function's return type and
the types of the branches. -/
def branches (expected : Ty) (thenType elseType : Option Ty) (thenLocus elseLocus : Location) :
    Check (Option Ty) := do
  match thenType, elseType with
  | some a, some b =>
    match ← reconcile expected a thenLocus with
    | some t => reconcile t b elseLocus
    | none => return none
  | _, _ => return none

/-- The type of an element of a value that is indexed. -/
def elementOf (base position : Option Ty) (baseLocus : Location) : Check (Option Ty) := do
  match position, base with
  | some _, some (.array _ element _) => return some element
  | some _, some (.error r) => return some (.error r)
  | some _, some _ => fatal baseLocus .notAnArray
  | _, _ => return none

/-- The type of an array, from those of its elements. -/
def arrayOf (ref : IrId) (first : Option Ty) (rest : List (Option Ty)) (loci : List Location) :
    Check (Option Ty) := do
  match first, rest.mapM id with
  | some t, some types =>
    match ← settle t (types.zip loci) with
    | some element => return some (.array ref element (rest.length + 1))
    | none => return none
  | _, _ => return none

/-! ## Statements -/

/-- The type of a `let`, from that of its annotation and that of its initial value. `init` is where
the initial value stands, if there is one. -/
def letType (id : IrId) (annotated : Option Ty) (init : Option (Option Ty × Location)) :
    Check Ty := do
  match annotated, init with
  | some t, some (some v, l) =>
    -- on a mismatch the annotation stays, so later uses are checked against it
    match ← reconcile t v l with
    | some both => return both
    | none => return t
  | some t, _ => return t
  | none, some (some v, _) => return v
  | none, some (none, _) => return .error id
  | none, none => return .infer id

/-! ## Expressions -/

mutual

/-- The type of an expression, recorded for it. `final` marks tail position, where the value of
the expression is the value of the function. -/
def expr (s : Scope) : Expr → (final : Bool) → Check (Option Ty)
  | .literal h lit, _ => recording h.id.ir do
    return some (← literal lit)
  | .identifier h name, _ => recording h.id.ir do
    identifier s (.identifier h name) false
  | .ret h none, _ => recording h.id.ir do
    match ← return? with
    | none => defect .returnOutside
    | some result => reconcile result (.unit h.id.ir) h.locus
  | .ret h (some value), _ => recording h.id.ir do
    match ← return? with
    | none => defect .returnOutside
    | some result =>
      match ← expr s value false with
      | some t => reconcile result t h.locus
      | none => return none
  | .call h callee args, _ => recording h.id.ir do
    match ← calleeType s (.call h callee args) callee with
    | none => return none
    | some (.error r) =>
      discard (exprs s args)
      return some (.error r)
    | some (.fn _ params result) =>
      if params.length ≠ args.length then
        reject h.locus (.argumentCount params.length args.length)
      else
        return if ← arguments s params args then some result else none
    | some t => reject h.locus (.notAFunction t)
  | .assign h (.identifier g name) value, _ => recording h.id.ir do
    let targetType ← recording g.id.ir (identifier s (.identifier g name) true)
    let valueType ← expr s value false
    assigned s h (.identifier g name) targetType valueType
  | .assign h target value, _ => recording h.id.ir do
    let targetType ← expr s target false
    let valueType ← expr s value false
    assigned s h target targetType valueType
  | .binary h _ lhs rhs, _ => recording h.id.ir do
    let l ← expr s lhs false
    let r ← expr s rhs false
    combined h.locus l r
  | .ifOnly h condition body, _ => recording h.id.ir do
    discard (expr s condition false)
    discard (expr s body false)
    return some (.unit h.id.ir)
  | .ifElse h condition thenBody elseBody, false => recording h.id.ir do
    discard (expr s condition false)
    discard (expr s thenBody false)
    discard (expr s elseBody false)
    return some (.unit h.id.ir)
  | .ifElse h condition thenBody elseBody, true => recording h.id.ir do
    match ← return? with
    | none => defect .tailOutside
    | some expected =>
      discard (expr s condition false)
      let thenType ← expr s thenBody true
      let elseType ← expr s elseBody true
      branches expected thenType elseType thenBody.locus elseBody.locus
  | .ifElseIf h condition thenBody elseIf, _ => recording h.id.ir do
    discard (expr s condition false)
    discard (expr s thenBody false)
    discard (expr s elseIf false)
    return some (.unit h.id.ir)
  | .block h body none, _ => recording h.id.ir do
    stmts s body
    return some (.unit h.id.ir)
  | .block h body (some tail), final => recording h.id.ir do
    stmts s body
    expr s tail final
  | .index h base position, _ => recording h.id.ir do
    let positionType ← expr s position false
    checkIndex position.ir positionType
    let baseType ← expr s base false
    elementOf baseType positionType base.locus
  | .array h [], _ => recording h.id.ir do
    reject h.locus .emptyArray
  | .array h (first :: rest), _ => recording h.id.ir do
    let firstType ← expr s first false
    let restTypes ← exprs s rest
    arrayOf h.id.ir firstType restTypes (rest.map Expr.locus)
  | .copies h element count, _ => recording h.id.ir do
    match ← expr s element false with
    | some t => return some (.array h.id.ir t count.toNat)
    | none => return none
  | .struct h path fields, _ => recording h.id.ir do
    match ← structType s (.struct h path fields) path with
    | none => return none
    | some (.struct r name decls) =>
      let fieldsOk ← fieldInits s name decls fields
      let complete ← missingFields h.locus name (fields.map FieldInit.name) decls
      return if fieldsOk && complete then some (.struct r name decls) else none
    | some t => reject h.locus (.notAStruct t)

/-- The types of expressions side by side. -/
def exprs (s : Scope) : List Expr → Check (List (Option Ty))
  | [] => return []
  | e :: rest => do
    let t ← expr s e false
    let types ← exprs s rest
    return t :: types

/-- Whether arguments fit the types of their parameters. -/
def arguments (s : Scope) : Members → List Expr → Check Bool
  | .cons _ param params, e :: rest => do
    let ok ← fits param (← expr s e false) e.locus
    let others ← arguments s params rest
    return ok && others
  | _, _ => return true

/-- Whether the values of a struct literal fit the fields they name. -/
def fieldInits (s : Scope) (struct : String) (decls : Members) : List FieldInit → Check Bool
  | [] => return true
  | .mk h name value :: rest => do
    let valueType ← expr s value false
    let ok ← fieldInit h (decls.find? name) (.noSuchField struct name) valueType
    let others ← fieldInits s struct decls rest
    return ok && others

def stmt (s : Scope) : Stmt → Check Unit
  | .expr e => discard (expr s e false)
  | .bind h pattern annotated none => do
    let t ← letType h.id.ir (← typeExpr? s annotated) none
    record pattern.id.ir t
    record h.id.ir t
  | .bind h pattern annotated (some init) => do
    let annotated ← typeExpr? s annotated
    let initType ← expr s init false
    let t ← letType h.id.ir annotated (some (initType, init.locus))
    record pattern.id.ir t
    record h.id.ir t

def stmts (s : Scope) : List Stmt → Check Unit
  | [] => return ()
  | first :: rest => do
    stmt s first
    stmts s rest

end

end Check

end MiddleEnd
