/-
  The typing rules, as the checker follows them where it has nothing to report.

  `Derives s t j u`: starting from tables `t`, judgement `j` is established and leaves tables `u`.
  One rule per form of expression and statement; the premises of a rule stand in the order in which
  the checker meets them, so the tables are threaded from left to right. The return types of the
  functions being checked are part of the tables and are only read.

  Nothing here mentions faults, diagnostics or the log. `Derivation.lean` shows that the derivations
  are exactly the runs without diagnostics.
-/
import MiddleEnd.Check.Program

namespace MiddleEnd

/-- The names of members, in order. -/
def Members.names (m : Members) : List String := m.toList.map (·.1)

/-- The type that a type and all types of a list combine to, from the left. -/
def Ty.combineAll? (t : Ty) : List Ty → Option Ty
  | [] => some t
  | x :: rest => (t.combine? x).bind (·.combineAll? rest)

namespace Check

/-! ## Annotations -/

/-- The annotation names type `ty`. -/
inductive Annotates (s : Scope) : TypeTable → TypeExpr → Ty → TypeTable → Prop
  | unit {t : TypeTable} (h : Head) :
    Annotates s t (.unit h) (.unit h.id.ir) (t.record h.id.ir (.unit h.id.ir))
  | array {t u : TypeTable} {element : TypeExpr} {ty : Ty} (h : Head) (capacity : UInt64) :
    Annotates s t element ty u →
    Annotates s t (.array h element capacity) (.array h.id.ir ty capacity.toNat)
      (u.record h.id.ir (.array h.id.ir ty capacity.toNat))
  | path {t : TypeTable} {ty : Ty} (h : Head) (name : String) :
    pathType? s t h = some ty →
    Annotates s t (.path h name) ty (t.record h.id.ir ty)

/-- The annotation names type `ty`, if it is there. -/
inductive Annotates? (s : Scope) : TypeTable → Option TypeExpr → Option Ty → TypeTable → Prop
  | none (t : TypeTable) : Annotates? s t none none t
  | some {t u : TypeTable} {a : TypeExpr} {ty : Ty} :
    Annotates s t a ty u → Annotates? s t (some a) (some ty) u

/-! ## Expressions and statements -/

/-- What the checker establishes about a piece of a body. -/
inductive Judgement
  /-- The expression has the type; in tail position if `final`. -/
  | expr (e : Expr) (final : Bool) (ty : Ty)
  | exprs (es : List Expr) (tys : List Ty)
  /-- The arguments fit the parameters. -/
  | arguments (params : Members) (es : List Expr)
  /-- The values of a struct literal fit the fields they name. -/
  | fields (decls : Members) (fs : List FieldInit)
  | stmt (st : Stmt)
  | stmts (sts : List Stmt)

/-- The tables after an assignment of type `after` to a target of type `before`. -/
def settled (s : Scope) (t : TypeTable) (target : Expr) (before after : Ty) : TypeTable :=
  if before.isInfer then
    match declaration s target with
    | .ok id => t.record id after
    | .error _ => t
  else t

/-- The type of a `let` with an initial value of type `v`. -/
def boundType? (annotated : Option Ty) (v : Ty) : Option Ty :=
  match annotated with
  | some a => a.combine? v
  | none => some v

inductive Derives (s : Scope) : TypeTable → Judgement → TypeTable → Prop
  | literal {t : TypeTable} {ty : Ty} (h : Head) (lit : Literal) (final : Bool) :
    t.builtin? lit.primitive.name = some ty →
    Derives s t (.expr (.literal h lit) final ty) (t.record h.id.ir ty)
  | identifier {t : TypeTable} {id : IrId} {ty : Ty} (h : Head) (name : String) (final : Bool) :
    declaration s (.identifier h name) = .ok id →
    t.get? id = some ty →
    ty.isInfer = false →
    Derives s t (.expr (.identifier h name) final ty) (t.record h.id.ir ty)
  | retUnit {t : TypeTable} {result ty : Ty} (h : Head) (final : Bool) :
    t.return? = some result →
    result.combine? (.unit h.id.ir) = some ty →
    Derives s t (.expr (.ret h none) final ty) (t.record h.id.ir ty)
  | ret {t u : TypeTable} {result vt ty : Ty} (h : Head) (value : Expr) (final : Bool) :
    t.return? = some result →
    Derives s t (.expr value false vt) u →
    result.combine? vt = some ty →
    Derives s t (.expr (.ret h (some value)) final ty) (u.record h.id.ir ty)
  | call {t u : TypeTable} {decl : SurfaceId} {id r : IrId} {params : Members} {result : Ty}
      (h : Head) (callee : Expr) (args : List Expr) (final : Bool) :
    s.bindings.name? callee.surface = some decl →
    s.registry.node? ⟨h.id.crate, decl⟩ = some id →
    t.get? id = some (.fn r params result) →
    params.length = args.length →
    Derives s t (.arguments params args) u →
    Derives s t (.expr (.call h callee args) final result) (u.record h.id.ir result)
  /-- A callee of the error type takes any arguments. -/
  | callError {t u : TypeTable} {decl : SurfaceId} {id r : IrId} {tys : List Ty}
      (h : Head) (callee : Expr) (args : List Expr) (final : Bool) :
    s.bindings.name? callee.surface = some decl →
    s.registry.node? ⟨h.id.crate, decl⟩ = some id →
    t.get? id = some (.error r) →
    Derives s t (.exprs args tys) u →
    Derives s t (.expr (.call h callee args) final (.error r)) (u.record h.id.ir (.error r))
  /-- A variable that is assigned may have no type yet; the value settles it. -/
  | assignName {t u : TypeTable} {id : IrId} {tt vt ty : Ty} (h g : Head) (name : String)
      (value : Expr) (final : Bool) :
    declaration s (.identifier g name) = .ok id →
    t.get? id = some tt →
    Derives s (t.record g.id.ir tt) (.expr value false vt) u →
    tt.combine? vt = some ty →
    Derives s t (.expr (.assign h (.identifier g name) value) final ty)
      ((settled s (u.record g.id.ir ty) (.identifier g name) tt ty).record h.id.ir ty)
  | assign {t u v : TypeTable} {tt vt ty : Ty} (h : Head) (target value : Expr) (final : Bool) :
    (∀ g name, target ≠ .identifier g name) →
    Derives s t (.expr target false tt) u →
    Derives s u (.expr value false vt) v →
    tt.combine? vt = some ty →
    Derives s t (.expr (.assign h target value) final ty)
      ((settled s (v.record target.ir ty) target tt ty).record h.id.ir ty)
  | binary {t u v : TypeTable} {lt rt ty : Ty} (h : Head) (op : BinaryOp) (lhs rhs : Expr)
      (final : Bool) :
    Derives s t (.expr lhs false lt) u →
    Derives s u (.expr rhs false rt) v →
    lt.combine? rt = some ty →
    Derives s t (.expr (.binary h op lhs rhs) final ty) (v.record h.id.ir ty)
  | ifOnly {t u v : TypeTable} {ct bt : Ty} (h : Head) (condition body : Expr) (final : Bool) :
    Derives s t (.expr condition false ct) u →
    Derives s u (.expr body false bt) v →
    Derives s t (.expr (.ifOnly h condition body) final (.unit h.id.ir))
      (v.record h.id.ir (.unit h.id.ir))
  | ifElse {t u v w : TypeTable} {ct tt et : Ty} (h : Head)
      (condition thenBody elseBody : Expr) :
    Derives s t (.expr condition false ct) u →
    Derives s u (.expr thenBody false tt) v →
    Derives s v (.expr elseBody false et) w →
    Derives s t (.expr (.ifElse h condition thenBody elseBody) false (.unit h.id.ir))
      (w.record h.id.ir (.unit h.id.ir))
  /-- In tail position the value of a conditional is the function's. -/
  | ifElseFinal {t u v w : TypeTable} {expected ct tt et both ty : Ty} (h : Head)
      (condition thenBody elseBody : Expr) :
    t.return? = some expected →
    Derives s t (.expr condition false ct) u →
    Derives s u (.expr thenBody true tt) v →
    Derives s v (.expr elseBody true et) w →
    expected.combine? tt = some both →
    both.combine? et = some ty →
    Derives s t (.expr (.ifElse h condition thenBody elseBody) true ty) (w.record h.id.ir ty)
  | ifElseIf {t u v w : TypeTable} {ct tt et : Ty} (h : Head)
      (condition thenBody elseIf : Expr) (final : Bool) :
    Derives s t (.expr condition false ct) u →
    Derives s u (.expr thenBody false tt) v →
    Derives s v (.expr elseIf false et) w →
    Derives s t (.expr (.ifElseIf h condition thenBody elseIf) final (.unit h.id.ir))
      (w.record h.id.ir (.unit h.id.ir))
  | blockUnit {t u : TypeTable} (h : Head) (body : List Stmt) (final : Bool) :
    Derives s t (.stmts body) u →
    Derives s t (.expr (.block h body none) final (.unit h.id.ir))
      (u.record h.id.ir (.unit h.id.ir))
  | block {t u v : TypeTable} {ty : Ty} (h : Head) (body : List Stmt) (tail : Expr)
      (final : Bool) :
    Derives s t (.stmts body) u →
    Derives s u (.expr tail final ty) v →
    Derives s t (.expr (.block h body (some tail)) final ty) (v.record h.id.ir ty)
  /-- The position is checked before the array. -/
  | index {t u v : TypeTable} {pt both element : Ty} {r : IrId} {capacity : Nat} (h : Head)
      (base position : Expr) (final : Bool) :
    Derives s t (.expr position false pt) u →
    (Ty.int position.ir .w32).combine? pt = some both →
    Derives s u (.expr base false (.array r element capacity)) v →
    Derives s t (.expr (.index h base position) final element) (v.record h.id.ir element)
  | indexError {t u v : TypeTable} {pt both : Ty} {r : IrId} (h : Head)
      (base position : Expr) (final : Bool) :
    Derives s t (.expr position false pt) u →
    (Ty.int position.ir .w32).combine? pt = some both →
    Derives s u (.expr base false (.error r)) v →
    Derives s t (.expr (.index h base position) final (.error r)) (v.record h.id.ir (.error r))
  | array {t u v : TypeTable} {ft element : Ty} {tys : List Ty} (h : Head) (first : Expr)
      (rest : List Expr) (final : Bool) :
    Derives s t (.expr first false ft) u →
    Derives s u (.exprs rest tys) v →
    ft.combineAll? tys = some element →
    Derives s t (.expr (.array h (first :: rest)) final (.array h.id.ir element (rest.length + 1)))
      (v.record h.id.ir (.array h.id.ir element (rest.length + 1)))
  | copies {t u : TypeTable} {ty : Ty} (h : Head) (element : Expr) (count : UInt64)
      (final : Bool) :
    Derives s t (.expr element false ty) u →
    Derives s t (.expr (.copies h element count) final (.array h.id.ir ty count.toNat))
      (u.record h.id.ir (.array h.id.ir ty count.toNat))
  | struct {t u : TypeTable} {decl : SurfaceId} {id r : IrId} {name : String} {decls : Members}
      (h : Head) (path : StructPath) (fields : List FieldInit) (final : Bool) :
    s.bindings.type? path.id.surface = some decl →
    s.registry.node? ⟨path.id.crate, decl⟩ = some id →
    t.get? id = some (.struct r name decls) →
    Derives s t (.fields decls fields) u →
    (∀ n ∈ decls.names, n ∈ fields.map FieldInit.name) →
    Derives s t (.expr (.struct h path fields) final (.struct r name decls))
      (u.record h.id.ir (.struct r name decls))
  | exprsNil (t : TypeTable) : Derives s t (.exprs [] []) t
  | exprsCons {t u v : TypeTable} {ty : Ty} {tys : List Ty} (e : Expr) (es : List Expr) :
    Derives s t (.expr e false ty) u →
    Derives s u (.exprs es tys) v →
    Derives s t (.exprs (e :: es) (ty :: tys)) v
  | argumentsNil (t : TypeTable) : Derives s t (.arguments .nil []) t
  | argumentsCons {t u v : TypeTable} {ty both : Ty} (name : String) (param : Ty)
      (params : Members) (e : Expr) (es : List Expr) :
    Derives s t (.expr e false ty) u →
    param.combine? ty = some both →
    Derives s u (.arguments params es) v →
    Derives s t (.arguments (.cons name param params) (e :: es)) v
  | fieldsNil (decls : Members) (t : TypeTable) : Derives s t (.fields decls []) t
  | fieldsCons {t u v : TypeTable} {dt vt ty : Ty} (decls : Members) (h : Head) (name : String)
      (value : Expr) (rest : List FieldInit) :
    Derives s t (.expr value false vt) u →
    decls.find? name = some dt →
    dt.combine? vt = some ty →
    Derives s (u.record h.id.ir ty) (.fields decls rest) v →
    Derives s t (.fields decls (.mk h name value :: rest)) v
  | effect {t u : TypeTable} {ty : Ty} (e : Expr) :
    Derives s t (.expr e false ty) u →
    Derives s t (.stmt (.expr e)) u
  | declare {t u : TypeTable} {annotated : Option Ty} (h : Head) (pattern : Pattern)
      (ascribed : Option TypeExpr) :
    Annotates? s t ascribed annotated u →
    Derives s t (.stmt (.bind h pattern ascribed none))
      ((u.record pattern.id.ir (annotated.getD (.infer h.id.ir))).record h.id.ir
        (annotated.getD (.infer h.id.ir)))
  | bind {t u v : TypeTable} {annotated : Option Ty} {vt ty : Ty} (h : Head) (pattern : Pattern)
      (ascribed : Option TypeExpr) (init : Expr) :
    Annotates? s t ascribed annotated u →
    Derives s u (.expr init false vt) v →
    boundType? annotated vt = some ty →
    Derives s t (.stmt (.bind h pattern ascribed (some init)))
      ((v.record pattern.id.ir ty).record h.id.ir ty)
  | stmtsNil (t : TypeTable) : Derives s t (.stmts []) t
  | stmtsCons {t u v : TypeTable} (st : Stmt) (rest : List Stmt) :
    Derives s t (.stmt st) u →
    Derives s u (.stmts rest) v →
    Derives s t (.stmts (st :: rest)) v

end Check

end MiddleEnd
