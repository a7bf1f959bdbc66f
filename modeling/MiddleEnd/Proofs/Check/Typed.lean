/-
  What it means that a table types a program: the rules for every form of expression, statement,
  annotation and item, stated about one table and nothing else.

  `Typed s T result j`: in table `T`, inside a function with the given result, judgement `j` holds.
  Every rule says what the table records for the node it is about. Where a rule compares two types
  it does so up to the identities they carry (`Ty.Alike`).
-/
import MiddleEnd.Proofs.Check.Judgement
import MiddleEnd.Proofs.Ty.Alike

namespace MiddleEnd.Check

/-! ## Annotations -/

/-- The annotation stands for the type, and the table says so. -/
inductive Denotes (s : Scope) (T : TypeTable) : TypeExpr → Ty → Prop
  | unit (h : Head) :
    T.get? h.id.ir = some (.unit h.id.ir) → Denotes s T (.unit h) (.unit h.id.ir)
  | array {element : TypeExpr} {ty : Ty} (h : Head) (capacity : UInt64) :
    Denotes s T element ty →
    T.get? h.id.ir = some (.array h.id.ir ty capacity.toNat) →
    Denotes s T (.array h element capacity) (.array h.id.ir ty capacity.toNat)
  | path {ty : Ty} (h : Head) (name : String) :
    pathType? s T h = some ty →
    T.get? h.id.ir = some ty →
    Denotes s T (.path h name) ty

/-- The annotation, if it is there, stands for the type. -/
inductive Denotes? (s : Scope) (T : TypeTable) : Option TypeExpr → Option Ty → Prop
  | none : Denotes? s T none none
  | some {a : TypeExpr} {ty : Ty} : Denotes s T a ty → Denotes? s T (some a) (some ty)

/-! ## Expressions and statements -/

inductive Typed (s : Scope) (T : TypeTable) (result : Option Ty) : Judgement → Prop
  | literal {ty : Ty} (h : Head) (lit : Literal) (final : Bool) :
    T.builtin? lit.primitive.name = some ty →
    T.get? h.id.ir = some ty →
    Typed s T result (.expr (.literal h lit) final ty)
  /-- A name has the type of its declaration. -/
  | identifier {id : IrId} {ty declared : Ty} (h : Head) (name : String) (final : Bool) :
    declaration s (.identifier h name) = .ok id →
    T.get? id = some declared →
    ty.Alike declared →
    T.get? h.id.ir = some ty →
    Typed s T result (.expr (.identifier h name) final ty)
  | retUnit {r : Ty} (h : Head) (final : Bool) :
    result = some r →
    (Ty.unit h.id.ir).Alike r →
    T.get? h.id.ir = some r →
    Typed s T result (.expr (.ret h none) final r)
  | ret {r ty : Ty} (h : Head) (value : Expr) (final : Bool) :
    result = some r →
    Typed s T result (.expr value false ty) →
    ty.Alike r →
    T.get? h.id.ir = some r →
    Typed s T result (.expr (.ret h (some value)) final r)
  | call {decl : SurfaceId} {id r : IrId} {params : Members} {ty : Ty} (h : Head)
      (callee : Expr) (args : List Expr) (final : Bool) :
    s.bindings.name? callee.surface = some decl →
    s.registry.node? ⟨h.id.crate, decl⟩ = some id →
    T.get? id = some (.fn r params ty) →
    params.length = args.length →
    Typed s T result (.arguments params args) →
    T.get? h.id.ir = some ty →
    Typed s T result (.expr (.call h callee args) final ty)
  | assign {ty tt vt : Ty} (h : Head) (target value : Expr) (final : Bool) :
    Typed s T result (.expr target false tt) →
    Typed s T result (.expr value false vt) →
    tt.Alike ty →
    vt.Alike ty →
    T.get? h.id.ir = some ty →
    Typed s T result (.expr (.assign h target value) final ty)
  | binary {ty lt rt : Ty} (h : Head) (op : BinaryOp) (lhs rhs : Expr) (final : Bool) :
    Typed s T result (.expr lhs false lt) →
    Typed s T result (.expr rhs false rt) →
    lt.Alike ty →
    rt.Alike ty →
    T.get? h.id.ir = some ty →
    Typed s T result (.expr (.binary h op lhs rhs) final ty)
  | ifOnly {ct bt : Ty} (h : Head) (condition body : Expr) (final : Bool) :
    Typed s T result (.expr condition false ct) →
    Typed s T result (.expr body false bt) →
    T.get? h.id.ir = some (.unit h.id.ir) →
    Typed s T result (.expr (.ifOnly h condition body) final (.unit h.id.ir))
  | ifElse {ct tt et : Ty} (h : Head) (condition thenBody elseBody : Expr) :
    Typed s T result (.expr condition false ct) →
    Typed s T result (.expr thenBody false tt) →
    Typed s T result (.expr elseBody false et) →
    T.get? h.id.ir = some (.unit h.id.ir) →
    Typed s T result (.expr (.ifElse h condition thenBody elseBody) false (.unit h.id.ir))
  /-- In tail position both branches have the result of the function. -/
  | ifElseFinal {r ct tt et : Ty} (h : Head) (condition thenBody elseBody : Expr) :
    result = some r →
    Typed s T result (.expr condition false ct) →
    Typed s T result (.expr thenBody true tt) →
    Typed s T result (.expr elseBody true et) →
    tt.Alike r →
    et.Alike r →
    T.get? h.id.ir = some r →
    Typed s T result (.expr (.ifElse h condition thenBody elseBody) true r)
  | ifElseIf {ct tt et : Ty} (h : Head) (condition thenBody elseIf : Expr) (final : Bool) :
    Typed s T result (.expr condition false ct) →
    Typed s T result (.expr thenBody false tt) →
    Typed s T result (.expr elseIf false et) →
    T.get? h.id.ir = some (.unit h.id.ir) →
    Typed s T result (.expr (.ifElseIf h condition thenBody elseIf) final (.unit h.id.ir))
  | blockUnit (h : Head) (body : List Stmt) (final : Bool) :
    Typed s T result (.stmts body) →
    T.get? h.id.ir = some (.unit h.id.ir) →
    Typed s T result (.expr (.block h body none) final (.unit h.id.ir))
  | block {ty : Ty} (h : Head) (body : List Stmt) (tail : Expr) (final : Bool) :
    Typed s T result (.stmts body) →
    Typed s T result (.expr tail final ty) →
    T.get? h.id.ir = some ty →
    Typed s T result (.expr (.block h body (some tail)) final ty)
  | index {pt element : Ty} {r : IrId} {capacity : Nat} (h : Head) (base position : Expr)
      (final : Bool) :
    Typed s T result (.expr position false pt) →
    pt.Alike (.int position.ir .w32) →
    Typed s T result (.expr base false (.array r element capacity)) →
    T.get? h.id.ir = some element →
    Typed s T result (.expr (.index h base position) final element)
  | array {ty : Ty} {tys : List Ty} (h : Head) (first : Expr) (rest : List Expr) (final : Bool) :
    Typed s T result (.expr first false ty) →
    Typed s T result (.exprs rest tys) →
    (∀ t ∈ tys, t.Alike ty) →
    T.get? h.id.ir = some (.array h.id.ir ty (rest.length + 1)) →
    Typed s T result (.expr (.array h (first :: rest)) final (.array h.id.ir ty (rest.length + 1)))
  | copies {ty : Ty} (h : Head) (element : Expr) (count : UInt64) (final : Bool) :
    Typed s T result (.expr element false ty) →
    T.get? h.id.ir = some (.array h.id.ir ty count.toNat) →
    Typed s T result (.expr (.copies h element count) final (.array h.id.ir ty count.toNat))
  | struct {decl : SurfaceId} {id r : IrId} {name : String} {decls : Members} (h : Head)
      (path : StructPath) (fields : List FieldInit) (final : Bool) :
    s.bindings.type? path.id.surface = some decl →
    s.registry.node? ⟨path.id.crate, decl⟩ = some id →
    T.get? id = some (.struct r name decls) →
    Typed s T result (.fields decls fields) →
    (∀ n ∈ decls.names, n ∈ fields.map FieldInit.name) →
    T.get? h.id.ir = some (.struct r name decls) →
    Typed s T result (.expr (.struct h path fields) final (.struct r name decls))
  | exprsNil : Typed s T result (.exprs [] [])
  | exprsCons {ty : Ty} {tys : List Ty} (e : Expr) (es : List Expr) :
    Typed s T result (.expr e false ty) →
    Typed s T result (.exprs es tys) →
    Typed s T result (.exprs (e :: es) (ty :: tys))
  | argumentsNil : Typed s T result (.arguments .nil [])
  | argumentsCons {ty : Ty} (name : String) (param : Ty) (params : Members) (e : Expr)
      (es : List Expr) :
    Typed s T result (.expr e false ty) →
    ty.Alike param →
    Typed s T result (.arguments params es) →
    Typed s T result (.arguments (.cons name param params) (e :: es))
  | fieldsNil (decls : Members) : Typed s T result (.fields decls [])
  | fieldsCons {declared ty : Ty} (decls : Members) (h : Head) (name : String) (value : Expr)
      (rest : List FieldInit) :
    Typed s T result (.expr value false ty) →
    decls.find? name = some declared →
    ty.Alike declared →
    T.get? h.id.ir = some declared →
    Typed s T result (.fields decls rest) →
    Typed s T result (.fields decls (.mk h name value :: rest))
  | effect {ty : Ty} (e : Expr) :
    Typed s T result (.expr e false ty) →
    Typed s T result (.stmt (.expr e))
  | declare {annotated : Option Ty} (h : Head) (pattern : Pattern)
      (ascribed : Option TypeExpr) :
    Denotes? s T ascribed annotated →
    (∀ a, annotated = some a → ∃ ty, T.get? h.id.ir = some ty ∧ a.Alike ty) →
    Typed s T result (.stmt (.bind h pattern ascribed none))
  | bind {annotated : Option Ty} {vt ty : Ty} (h : Head) (pattern : Pattern)
      (ascribed : Option TypeExpr) (init : Expr) :
    Denotes? s T ascribed annotated →
    Typed s T result (.expr init false vt) →
    T.get? h.id.ir = some ty →
    (∀ a, annotated = some a → a.Alike ty) →
    vt.Alike ty →
    Typed s T result (.stmt (.bind h pattern ascribed (some init)))
  | stmtsNil : Typed s T result (.stmts [])
  | stmtsCons (st : Stmt) (rest : List Stmt) :
    Typed s T result (.stmt st) →
    Typed s T result (.stmts rest) →
    Typed s T result (.stmts (st :: rest))

/-! ## Items -/

inductive TypedParams (s : Scope) (T : TypeTable) : List Param → Members → Prop
  | nil : TypedParams s T [] .nil
  | cons {p : Param} {rest : List Param} {ty : Ty} {ms : Members} :
    Denotes s T p.type ty →
    T.get? p.head.id.ir = some ty →
    T.get? p.pattern.id.ir = some ty →
    TypedParams s T rest ms →
    TypedParams s T (p :: rest) (.cons p.pattern.name ty ms)

inductive TypedFields (s : Scope) (T : TypeTable) : List FieldDecl → Members → Prop
  | nil : TypedFields s T [] .nil
  | cons {f : FieldDecl} {rest : List FieldDecl} {ty : Ty} {ms : Members} :
    Denotes s T f.type ty →
    T.get? f.head.id.ir = some (.field f.head.id.ir f.name ty) →
    TypedFields s T rest ms →
    TypedFields s T (f :: rest) (.cons f.name ty ms)

/-- The type that the signature of the item stands for. -/
inductive TypedSignature (s : Scope) (T : TypeTable) : Item → Ty → Prop
  | function {ps : Members} {result : Option Ty} (h : Head) (d : FunctionDecl) :
    TypedParams s T d.params ps →
    Denotes? s T d.returns result →
    TypedSignature s T ⟨h, .function d⟩ (.fn h.id.ir ps (result.getD (.unit h.id.ir)))
  | struct {fs : Members} (h : Head) (d : StructDecl) :
    TypedFields s T d.fields fs →
    TypedSignature s T ⟨h, .struct d⟩ (.struct h.id.ir d.name fs)
  | constant {ty : Ty} (h : Head) (d : ConstantDecl) :
    Denotes s T d.type ty → TypedSignature s T ⟨h, .constant d⟩ ty
  | static {ty : Ty} (h : Head) (d : StaticDecl) :
    Denotes s T d.type ty → TypedSignature s T ⟨h, .static d⟩ ty

/-- The body or initial value of the item fits its type. -/
inductive TypedBody (s : Scope) (T : TypeTable) : Item → Ty → Prop
  | function {r : IrId} {ps : Members} {result ty : Ty} (h : Head) (d : FunctionDecl) :
    Typed s T (some result) (.expr d.body true ty) →
    (∀ tail, d.body.tail? = some tail → ty.Alike result) →
    TypedBody s T ⟨h, .function d⟩ (.fn r ps result)
  | struct {ty : Ty} (h : Head) (d : StructDecl) : TypedBody s T ⟨h, .struct d⟩ ty
  | constant {declared ty : Ty} (h : Head) (d : ConstantDecl) :
    Typed s T none (.expr d.value false ty) →
    ty.Alike declared →
    TypedBody s T ⟨h, .constant d⟩ declared
  | static {declared ty : Ty} (h : Head) (d : StaticDecl) :
    Typed s T none (.expr d.value false ty) →
    ty.Alike declared →
    TypedBody s T ⟨h, .static d⟩ declared

/-- The item has the type of its signature, and its body or initial value fits it. -/
def TypedItem (s : Scope) (T : TypeTable) (i : Item) : Prop :=
  ∃ ty, TypedSignature s T i ty ∧ T.get? i.head.id.ir = some ty ∧ TypedBody s T i ty

/-- Every item of the program is typed. -/
def TypedProgram (s : Scope) (T : TypeTable) (p : Program) : Prop := ∀ i ∈ p.items, TypedItem s T i

end MiddleEnd.Check
