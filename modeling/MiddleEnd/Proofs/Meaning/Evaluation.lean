/-
  What bodies mean: a big-step semantics of expressions and statements, with a store keyed by
  declaration. Evaluation goes from left to right, an assignment has the value that it assigns, and
  a `return` leaves everything around it. Calls and arrays of copies have no meaning here.

  `Evaluates k O P s c r s'`: in store `s`, code `c` comes to `r` and leaves store `s'`. Types are
  asked for twice only: a conditional of the unit type has no value but unit, and the fields of a
  struct are put in the order of their declaration. At every block and every conditional with two
  branches `P` is asked about what it comes to; `P` makes no difference where it always holds.
-/
import Mathlib.Logic.Function.Basic
import MiddleEnd.Proofs.Lower.Remains
import MiddleEnd.Proofs.Meaning.Operators

namespace MiddleEnd

variable {V : Type}

/-- The values of declarations, as far as they have any. -/
abbrev Store (V : Type) := IrId → Option (Value V)

/-- What is evaluated. -/
inductive Code
  | expr (e : Expr)
  | exprs (es : List Expr)
  | stmt (st : Stmt)
  | stmts (sts : List Stmt)

/-- What code comes to. -/
inductive Result (V : Type)
  | value (v : Value V)
  /-- The data that operands come to. -/
  | values (vs : List V)
  | returned (v : Value V)

namespace Result

/-- What remains where the value is not asked for. -/
def dropped : Result V → Result V
  | .value _ => .value .unit
  | r => r

theorem dropped_eq_value {r : Result V} {v : Value V} (h : r.dropped = .value v) :
    (∃ w, r = .value w) ∧ v = .unit := by
  cases r with
  | value w =>
    cases h
    exact ⟨⟨w, rfl⟩, rfl⟩
  | values ws => cases h
  | returned w => cases h

/-- What a function returns whose body comes to this. -/
def output? : Result V → Option (Value V)
  | .value v => some v
  | .values _ => none
  | .returned v => some v

end Result

namespace Expr

/-- The expressions that are all evaluated before the expression itself is. -/
def strict : Expr → List Expr
  | .binary _ (.lazy _) _ _ => []
  | .binary _ _ lhs rhs => [lhs, rhs]
  | .index _ base position => [base, position]
  | .array _ values => values
  | .struct _ _ fields => fields.map FieldInit.value
  | _ => []

/-- The expression that decides how evaluation goes on. -/
def first? : Expr → Option Expr
  | .binary _ (.lazy _) lhs _ => some lhs
  | .ifOnly _ condition _ => some condition
  | .ifElse _ condition _ _ => some condition
  | .ifElseIf _ condition _ _ => some condition
  | _ => none

end Expr

/-- The values of fields in the order of their declaration. -/
def arranged? (given : List (String × V)) (names : List String) : Option (List V) :=
  names.mapM fun name => List.lookup name given

section

variable (k : Checked) (O : Operators V) (P : Expr → Result V → Prop)

inductive Evaluates : Store V → Code → Result V → Store V → Prop
  | literal {s : Store V} {v : V} (h : Head) (lit : Literal) :
    lit.value? O = some v →
    Evaluates s (.expr (.literal h lit)) (.value (.data v)) s
  | identifier {s : Store V} {id : IrId} {v : Value V} (h : Head) (name : String) :
    Check.declaration k.scope (.identifier h name) = .ok id →
    s id = some v →
    Evaluates s (.expr (.identifier h name)) (.value v) s
  | retUnit {s : Store V} (h : Head) : Evaluates s (.expr (.ret h none)) (.returned .unit) s
  | ret {s s' : Store V} {v : Value V} (h : Head) (e : Expr) :
    Evaluates s (.expr e) (.value v) s' →
    Evaluates s (.expr (.ret h (some e))) (.returned v) s'
  | retLeft {s s' : Store V} {v : Value V} (h : Head) (e : Expr) :
    Evaluates s (.expr e) (.returned v) s' →
    Evaluates s (.expr (.ret h (some e))) (.returned v) s'
  | assign {s s' : Store V} {id : IrId} {v : Value V} (h g : Head) (name : String) (e : Expr) :
    Check.declaration k.scope (.identifier g name) = .ok id →
    Evaluates s (.expr e) (.value v) s' →
    Evaluates s (.expr (.assign h (.identifier g name) e)) (.value v)
      (Function.update s' id (some v))
  | assignLeft {s s' : Store V} {v : Value V} (h g : Head) (name : String) (e : Expr) :
    Evaluates s (.expr e) (.returned v) s' →
    Evaluates s (.expr (.assign h (.identifier g name) e)) (.returned v) s'
  | binary {s s' : Store V} {a b v : V} (h : Head) (op : BinaryOp) (lhs rhs : Expr) :
    op.isLazy = false →
    Evaluates s (.exprs [lhs, rhs]) (.values [a, b]) s' →
    O.strict op a b = some v →
    Evaluates s (.expr (.binary h op lhs rhs)) (.value (.data v)) s'
  | decided {s s' : Store V} {a : V} (h : Head) (op : LazyOp) (lhs rhs : Expr) :
    Evaluates s (.expr lhs) (.value (.data a)) s' →
    O.truth a = op.decisive →
    Evaluates s (.expr (.binary h (.lazy op) lhs rhs)) (.value (.data (O.bool op.decisive))) s'
  | undecided {s s₁ s' : Store V} {a b : V} (h : Head) (op : LazyOp) (lhs rhs : Expr) :
    Evaluates s (.expr lhs) (.value (.data a)) s₁ →
    O.truth a ≠ op.decisive →
    Evaluates s₁ (.expr rhs) (.value (.data b)) s' →
    Evaluates s (.expr (.binary h (.lazy op) lhs rhs)) (.value (.data (O.bool (O.truth b)))) s'
  | undecidedLeft {s s₁ s' : Store V} {a : V} {v : Value V} (h : Head) (op : LazyOp)
      (lhs rhs : Expr) :
    Evaluates s (.expr lhs) (.value (.data a)) s₁ →
    O.truth a ≠ op.decisive →
    Evaluates s₁ (.expr rhs) (.returned v) s' →
    Evaluates s (.expr (.binary h (.lazy op) lhs rhs)) (.returned v) s'
  | index {s s' : Store V} {a i v : V} (h : Head) (base position : Expr) :
    Evaluates s (.exprs [base, position]) (.values [a, i]) s' →
    O.index a i = some v →
    Evaluates s (.expr (.index h base position)) (.value (.data v)) s'
  | array {s s' : Store V} {vs : List V} (h : Head) (values : List Expr) :
    Evaluates s (.exprs values) (.values vs) s' →
    Evaluates s (.expr (.array h values)) (.value (.data (O.array vs))) s'
  | struct {s s' : Store V} {r : IrId} {name : String} {decls : Members} {vs ws : List V} (h : Head)
      (path : StructPath) (fields : List FieldInit) :
    k.types.get? h.id.ir = some (.struct r name decls) →
    Evaluates s (.exprs (fields.map FieldInit.value)) (.values vs) s' →
    arranged? ((fields.map FieldInit.name).zip vs) decls.names = some ws →
    Evaluates s (.expr (.struct h path fields)) (.value (.data (O.struct ws))) s'
  /-- A `return` among the operands. -/
  | strictLeft {s s' : Store V} {v : Value V} (e : Expr) :
    Evaluates s (.exprs e.strict) (.returned v) s' →
    Evaluates s (.expr e) (.returned v) s'
  | firstLeft {s s' : Store V} {v : Value V} (e f : Expr) :
    e.first? = some f →
    Evaluates s (.expr f) (.returned v) s' →
    Evaluates s (.expr e) (.returned v) s'
  | ifTaken {s s₁ s' : Store V} {a : V} {r : Result V} (h : Head) (condition body : Expr) :
    Evaluates s (.expr condition) (.value (.data a)) s₁ →
    O.truth a = true →
    Evaluates s₁ (.expr body) r s' →
    Evaluates s (.expr (.ifOnly h condition body)) r.dropped s'
  | ifSkipped {s s' : Store V} {a : V} (h : Head) (condition body : Expr) :
    Evaluates s (.expr condition) (.value (.data a)) s' →
    O.truth a = false →
    Evaluates s (.expr (.ifOnly h condition body)) (.value .unit) s'
  | ifElse {s s₁ s' : Store V} {a : V} {t : Ty} {r : Result V} (h : Head)
      (condition thenBody elseBody : Expr) :
    k.types.get? h.id.ir = some t →
    Evaluates s (.expr condition) (.value (.data a)) s₁ →
    Evaluates s₁ (.expr (if O.truth a then thenBody else elseBody)) r s' →
    P (.ifElse h condition thenBody elseBody) r →
    Evaluates s (.expr (.ifElse h condition thenBody elseBody))
      (if t.isUnit then r.dropped else r) s'
  | ifElseIf {s s₁ s' : Store V} {a : V} {r : Result V} (h : Head)
      (condition thenBody elseIf : Expr) :
    Evaluates s (.expr condition) (.value (.data a)) s₁ →
    Evaluates s₁ (.expr (if O.truth a then thenBody else elseIf)) r s' →
    Evaluates s (.expr (.ifElseIf h condition thenBody elseIf)) r.dropped s'
  | blockUnit {s s' : Store V} {r : Result V} (h : Head) (sts : List Stmt) :
    Evaluates s (.stmts sts) r s' →
    P (.block h sts none) r →
    Evaluates s (.expr (.block h sts none)) r s'
  | block {s s₁ s' : Store V} {r : Result V} (h : Head) (sts : List Stmt) (tail : Expr) :
    Evaluates s (.stmts sts) (.value .unit) s₁ →
    Evaluates s₁ (.expr tail) r s' →
    P (.block h sts (some tail)) r →
    Evaluates s (.expr (.block h sts (some tail))) r s'
  | blockLeft {s s' : Store V} {v : Value V} (h : Head) (sts : List Stmt) (tail : Expr) :
    Evaluates s (.stmts sts) (.returned v) s' →
    Evaluates s (.expr (.block h sts (some tail))) (.returned v) s'
  | exprsNil {s : Store V} : Evaluates s (.exprs []) (.values []) s
  | exprsCons {s s₁ s' : Store V} {v : V} {vs : List V} (e : Expr) (rest : List Expr) :
    Evaluates s (.expr e) (.value (.data v)) s₁ →
    Evaluates s₁ (.exprs rest) (.values vs) s' →
    Evaluates s (.exprs (e :: rest)) (.values (v :: vs)) s'
  | exprsLeft {s s' : Store V} {v : Value V} (e : Expr) (rest : List Expr) :
    Evaluates s (.expr e) (.returned v) s' →
    Evaluates s (.exprs (e :: rest)) (.returned v) s'
  | exprsRight {s s₁ s' : Store V} {v : V} {w : Value V} (e : Expr) (rest : List Expr) :
    Evaluates s (.expr e) (.value (.data v)) s₁ →
    Evaluates s₁ (.exprs rest) (.returned w) s' →
    Evaluates s (.exprs (e :: rest)) (.returned w) s'
  | effect {s s' : Store V} {r : Result V} (e : Expr) :
    Evaluates s (.expr e) r s' →
    Evaluates s (.stmt (.expr e)) r.dropped s'
  | declare {s : Store V} (h : Head) (pattern : Pattern) (ascribed : Option TypeExpr) :
    Evaluates s (.stmt (.bind h pattern ascribed none)) (.value .unit)
      (Function.update s h.id.ir none)
  | bind {s s' : Store V} {v : Value V} (h : Head) (pattern : Pattern)
      (ascribed : Option TypeExpr) (init : Expr) :
    Evaluates s (.expr init) (.value v) s' →
    Evaluates s (.stmt (.bind h pattern ascribed (some init))) (.value .unit)
      (Function.update s' h.id.ir (some v))
  | bindLeft {s s' : Store V} {v : Value V} (h : Head) (pattern : Pattern)
      (ascribed : Option TypeExpr) (init : Expr) :
    Evaluates s (.expr init) (.returned v) s' →
    Evaluates s (.stmt (.bind h pattern ascribed (some init))) (.returned v) s'
  | stmtsNil {s : Store V} : Evaluates s (.stmts []) (.value .unit) s
  | stmtsCons {s s₁ s' : Store V} {r : Result V} (st : Stmt) (rest : List Stmt) :
    Evaluates s (.stmt st) (.value .unit) s₁ →
    Evaluates s₁ (.stmts rest) r s' →
    Evaluates s (.stmts (st :: rest)) r s'
  | stmtsLeft {s s' : Store V} {v : Value V} (st : Stmt) (rest : List Stmt) :
    Evaluates s (.stmt st) (.returned v) s' →
    Evaluates s (.stmts (st :: rest)) (.returned v) s'

end

/-! ## What code comes to -/

/-- Expressions do not come to the values of operands, and statements to no value but unit. -/
def Code.Comes (c : Code) (r : Result V) : Prop :=
  match c with
  | .expr _ => ∀ vs, r ≠ .values vs
  | .exprs _ => True
  | .stmt _ | .stmts _ => (∀ vs, r ≠ .values vs) ∧ ∀ v, r = .value v → v = .unit

theorem Result.dropped_ne {r : Result V} (h : ∀ vs, r ≠ .values vs) (vs : List V) :
    r.dropped ≠ .values vs := by
  cases r with
  | values ws => exact absurd rfl (h ws)
  | _ => nofun

theorem Evaluates.comes {k : Checked} {O : Operators V} {P : Expr → Result V → Prop}
    {s s' : Store V} {c : Code} {r : Result V} (h : Evaluates k O P s c r s') : c.Comes r := by
  induction h with
  | ifTaken h condition body _ _ _ _ ih => exact Result.dropped_ne ih
  | ifElseIf h condition thenBody elseIf _ _ _ ih => exact Result.dropped_ne ih
  | @ifElse s s₁ s' a t r h condition thenBody elseBody _ _ _ _ _ ih =>
    cases t.isUnit with
    | true => exact Result.dropped_ne ih
    | false => exact ih
  | blockUnit h sts _ _ ih => exact ih.1
  | block h sts tail _ _ _ _ ih => exact ih
  | effect e _ ih => exact ⟨Result.dropped_ne ih, fun v hv => (Result.dropped_eq_value hv).2⟩
  | stmtsCons st rest _ _ _ ih => exact ih
  | declare | bind | stmtsNil =>
    refine ⟨nofun, ?_⟩
    rintro _ ⟨⟩
    rfl
  | bindLeft | stmtsLeft => exact ⟨nofun, nofun⟩
  | exprsNil | exprsCons | exprsLeft | exprsRight => trivial
  | _ => exact nofun

/-- The store with the arguments of a function. -/
def FunctionDecl.start (d : FunctionDecl) (args : List (Value V)) : Store V := fun id =>
  List.lookup id ((d.params.map (·.head.id.ir)).zip args)

/-- The function returns a value for these arguments. -/
def FunctionDecl.Returns (k : Checked) (O : Operators V) (d : FunctionDecl) (args : List (Value V))
    (v : Value V) : Prop :=
  ∃ r s', Evaluates k O (fun _ _ => True) (d.start args) (.expr d.body) r s' ∧ r.output? = some v

end MiddleEnd
