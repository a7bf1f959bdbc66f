/-
  What lowering emits, as a relation between the checked tree and the C program.

  `Emits k g B m j added m'`: lowering job `j` adds the statements `added` to the innermost open
  block. Blocks are referred to by number, and `B` says what stands in them. Of the state of
  lowering only the variables matter (`Slots`, from `m` to `m'`); what is fixed while bodies are
  lowered is in `g`. One rule per form of expression and statement.

  The names of variables are left open, since nothing but the text depends on them.
-/
import MiddleEnd.Lower.Program

namespace MiddleEnd.Lower

/-- The variables of declarations, and the number of the next variable. -/
structure Slots where
  vars : IrId → Option C.VarId
  next : Nat

namespace Slots

/-- The variable that comes next. -/
def var (m : Slots) : C.VarId := ⟨m.next⟩

/-- One more variable, for no declaration. -/
def fresh (m : Slots) : Slots := { m with next := m.next + 1 }

/-- One more variable, for declaration `id`. -/
def declare (m : Slots) (id : IrId) : Slots :=
  ⟨fun other => if other = id then some m.var else m.vars other, m.next + 1⟩

end Slots

/-- What stays fixed while bodies are lowered. -/
structure Setting where
  functions : IrId → Option C.FunctionId
  names : C.FunctionId → String
  constants : IrId → Option C.Expr
  types : IrId → Option C.Ty

/-- What is to be lowered, and what it comes to. -/
inductive Job
  | expr (e : Expr) (value : C.Expr)
  | exprs (es : List Expr) (values : List C.Expr)
  /-- Values of fields, by name. -/
  | fields (inOrder : Bool) (fs : List FieldInit) (values : List (String × C.Expr))
  /-- The last expression of a block. -/
  | tail (e : Option Expr) (value : Option C.Expr)
  /-- What stands in the block of a branch, and the value it may have there. -/
  | inner (e : Expr) (value : Option C.Expr)
  /-- The block of a branch, which leaves its value in the target, if there are both. -/
  | branch (target : Option C.VarId) (e : Expr)
  | stmt (st : Stmt)
  | stmts (sts : List Stmt)

/-- A type whose C type is entered before bodies are lowered. -/
def isEntered : Ty → Bool
  | .bool _ | .int .. | .uint .. | .float .. | .struct .. => true
  | _ => false

/-- The C type of a type: entered beforehand, or the wrapper of an array. -/
inductive Compiles (g : Setting) : Ty → C.Ty → Prop
  | entered {t : Ty} {ct : C.Ty} : isEntered t = true → g.types t.ref = some ct → Compiles g t ct
  | array {r : IrId} {element : Ty} {capacity : Nat} {ct et : C.Ty} :
    Compiles g element et → Compiles g (.array r element capacity) ct

/-- The constant that a literal spells. -/
inductive Spells (k : Checked) (g : Setting) (id : IrId) (lit : Literal) : C.Expr → Prop
  | bool {b : Bool} :
    lit.kind = .bool →
    bool? (plainSpelling lit.spelling) = some b →
    Spells k g id lit (.bool b)
  | int {t : Ty} {ct : C.Ty} {n : Int} :
    lit.kind = .int →
    k.types.get? id = some t →
    isFloat t = false →
    int? (plainSpelling lit.spelling) = some n →
    Compiles g t ct →
    Spells k g id lit (.int ct n)
  | float {t : Ty} {ct : C.Ty} {v : Binary.Value} :
    lit.kind ≠ .bool →
    (lit.kind = .int → isFloat t = true) →
    k.types.get? id = some t →
    Binary.binary64.ofText? (plainSpelling lit.spelling) = some v →
    Compiles g t ct →
    Spells k g id lit (.float ct v)

/-- The C function that a callee names. -/
def Callee (k : Checked) (g : Setting) (callee : Expr) (f : C.FunctionId) : Prop :=
  ∃ decl id, k.scope.bindings.name? callee.surface = some decl ∧
    k.scope.registry.node? ⟨callee.head.id.crate, decl⟩ = some id ∧ g.functions id = some f

/-- The expression has a value that a block may leave behind. -/
def Valued (k : Checked) : Expr → Prop
  | .ret .. => False
  | e => ∃ t, k.types.get? e.ir = some t ∧ t.isUnit = false

/-- The expression has no value that a block may leave behind. -/
def Valueless (k : Checked) : Expr → Prop
  | .ret .. => True
  | e => ∃ t, k.types.get? e.ir = some t ∧ t.isUnit = true

/-- A new temporary variable for a value of this type, and its declaration; none for unit. -/
inductive Temporary (g : Setting) (m : Slots) : Ty → Option C.VarId → List C.Stmt → Slots → Prop
  | none {t : Ty} : t.isUnit = true → Temporary g m t none [] m
  | some {t : Ty} {ct : C.Ty} (name : String) (declared : C.Ty) :
    t.isUnit = false →
    Compiles g t ct →
    Temporary g m t (some m.var) [.declare m.var declared name none] m.fresh

/-- The value left in a variable, if there is one. -/
inductive Loads : Option C.VarId → C.Expr → Prop
  | none : Loads none .unit
  | some (v : C.VarId) (name : String) : Loads (some v) (.var v name)

/-- Assigning a value to a variable, if there are both. -/
inductive Stores : Option C.VarId → Option C.Expr → List C.Stmt → Prop
  | noTarget (value : Option C.Expr) : Stores none value []
  | noValue (target : Option C.VarId) : Stores target none []
  | both (v : C.VarId) (name : String) (value : C.Expr) :
    Stores (some v) (some value) [.assign (.var v name) value]

/-- Keeping a value in a variable for later, if there is one: what is kept, and what it takes. -/
inductive Keeps : Option C.VarId → C.Expr → C.Expr → List C.Stmt → Prop
  | asItIs (value : C.Expr) : Keeps none value value []
  | moved (v : C.VarId) (name spelled : String) (value : C.Expr) :
    Keeps (some v) value (.var v name) [.assign (.var v spelled) value]

/-- The values of fields in the order of the declaration, if all are there. -/
def declaredOrder? (given : List (String × C.Expr)) : List String → Option (List C.Expr)
  | [] => some []
  | name :: rest => (given.lookup name).bind fun v =>
    (declaredOrder? (given.filter (·.1 ≠ name)) rest).map (v :: ·)

inductive Emits (k : Checked) (g : Setting) (B : C.BlockId → List C.Stmt) :
    Slots → Job → List C.Stmt → Slots → Prop
  | literal {m : Slots} {v : C.Expr} (h : Head) (lit : Literal) :
    Spells k g h.id.ir lit v →
    Emits k g B m (.expr (.literal h lit) v) [] m
  | use {m : Slots} {id : IrId} {v : C.VarId} (h : Head) (name spelled : String) :
    Check.declaration k.scope (.identifier h name) = .ok id →
    m.vars id = some v →
    Emits k g B m (.expr (.identifier h name) (.var v spelled)) [] m
  | constant {m : Slots} {id : IrId} {v : C.Expr} (h : Head) (name : String) :
    Check.declaration k.scope (.identifier h name) = .ok id →
    m.vars id = none →
    g.constants id = some v →
    Emits k g B m (.expr (.identifier h name) v) [] m
  | retUnit {m : Slots} (h : Head) : Emits k g B m (.expr (.ret h none) .unit) [.ret none] m
  | ret {m m' : Slots} {v : C.Expr} {a : List C.Stmt} (h : Head) (value : Expr) :
    Emits k g B m (.expr value v) a m' →
    Emits k g B m (.expr (.ret h (some value)) .unit) (a ++ [.ret (some v)]) m'
  | call {m m' : Slots} {f : C.FunctionId} {vs : List C.Expr} {a : List C.Stmt} (h : Head)
      (callee : Expr) (args : List Expr) :
    Callee k g callee f →
    Emits k g B m (.exprs args vs) a m' →
    Emits k g B m (.expr (.call h callee args) (.call f (g.names f) vs)) a m'
  | assign {m m₁ m' : Slots} {t v : C.Expr} {a b : List C.Stmt} (h : Head) (target value : Expr) :
    Emits k g B m (.expr target t) a m₁ →
    Emits k g B m₁ (.expr value v) b m' →
    Emits k g B m (.expr (.assign h target value) t) (a ++ (b ++ [.assign t v])) m'
  | binary {m m₁ m' : Slots} {lv rv : C.Expr} {a b : List C.Stmt} (h : Head) (op : BinaryOp)
      (lhs rhs : Expr) :
    Emits k g B m (.expr lhs lv) a m₁ →
    Emits k g B m₁ (.expr rhs rv) b m' →
    Emits k g B m (.expr (.binary h op lhs rhs) (.binary op lv rv)) (a ++ b) m'
  | ifOnly {m m₁ m' : Slots} {c : C.Expr} {a : List C.Stmt} (h : Head) (condition body : Expr)
      (b : C.BlockId) :
    Emits k g B m (.expr condition c) a m₁ →
    Emits k g B m₁ (.branch none body) (B b) m' →
    Emits k g B m (.expr (.ifOnly h condition body) .unit) (a ++ [.branch c b none]) m'
  | ifElse {m m₁ m₂ m₃ m' : Slots} {t : Ty} {c v : C.Expr} {target : Option C.VarId}
      {a d : List C.Stmt} (h : Head) (condition thenBody elseBody : Expr) (x y : C.BlockId) :
    k.types.get? h.id.ir = some t →
    Emits k g B m (.expr condition c) a m₁ →
    Temporary g m₁ t target d m₂ →
    Emits k g B m₂ (.branch target thenBody) (B x) m₃ →
    Emits k g B m₃ (.branch target elseBody) (B y) m' →
    Loads target v →
    Emits k g B m (.expr (.ifElse h condition thenBody elseBody) v)
      (a ++ (d ++ [.branch c x (some y)])) m'
  | ifElseIf {m m₁ m₂ m' : Slots} {c : C.Expr} {a : List C.Stmt} (h : Head)
      (condition thenBody elseIf : Expr) (x y : C.BlockId) :
    Emits k g B m (.expr condition c) a m₁ →
    Emits k g B m₁ (.branch none thenBody) (B x) m₂ →
    Emits k g B m₂ (.branch none elseIf) (B y) m' →
    Emits k g B m (.expr (.ifElseIf h condition thenBody elseIf) .unit)
      (a ++ [.branch c x (some y)]) m'
  | block {m m₁ m' : Slots} {t : Ty} {v : C.Expr} {target : Option C.VarId} {d : List C.Stmt}
      (h : Head) (ss : List Stmt) (tail : Option Expr) (x : C.BlockId) :
    k.types.get? h.id.ir = some t →
    Temporary g m t target d m₁ →
    Emits k g B m₁ (.branch target (.block h ss tail)) (B x) m' →
    Loads target v →
    Emits k g B m (.expr (.block h ss tail) v) (d ++ [.block x]) m'
  | index {m m₁ m' : Slots} {bv pv : C.Expr} {a b : List C.Stmt} (h : Head)
      (base position : Expr) :
    Emits k g B m (.expr base bv) a m₁ →
    Emits k g B m₁ (.expr position pv) b m' →
    Emits k g B m (.expr (.index h base position) (.index bv pv)) (a ++ b) m'
  | array {m m' : Slots} {t : Ty} {ct : C.Ty} {vs : List C.Expr} {a : List C.Stmt} (h : Head)
      (values : List Expr) :
    k.types.get? h.id.ir = some t →
    Compiles g t ct →
    Emits k g B m (.exprs values vs) a m' →
    Emits k g B m (.expr (.array h values) (.array ct vs)) a m'
  | copies {m m' : Slots} {ct : C.Ty} {v : C.Expr} {a : List C.Stmt} (h : Head) (element : Expr)
      (count : UInt64) :
    Emits k g B m (.expr element v) a m' →
    Emits k g B m (.expr (.copies h element count) (.array ct (List.replicate count.toNat v))) a m'
  | struct {m m' : Slots} {ct : C.Ty} {r : IrId} {name : String} {decls : Members}
      {given : List (String × C.Expr)} {vs : List C.Expr} {a : List C.Stmt} (h : Head)
      (path : StructPath) (fields : List FieldInit) :
    k.types.get? h.id.ir = some (.struct r name decls) →
    Compiles g (.struct r name decls) ct →
    Emits k g B m (.fields (fields.map FieldInit.name == decls.toList.map (·.1)) fields given) a
      m' →
    declaredOrder? given.reverse (decls.toList.map (·.1)) = some vs →
    Emits k g B m (.expr (.struct h path fields) (.struct ct vs)) a m'
  | exprsNil {m : Slots} : Emits k g B m (.exprs [] []) [] m
  | exprsCons {m m₁ m' : Slots} {v : C.Expr} {vs : List C.Expr} {a b : List C.Stmt} (e : Expr)
      (es : List Expr) :
    Emits k g B m (.expr e v) a m₁ →
    Emits k g B m₁ (.exprs es vs) b m' →
    Emits k g B m (.exprs (e :: es) (v :: vs)) (a ++ b) m'
  | fieldsNil {m : Slots} (inOrder : Bool) : Emits k g B m (.fields inOrder [] []) [] m
  /-- A value that stands where it belongs, or that may be evaluated at any time. -/
  | fieldsCons {m m₁ m' : Slots} {v : C.Expr} {vs : List (String × C.Expr)} {a b : List C.Stmt}
      (inOrder : Bool) (h : Head) (name : String) (value : Expr) (rest : List FieldInit) :
    (inOrder || isInert value) = true →
    Emits k g B m (.expr value v) a m₁ →
    Emits k g B m₁ (.fields inOrder rest vs) b m' →
    Emits k g B m (.fields inOrder (.mk h name value :: rest) ((name, v) :: vs)) (a ++ b) m'
  /-- A value that is kept for later, unless it has the unit type. -/
  | fieldsKeep {m m₁ m₂ m' : Slots} {t : Ty} {v w : C.Expr} {target : Option C.VarId}
      {vs : List (String × C.Expr)} {a d s b : List C.Stmt} (inOrder : Bool) (h : Head)
      (name : String) (value : Expr) (rest : List FieldInit) :
    (inOrder || isInert value) = false →
    Emits k g B m (.expr value v) a m₁ →
    k.types.get? value.ir = some t →
    Temporary g m₁ t target d m₂ →
    Keeps target v w s →
    Emits k g B m₂ (.fields inOrder rest vs) b m' →
    Emits k g B m (.fields inOrder (.mk h name value :: rest) ((name, w) :: vs))
      (a ++ (d ++ (s ++ b))) m'
  | tailNone {m : Slots} : Emits k g B m (.tail none none) [] m
  | tailValue {m m' : Slots} {v : C.Expr} {a : List C.Stmt} (e : Expr) :
    Valued k e →
    Emits k g B m (.expr e v) a m' →
    Emits k g B m (.tail (some e) (some v)) a m'
  | tailEffect {m m' : Slots} {a : List C.Stmt} (e : Expr) :
    Valueless k e →
    Emits k g B m (.stmt (.expr e)) a m' →
    Emits k g B m (.tail (some e) none) a m'
  | innerBlock {m m₁ m' : Slots} {v : Option C.Expr} {a b : List C.Stmt} (h : Head)
      (ss : List Stmt) (tail : Option Expr) :
    Emits k g B m (.stmts ss) a m₁ →
    Emits k g B m₁ (.tail tail v) b m' →
    Emits k g B m (.inner (.block h ss tail) v) (a ++ b) m'
  | innerOther {m m' : Slots} {a : List C.Stmt} (e : Expr) :
    (∀ h ss tail, e ≠ .block h ss tail) →
    Emits k g B m (.stmt (.expr e)) a m' →
    Emits k g B m (.inner e none) a m'
  | branch {m m' : Slots} {target : Option C.VarId} {v : Option C.Expr} {a s : List C.Stmt}
      (e : Expr) :
    Emits k g B m (.inner e v) a m' →
    Stores target v s →
    Emits k g B m (.branch target e) (a ++ s) m'
  /-- The statements of the expression are all there is to it. -/
  | effectItself {m m' : Slots} {v : C.Expr} {a : List C.Stmt} (e : Expr) :
    addsItself e = true →
    Emits k g B m (.expr e v) a m' →
    Emits k g B m (.stmt (.expr e)) a m'
  | effect {m m' : Slots} {v : C.Expr} {a : List C.Stmt} (e : Expr) :
    addsItself e = false →
    Emits k g B m (.expr e v) a m' →
    Emits k g B m (.stmt (.expr e)) (a ++ [.expr v]) m'
  /-- A variable without a value needs no storage. -/
  | declareNothing {m : Slots} {t : Ty} (h : Head) (pattern : Pattern)
      (ascribed : Option TypeExpr) :
    k.types.get? h.id.ir = some t →
    (t.isUnit || t.isInfer) = true →
    Emits k g B m (.stmt (.bind h pattern ascribed none)) [] m
  | declare {m : Slots} {t : Ty} {ct declared : C.Ty} {spelled : String} (h : Head)
      (pattern : Pattern) (ascribed : Option TypeExpr) :
    k.types.get? h.id.ir = some t →
    Compiles g t ct →
    Emits k g B m (.stmt (.bind h pattern ascribed none)) [.declare m.var declared spelled none]
      (m.declare h.id.ir)
  | bindNothing {m m' : Slots} {t : Ty} {a : List C.Stmt} (h : Head) (pattern : Pattern)
      (ascribed : Option TypeExpr) (init : Expr) :
    k.types.get? h.id.ir = some t →
    (t.isUnit || t.isInfer) = true →
    Emits k g B m (.stmt (.expr init)) a m' →
    Emits k g B m (.stmt (.bind h pattern ascribed (some init))) a m'
  | bind {m m' : Slots} {t : Ty} {ct declared : C.Ty} {spelled : String} {v : C.Expr}
      {a : List C.Stmt} (h : Head) (pattern : Pattern) (ascribed : Option TypeExpr)
      (init : Expr) :
    k.types.get? h.id.ir = some t →
    Compiles g t ct →
    Emits k g B m (.expr init v) a m' →
    Emits k g B m (.stmt (.bind h pattern ascribed (some init)))
      (a ++ [.declare m'.var declared spelled (some v)]) (m'.declare h.id.ir)
  | stmtsNil {m : Slots} : Emits k g B m (.stmts []) [] m
  | stmtsCons {m m₁ m' : Slots} {a b : List C.Stmt} (st : Stmt) (rest : List Stmt) :
    Emits k g B m (.stmt st) a m₁ →
    Emits k g B m₁ (.stmts rest) b m' →
    Emits k g B m (.stmts (st :: rest)) (a ++ b) m'

/-! ## Functions -/

/-- Variables for parameters, one for each that has a type. -/
inductive Declares (g : Setting) : Slots → List Param → Members → List C.VarId → Slots → Prop
  | none {m : Slots} (ps : List Param) (ts : Members) :
    ps = [] ∨ ts = .nil →
    Declares g m ps ts [] m
  | cons {m m' : Slots} {vs : List C.VarId} {t : Ty} {ct : C.Ty} {ts : Members} (p : Param)
      (rest : List Param) (name : String) :
    Compiles g t ct →
    Declares g (m.declare p.head.id.ir) rest ts vs m' →
    Declares g m (p :: rest) (.cons name t ts) (m.var :: vs) m'

/-- What becomes of the value of a body. -/
inductive Finishes : Option C.VarId → Option C.Expr → List C.Stmt → Prop
  | noValue (slot : Option C.VarId) : Finishes slot none []
  | returned (v : C.VarId) (name spelled : String) (value : C.Expr) :
    Finishes (some v) (some value) [.assign (.var v name) value, .ret (some (.var v spelled))]
  | effect (value : C.Expr) : Finishes none (some value) [.expr value]

/-- The body of the function at node `id` stands in block `b`, its parameters are `vs`. -/
inductive EmitsFunction (k : Checked) (g : Setting) (B : C.BlockId → List C.Stmt) (id : IrId)
    (d : FunctionDecl) : Slots → List C.VarId → C.BlockId → Slots → Prop
  | intro {m m₁ m₂ m' : Slots} {t result : Ty} {params : Members} {vs : List C.VarId}
      {b : C.BlockId} {slot : Option C.VarId} {v : Option C.Expr} {a e s : List C.Stmt} (h : Head)
      (ss : List Stmt) (tail : Option Expr) :
    d.body = .block h ss tail →
    k.types.get? id = some t →
    t.fn? = some (params, result) →
    Declares g m d.params params vs m₁ →
    Temporary g m₁ result slot a m₂ →
    Emits k g B m₂ (.inner (.block h ss tail) v) e m' →
    Finishes slot v s →
    B b = a ++ (e ++ s) →
    EmitsFunction k g B id d m vs b m'

end MiddleEnd.Lower
