/-
  What lowering does to the C types of types, step by step. C types are entered for primitive types
  and for struct items, and wrappers of arrays are looked up or made; nothing else that lowering
  does touches them (`Step`). Every run of lowering is made of such steps, whether it ends well or
  in a fault (`steps_lower`).
-/
import Mathlib.Logic.Relation
import MiddleEnd.Proofs.Lower.Changes
import MiddleEnd.Proofs.Runs

namespace MiddleEnd.Lower

variable {α β : Type} {k : Checked} {p : Program}

/-- A step in which lowering with the tables `k` may change the C types of types. -/
inductive Step (k : Checked) (p : Program) : Lowering → Lowering → Prop
  | primitive {l : Lowering} {b : Builtin} {id : IrId} {t : Ty} {ct : C.Ty} :
    b ∈ k.scope.bindings.builtins → k.types.builtinId? b.node = some id →
    k.types.get? id = some t → primitiveTy? t = some ct →
    Step k p l { l with types := l.types.insert id ct }
  | struct {l : Lowering} {i : Item} {d : StructDecl} : i ∈ p.items → i.kind = .struct d →
    Step k p l { l with types := l.types.insert i.head.id.ir (.named d.name) }
  | wrap {l : Lowering} (element : C.Ty) (capacity : Nat) :
    Step k p l { l with c := (l.c.arrayType element (arrayLength capacity)).2 }
  | other {l l' : Lowering} : l'.types = l.types → l'.c.arrays = l.c.arrays → Step k p l l'

/-- Any number of steps. -/
abbrev Steps (k : Checked) (p : Program) : Lowering → Lowering → Prop :=
  Relation.ReflTransGen (Step k p)

/-- Whatever it comes to, `m` is made of steps. -/
def Stepwise (k : Checked) (p : Program) (m : Lower α) : Prop :=
  ∀ l₀, Throughout (Steps k p l₀) (fun _ => True) m

namespace Stepwise

theorem pure (a : α) : Stepwise k p (pure a : Lower α) := fun _ => .pure trivial

theorem defect (d : Defect) : Stepwise k p (defect d : Lower α) := fun _ => .throw _

theorem bind {m : Lower α} {f : α → Lower β} (h : Stepwise k p m)
    (hf : ∀ a, Stepwise k p (f a)) : Stepwise k p (m >>= f) :=
  fun l₀ => (h l₀).bind fun a _ => hf a l₀

theorem get {f : Lowering → Lower α} (h : ∀ l, Stepwise k p (f l)) :
    Stepwise k p (MonadState.get >>= f) :=
  fun l₀ => .get fun l _ => h l l₀

/-- Several things done at once to the state that was looked at. -/
theorem getOnce {f : Lowering → Lower α} (h : ∀ l, Step k p l ((f l).run.run l).2) :
    Stepwise k p (MonadState.get >>= f) :=
  fun _ l hl => ⟨hl.tail (h l), fun _ _ => trivial⟩

theorem discard {m : Lower α} (h : Stepwise k p m) : Stepwise k p (discard m) :=
  fun l₀ => (h l₀).discard

theorem forM {f : α → Lower PUnit} {l : List α} (h : ∀ a ∈ l, Stepwise k p (f a)) :
    Stepwise k p (l.forM f) :=
  fun l₀ => .forM fun a ha => h a ha l₀

/-- A single step. -/
theorem modify {g : Lowering → Lowering} (h : ∀ l, Step k p l (g l)) :
    Stepwise k p (modify g : Lower PUnit) :=
  fun _ => .modify fun l hl => hl.tail (h l)

theorem require (d : Defect) : ∀ o : Option α, Stepwise k p (require d o)
  | none => .defect d
  | some a => .pure a

/-- Steps that go on with what is required. -/
theorem requireFrom {d : Defect} {f : α → Lower β} : ∀ {o : Option α},
    (∀ a, o = some a → Stepwise k p (f a)) → Stepwise k p (Lower.require d o >>= f)
  | none, _ => fun _ _ hl => ⟨hl, nofun⟩
  | some a, h => h a rfl

theorem look (f : C.Program → α) : Stepwise k p (look f) := .get fun _ => .pure _

theorem typeOf (id : IrId) : Stepwise k p (typeOf k id) := .require _ _

theorem activation : Stepwise k p activation := .get fun _ => .require _ _

theorem note (e : Event) : Stepwise k p (note e) := .modify fun _ => .other rfl rfl

/-- What is built keeps the wrappers of arrays. -/
theorem build {f : C.Program → α × C.Program} (h : ∀ c, (f c).2.arrays = c.arrays) :
    Stepwise k p (build f) :=
  fun _ _ hl => ⟨hl.tail (.other rfl (h _)), fun _ _ => trivial⟩

theorem buildOrFail {f : C.Program → Except Defect α × C.Program}
    (h : ∀ c, (f c).2.arrays = c.arrays) : Stepwise k p (buildOrFail f) :=
  (build h).bind fun r => by
    cases r with
    | ok a => exact .pure a
    | error d => exact .defect d

theorem wrap (element : C.Ty) (capacity : Nat) :
    Stepwise k p (Lower.build (·.arrayType element (arrayLength capacity))) :=
  fun _ _ hl => ⟨hl.tail (.wrap element capacity), fun _ _ => trivial⟩

end Stepwise

/-! ## Blocks, functions and variables -/

theorem stepwise_pushBlock (b : C.BlockId) : Stepwise k p (pushBlock b) :=
  .get fun _ => (Stepwise.note _).bind fun _ => .modify fun _ => .other rfl rfl

theorem stepwise_popBlock : Stepwise k p popBlock :=
  .getOnce fun l => by
    cases l.blocks with
    | nil => exact .other rfl rfl
    | cons o rest => exact .other rfl rfl

theorem stepwise_addStmt (s : C.Stmt) : Stepwise k p (addStmt s) :=
  .getOnce fun l => by
    cases l.blocks with
    | nil => exact .other rfl rfl
    | cons o rest => exact .other rfl rfl

theorem stepwise_setVariable (id : IrId) (v : C.VarId) : Stepwise k p (setVariable id v) :=
  .modify fun _ => .other rfl rfl

theorem stepwise_newLocal (f : C.FunctionId) (name : String) (t : C.Ty) :
    Stepwise k p (build (·.newLocal f name t)) :=
  .build fun _ => rfl

/-! ## Types -/

theorem stepwise_entered (t : Ty) : Stepwise k p (entered t) := .get fun _ => .require _ _

theorem stepwise_type : ∀ t : Ty, Stepwise k p (type t)
  | .bool _ | .int _ _ | .uint _ _ | .float _ _ | .struct _ _ _ => stepwise_entered _
  | .array _ element capacity => (stepwise_type element).bind fun ct => .wrap ct capacity
  | .error _ | .unit _ | .infer _ | .fn _ _ _ | .field _ _ _ | .generic _ _ => .defect _

theorem stepwise_enterPrimitives : Stepwise k p (enterPrimitives k) :=
  .forM fun _ hb => .requireFrom fun _ hid => .requireFrom fun _ ht => .requireFrom fun _ hct =>
    .modify fun _ => .primitive hb hid ht hct

/-! ## Parts of expressions -/

theorem stepwise_declaration (e : Expr) : Stepwise k p (declaration k e) :=
  (Stepwise.require _ _).bind fun _ => (Stepwise.require _ _).bind fun _ => .require _ _

theorem stepwise_identifier (e : Expr) (name : String) : Stepwise k p (identifier k e name) := by
  refine (stepwise_declaration e).bind fun id => .get fun l => ?_
  cases l.vars[id]? with
  | some v => exact .pure _
  | none => exact .require _ _

theorem stepwise_callee (e : Expr) : Stepwise k p (callee k e) :=
  (Stepwise.require _ _).bind fun _ => (Stepwise.require _ _).bind fun _ =>
    .get fun _ => .require _ _

theorem stepwise_literal (id : IrId) (lit : Literal) : Stepwise k p (literal k id lit) := by
  refine (Stepwise.typeOf id).bind fun t => ?_
  have hfloat : Stepwise k p (literal.float lit t (plainSpelling lit.spelling)) :=
    (Stepwise.require _ _).bind fun _ => (stepwise_type t).bind fun _ => .pure _
  cases lit.kind with
  | bool => exact (Stepwise.require _ _).bind fun _ => .pure _
  | float => exact hfloat
  | int =>
    cases isFloat t with
    | true => exact hfloat
    | false => exact (Stepwise.require _ _).bind fun _ => (stepwise_type t).bind fun _ => .pure _

theorem stepwise_temporary (t : Ty) : Stepwise k p (temporary t) :=
  (stepwise_type t).bind fun _ => Stepwise.activation.bind fun _ =>
    (stepwise_newLocal _ _ _).bind fun _ => (Stepwise.look _).bind fun _ =>
    (stepwise_addStmt _).bind fun _ => .pure _

theorem stepwise_temporary? (t : Ty) : Stepwise k p (temporary? t) := by
  unfold temporary?
  split
  · exact .pure _
  · exact (stepwise_temporary t).bind fun _ => .pure _

theorem stepwise_store (v : C.VarId) (value : C.Expr) : Stepwise k p (store v value) :=
  (Stepwise.look _).bind fun _ => stepwise_addStmt _

theorem stepwise_declare (id : IrId) (name : String) (t : C.Ty) (init : Option C.Expr) :
    Stepwise k p (declare id name t init) :=
  Stepwise.activation.bind fun _ => (stepwise_newLocal _ _ _).bind fun _ =>
    (stepwise_setVariable _ _).bind fun _ => (Stepwise.look _).bind fun _ => stepwise_addStmt _

theorem stepwise_storeIn : ∀ (target : Option C.VarId) (value : Option C.Expr),
    Stepwise k p (storeIn target value)
  | some v, some value => stepwise_store v value
  | none, _ | some _, none => .pure _

theorem stepwise_load : ∀ target : Option C.VarId, Stepwise k p (load target)
  | some _ => .look _
  | none => .pure _

theorem stepwise_keep (t : Ty) (value : C.Expr) : Stepwise k p (keep t value) := by
  refine (stepwise_temporary? t).bind fun target => ?_
  cases target with
  | some v => exact (stepwise_store v value).bind fun _ => .look _
  | none => exact .pure _

theorem stepwise_inBlock (target : Option C.VarId) {body : Lower (Option C.Expr)}
    (h : Stepwise k p body) : Stepwise k p (inBlock target body) :=
  Stepwise.activation.discard.bind fun _ => (Stepwise.build fun _ => rfl).bind fun _ =>
    (stepwise_pushBlock _).bind fun _ => h.bind fun _ =>
    (stepwise_storeIn _ _).bind fun _ => stepwise_popBlock

theorem stepwise_effect {e : Expr} {value : Lower C.Expr} (h : Stepwise k p value) :
    Stepwise k p (effect e value) := by
  refine h.bind fun v => ?_
  cases addsItself e with
  | true => exact .pure _
  | false => exact stepwise_addStmt _

theorem stepwise_effectOnly {e : Expr} {value : Lower C.Expr} (h : Stepwise k p value) :
    Stepwise k p (effectOnly e value) :=
  (stepwise_effect h).bind fun _ => .pure _

theorem stepwise_hasValue : ∀ e : Expr, Stepwise k p (hasValue k e)
  | .ret _ _ => .pure _
  | .literal _ _ | .identifier _ _ | .call _ _ _ | .assign _ _ _ | .binary _ _ _ _ | .ifOnly _ _ _
  | .ifElse _ _ _ _ | .ifElseIf _ _ _ _ | .block _ _ _ | .index _ _ _ | .array _ _
  | .copies _ _ _ | .struct _ _ _ => (Stepwise.typeOf _).bind fun _ => .pure _

theorem stepwise_inDeclaredOrder (struct : String) : ∀ (names : List String)
    (given : List (String × C.Expr)), Stepwise k p (inDeclaredOrder struct given names)
  | [], _ => .pure _
  | _ :: rest, _ => (Stepwise.require _ _).bind fun _ =>
    (stepwise_inDeclaredOrder struct rest _).bind fun _ => .pure _

/-! ## Expressions and statements -/

/-- Lowering the expression, by itself and as a branch, is made of steps. -/
structure StepwiseAll (k : Checked) (p : Program) (e : Expr) : Prop where
  expr : Stepwise k p (expr k e)
  branch : Stepwise k p (branch k e)

theorem stepwiseAll_of_expr {e : Expr} (hb : ∀ g ss tail, e ≠ .block g ss tail)
    (h : Stepwise k p (expr k e)) : StepwiseAll k p e := by
  refine ⟨h, ?_⟩
  have heffect := stepwise_effectOnly (e := e) h
  cases e with
  | block g ss tail => exact absurd rfl (hb g ss tail)
  | _ => exact heffect

theorem stepwiseAll_of_branch {g : Head} {ss : List Stmt} {tail : Option Expr}
    (h : Stepwise k p (branch k (.block g ss tail))) : StepwiseAll k p (.block g ss tail) :=
  ⟨(Stepwise.typeOf _).bind fun t => (stepwise_temporary? t).bind fun target =>
    (stepwise_inBlock target h).bind fun _ => (stepwise_addStmt _).bind fun _ =>
    stepwise_load target, h⟩

mutual

theorem stepwiseAll : ∀ e : Expr, StepwiseAll k p e
  | .literal h lit => stepwiseAll_of_expr (by simp) (stepwise_literal h.id.ir lit)
  | .identifier _ name => stepwiseAll_of_expr (by simp) (stepwise_identifier _ name)
  | .ret _ none => stepwiseAll_of_expr (by simp)
    (Stepwise.activation.discard.bind fun _ => (stepwise_addStmt _).bind fun _ => .pure _)
  | .ret _ (some value) => stepwiseAll_of_expr (by simp)
    ((stepwiseAll value).expr.bind fun _ => Stepwise.activation.discard.bind fun _ =>
      (stepwise_addStmt _).bind fun _ => .pure _)
  | .call _ f args => stepwiseAll_of_expr (by simp)
    ((stepwise_callee f).bind fun _ => (stepwise_exprs args).bind fun _ => .look _)
  | .assign _ target value => stepwiseAll_of_expr (by simp)
    ((stepwiseAll target).expr.bind fun _ => (stepwiseAll value).expr.bind fun _ =>
      (stepwise_addStmt _).bind fun _ => .pure _)
  | .binary _ _ lhs rhs => stepwiseAll_of_expr (by simp)
    ((stepwiseAll lhs).expr.bind fun _ => (stepwiseAll rhs).expr.bind fun _ => .pure _)
  | .ifOnly _ condition body => stepwiseAll_of_expr (by simp) <| by
    rw [expr_ifOnly]
    exact (stepwiseAll condition).expr.bind fun _ =>
      (stepwise_inBlock none (stepwiseAll body).branch).bind fun _ =>
      (stepwise_addStmt _).bind fun _ => .pure _
  | .ifElse _ condition thenBody elseBody => stepwiseAll_of_expr (by simp) <| by
    rw [expr_ifElse]
    exact (Stepwise.typeOf _).bind fun t => (stepwiseAll condition).expr.bind fun _ =>
      (stepwise_temporary? t).bind fun target =>
      (stepwise_inBlock target (stepwiseAll thenBody).branch).bind fun _ =>
      (stepwise_inBlock target (stepwiseAll elseBody).branch).bind fun _ =>
      (stepwise_addStmt _).bind fun _ => stepwise_load target
  | .ifElseIf _ condition thenBody elseIf => stepwiseAll_of_expr (by simp) <| by
    rw [expr_ifElseIf]
    exact (stepwiseAll condition).expr.bind fun _ =>
      (stepwise_inBlock none (stepwiseAll thenBody).branch).bind fun _ =>
      (stepwise_inBlock none (stepwiseAll elseIf).branch).bind fun _ =>
      (stepwise_addStmt _).bind fun _ => .pure _
  | .block _ ss none => stepwiseAll_of_branch ((stepwise_stmts ss).bind fun _ => .pure _)
  | .block _ ss (some e) => stepwiseAll_of_branch <| (stepwise_stmts ss).bind fun _ =>
    (stepwise_hasValue e).bind fun b => by
      have he := (stepwiseAll e).expr
      cases b with
      | true => exact he.bind fun _ => .pure _
      | false => exact stepwise_effectOnly he
  | .index _ base position => stepwiseAll_of_expr (by simp)
    ((stepwiseAll base).expr.bind fun _ => (stepwiseAll position).expr.bind fun _ => .pure _)
  | .array _ values => stepwiseAll_of_expr (by simp)
    ((Stepwise.typeOf _).bind fun t => (stepwise_type t).bind fun _ =>
      (stepwise_exprs values).bind fun _ => .pure _)
  | .copies _ element _ => stepwiseAll_of_expr (by simp)
    ((Stepwise.typeOf _).bind fun t => (stepwise_type t).bind fun _ =>
      (stepwiseAll element).expr.bind fun _ => .pure _)
  | .struct _ path fields => stepwiseAll_of_expr (by simp) <| (Stepwise.typeOf _).bind fun t => by
    dsimp only
    cases t.struct? with
    | none => exact .defect _
    | some found =>
      exact (stepwise_type t).bind fun _ => (stepwise_fields _ fields).bind fun _ =>
        (stepwise_inDeclaredOrder _ _ _).bind fun _ => .pure _

theorem stepwise_exprs : ∀ es : List Expr, Stepwise k p (exprs k es)
  | [] => .pure _
  | e :: rest => (stepwiseAll e).expr.bind fun _ => (stepwise_exprs rest).bind fun _ => .pure _

theorem stepwise_fields (inOrder : Bool) : ∀ fs : List FieldInit,
    Stepwise k p (fieldInits k inOrder fs)
  | [] => .pure _
  | .mk _ name value :: rest => by
    have hrest := stepwise_fields inOrder rest
    refine (stepwiseAll value).expr.bind fun v => ?_
    cases inOrder || isInert value with
    | true => exact hrest.bind fun _ => .pure _
    | false =>
      exact (Stepwise.typeOf _).bind fun t => (stepwise_keep t v).bind fun _ =>
        hrest.bind fun _ => .pure _

theorem stepwise_stmt : ∀ st : Stmt, Stepwise k p (stmt k st)
  | .expr e => stepwise_effect (stepwiseAll e).expr
  | .bind _ pattern _ none => (Stepwise.typeOf _).bind fun t => by
    cases t.isUnit || t.isInfer with
    | true => exact .pure _
    | false => exact (stepwise_type t).bind fun ct => stepwise_declare _ _ ct none
  | .bind _ pattern _ (some init) => (Stepwise.typeOf _).bind fun t => by
    have hinit := (stepwiseAll init).expr
    cases t.isUnit || t.isInfer with
    | true => exact stepwise_effect hinit
    | false =>
      exact (stepwise_type t).bind fun ct => hinit.bind fun v => stepwise_declare _ _ ct (some v)

theorem stepwise_stmts : ∀ sts : List Stmt, Stepwise k p (stmts k sts)
  | [] => .pure _
  | st :: rest => (stepwise_stmt st).bind fun _ => stepwise_stmts rest

end

/-! ## Items -/

end MiddleEnd.Lower
