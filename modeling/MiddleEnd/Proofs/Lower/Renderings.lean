/-
  How often lowering renders the calls of a body, read off the checked tree: `renderings k n e`
  lists the calls in `e` with how often each is rendered, when the value of `e` is used `n` times.

  A call in a value is rendered as often as the value is used, and a value is not used at all when
  it is the last of a branch that has no variable to leave it in: the branch of a conditional
  without an `else`, of one with another conditional as its `else`, or of one that has the unit
  type. Those are the calls that lowering loses (besides those in arrays of no copies).
-/
import Mathlib.Algebra.BigOperators.Group.Multiset.Basic
import MiddleEnd.Proofs.Lower.Fields
import MiddleEnd.Proofs.Syntax.Parts

namespace MiddleEnd

/-- The call that a part is. -/
def Part.callExpr? : Part → Option Expr
  | .expr (.call h f args) => some (.call h f args)
  | _ => none

/-- The calls among parts. -/
def Part.calls (ps : List Part) : List Expr := ps.filterMap Part.callExpr?

theorem Part.calls_append (ps qs : List Part) :
    Part.calls (ps ++ qs) = Part.calls ps ++ Part.calls qs :=
  List.filterMap_append

theorem TypeExpr.calls_partsOf (a : Option TypeExpr) : Part.calls (partsOf a) = [] := by
  have hparts : ∀ a : TypeExpr, Part.calls a.parts = [] := by
    intro a
    induction a with
    | array h element capacity ih => exact ih
    | _ => rfl
  cases a with
  | none => rfl
  | some a => exact hparts a

namespace Lower

/-- Whether lowering takes the value of an expression for one worth keeping. -/
def isValued (k : Checked) : Expr → Bool
  | .ret .. => false
  | e => (k.types.get? e.ir).any fun t => !t.isUnit

/-- How often the value of a branch is used, by the type of the node that has the branches. -/
def uses (k : Checked) (id : IrId) : Nat :=
  if (k.types.get? id).any fun t => !t.isUnit then 1 else 0

/-- How often the value of an expression is used that is evaluated for its effects. -/
def effectUses (e : Expr) : Nat := if addsItself e then 0 else 1

/-- Whether a variable has no storage. -/
def isNothing (k : Checked) (id : IrId) : Bool :=
  (k.types.get? id).any fun t => t.isUnit || t.isInfer

/-- Whether the value of a field stays where it is used, and is not moved to a variable before. -/
def staysInPlace (k : Checked) (inOrder : Bool) (value : Expr) : Bool :=
  inOrder || isInert value || (k.types.get? value.ir).any Ty.isUnit

mutual

def renderings (k : Checked) (n : Nat) : Expr → List (Expr × Nat)
  | .literal .. => []
  | .identifier .. => []
  | .ret _ none => []
  | .ret _ (some value) => renderings k 1 value
  | .call h f args => (.call h f args, n) :: renderingsAll k n args
  -- the target is rendered by the assignment itself, and once more wherever its value is used
  | .assign _ target value => renderings k (n + 1) target ++ renderings k 1 value
  | .binary _ _ lhs rhs => renderings k n lhs ++ renderings k n rhs
  | .ifOnly _ condition body => renderings k 1 condition ++ (match body with
    | .block _ ss tail => stmtRenderingsAll k ss ++ tailRenderings k 0 tail
    | e => renderings k (effectUses e) e)
  | .ifElse h condition thenBody elseBody => renderings k 1 condition ++ ((match thenBody with
    | .block _ ss tail => stmtRenderingsAll k ss ++ tailRenderings k (uses k h.id.ir) tail
    | e => renderings k (effectUses e) e) ++ (match elseBody with
    | .block _ ss tail => stmtRenderingsAll k ss ++ tailRenderings k (uses k h.id.ir) tail
    | e => renderings k (effectUses e) e))
  | .ifElseIf _ condition thenBody elseIf => renderings k 1 condition ++ ((match thenBody with
    | .block _ ss tail => stmtRenderingsAll k ss ++ tailRenderings k 0 tail
    | e => renderings k (effectUses e) e) ++ (match elseIf with
    | .block _ ss tail => stmtRenderingsAll k ss ++ tailRenderings k 0 tail
    | e => renderings k (effectUses e) e))
  | .block h ss tail => stmtRenderingsAll k ss ++ tailRenderings k (uses k h.id.ir) tail
  | .index _ base position => renderings k n base ++ renderings k n position
  | .array _ values => renderingsAll k n values
  | .copies _ element count => renderings k (n * count.toNat) element
  | .struct h _ fields =>
    let names := match (k.types.get? h.id.ir).bind Ty.struct? with
      | some (_, decls) => decls.toList.map (·.1)
      | none => []
    fieldRenderings k (fields.map FieldInit.name == names) n names fields

def renderingsAll (k : Checked) (n : Nat) : List Expr → List (Expr × Nat)
  | [] => []
  | e :: rest => renderings k n e ++ renderingsAll k n rest

def fieldRenderings (k : Checked) (inOrder : Bool) (n : Nat) (names : List String) :
    List FieldInit → List (Expr × Nat)
  | [] => []
  | .mk _ name value :: rest =>
    renderings k (if staysInPlace k inOrder value then
      if isTaken names name (rest.map FieldInit.name) then n else 0 else 1) value ++
      fieldRenderings k inOrder n names rest

def tailRenderings (k : Checked) (n : Nat) : Option Expr → List (Expr × Nat)
  | none => []
  | some e => renderings k (if isValued k e then n else effectUses e) e

def stmtRenderings (k : Checked) : Stmt → List (Expr × Nat)
  | .expr e => renderings k (effectUses e) e
  | .bind _ _ _ none => []
  | .bind h _ _ (some init) =>
    renderings k (if isNothing k h.id.ir then effectUses init else 1) init

def stmtRenderingsAll (k : Checked) : List Stmt → List (Expr × Nat)
  | [] => []
  | s :: rest => stmtRenderings k s ++ stmtRenderingsAll k rest

end

/-- The calls in a branch whose value is used `n` times. -/
def branchRenderings (k : Checked) (n : Nat) : Expr → List (Expr × Nat)
  | .block _ ss tail => stmtRenderingsAll k ss ++ tailRenderings k n tail
  | e => renderings k (effectUses e) e

section Equations

variable (k : Checked) (n : Nat) (h : Head)

theorem renderings_ifOnly (condition body : Expr) : renderings k n (.ifOnly h condition body) =
    renderings k 1 condition ++ branchRenderings k 0 body := by
  cases body <;> rfl

theorem renderings_ifElse (condition thenBody elseBody : Expr) :
    renderings k n (.ifElse h condition thenBody elseBody) =
      renderings k 1 condition ++ (branchRenderings k (uses k h.id.ir) thenBody ++
        branchRenderings k (uses k h.id.ir) elseBody) := by
  cases thenBody <;> cases elseBody <;> rfl

theorem renderings_ifElseIf (condition thenBody elseIf : Expr) :
    renderings k n (.ifElseIf h condition thenBody elseIf) =
      renderings k 1 condition ++ (branchRenderings k 0 thenBody ++ branchRenderings k 0 elseIf) := by
  cases thenBody <;> cases elseIf <;> rfl

theorem renderings_block (ss : List Stmt) (tail : Option Expr) :
    renderings k n (.block h ss tail) = branchRenderings k (uses k h.id.ir) (.block h ss tail) :=
  rfl

theorem renderings_struct {r : IrId} {name : String} {decls : Members} (path : StructPath)
    (fields : List FieldInit) (ht : k.types.get? h.id.ir = some (.struct r name decls)) :
    renderings k n (.struct h path fields) =
      fieldRenderings k (fields.map FieldInit.name == decls.toList.map (·.1)) n
        (decls.toList.map (·.1)) fields := by
  show fieldRenderings k _ n (match (k.types.get? h.id.ir).bind Ty.struct? with
    | some (_, decls) => decls.toList.map (·.1)
    | none => []) fields = _
  rw [ht]
  rfl

end Equations

/-! ## Every call is listed -/

/-- The renderings list these calls. -/
def Lists (rs : List (Expr × Nat)) (ps : List Part) : Prop := rs.map Prod.fst = Part.calls ps

theorem Lists.append {rs rs' : List (Expr × Nat)} {ps ps' : List Part} (h : Lists rs ps)
    (h' : Lists rs' ps') : Lists (rs ++ rs') (ps ++ ps') := by
  unfold Lists
  rw [List.map_append, Part.calls_append, h, h']

/-- The renderings of an expression list its calls, by itself and as a branch. -/
def ListsAll (k : Checked) (e : Expr) : Prop :=
  (∀ n, Lists (renderings k n e) e.parts) ∧ ∀ n, Lists (branchRenderings k n e) e.parts

theorem listsAll_of_expr {k : Checked} {e : Expr} (hb : ∀ h ss tail, e ≠ .block h ss tail)
    (h : ∀ n, Lists (renderings k n e) e.parts) : ListsAll k e := by
  have heffect := h (effectUses e)
  refine ⟨h, fun n => ?_⟩
  cases e with
  | block g ss tail => exact absurd rfl (hb g ss tail)
  | _ => exact heffect

mutual

/-- Every call of an expression is listed once, in the order of the walk. -/
theorem listsAll (k : Checked) : ∀ e : Expr, ListsAll k e
  | .literal .. => listsAll_of_expr nofun fun _ => rfl
  | .identifier .. => listsAll_of_expr nofun fun _ => rfl
  | .ret _ none => listsAll_of_expr nofun fun _ => rfl
  | .ret _ (some value) => listsAll_of_expr nofun fun _ => (listsAll k value).1 1
  | .call h f args => listsAll_of_expr nofun fun n =>
    congrArg (Expr.call h f args :: ·) (lists_exprs k n args)
  | .assign _ target value => listsAll_of_expr nofun fun n =>
    ((listsAll k target).1 (n + 1)).append ((listsAll k value).1 1)
  | .binary _ _ lhs rhs => listsAll_of_expr nofun fun n =>
    ((listsAll k lhs).1 n).append ((listsAll k rhs).1 n)
  | .ifOnly h condition body => listsAll_of_expr nofun fun n => by
    rw [renderings_ifOnly]
    exact ((listsAll k condition).1 1).append ((listsAll k body).2 0)
  | .ifElse h condition thenBody elseBody => listsAll_of_expr nofun fun n => by
    rw [renderings_ifElse]
    exact ((listsAll k condition).1 1).append
      (((listsAll k thenBody).2 _).append ((listsAll k elseBody).2 _))
  | .ifElseIf h condition thenBody elseIf => listsAll_of_expr nofun fun n => by
    rw [renderings_ifElseIf]
    exact ((listsAll k condition).1 1).append
      (((listsAll k thenBody).2 0).append ((listsAll k elseIf).2 0))
  | .block h ss none => by
    have hinner : ∀ n, Lists (branchRenderings k n (.block h ss none)) (Stmt.partsAll ss) := by
      intro n
      have htail : Lists (tailRenderings k n none) [] := rfl
      have hss := (lists_stmts k ss).append htail
      rw [List.append_nil (Stmt.partsAll ss)] at hss
      exact hss
    exact ⟨fun _ => hinner _, hinner⟩
  | .block h ss (some e) => by
    have hinner : ∀ n, Lists (branchRenderings k n (.block h ss (some e)))
        (Stmt.partsAll ss ++ e.parts) :=
      fun n => (lists_stmts k ss).append ((listsAll k e).1 _)
    exact ⟨fun _ => hinner _, hinner⟩
  | .index _ base position => listsAll_of_expr nofun fun n =>
    ((listsAll k base).1 n).append ((listsAll k position).1 n)
  | .array _ values => listsAll_of_expr nofun fun n => lists_exprs k n values
  | .copies _ element count => listsAll_of_expr nofun fun _ => (listsAll k element).1 _
  | .struct _ _ fields => listsAll_of_expr nofun fun n => lists_fields k _ n _ fields

theorem lists_exprs (k : Checked) (n : Nat) :
    ∀ es : List Expr, Lists (renderingsAll k n es) (Expr.partsAll es)
  | [] => rfl
  | e :: rest => ((listsAll k e).1 n).append (lists_exprs k n rest)

theorem lists_fields (k : Checked) (inOrder : Bool) (n : Nat) (names : List String) :
    ∀ fs : List FieldInit, Lists (fieldRenderings k inOrder n names fs) (FieldInit.partsAll fs)
  | [] => rfl
  | .mk _ _ value :: rest =>
    ((listsAll k value).1 _).append (lists_fields k inOrder n names rest)

theorem lists_stmt (k : Checked) : ∀ st : Stmt, Lists (stmtRenderings k st) st.parts
  | .expr e => (listsAll k e).1 _
  | .bind h pattern ascribed none => (TypeExpr.calls_partsOf ascribed).symm
  | .bind h pattern ascribed (some init) => by
    have hnone : Lists [] (TypeExpr.partsOf ascribed) := (TypeExpr.calls_partsOf ascribed).symm
    exact hnone.append ((listsAll k init).1 _)

theorem lists_stmts (k : Checked) :
    ∀ sts : List Stmt, Lists (stmtRenderingsAll k sts) (Stmt.partsAll sts)
  | [] => rfl
  | st :: rest => (lists_stmt k st).append (lists_stmts k rest)

end

end Lower

end MiddleEnd
