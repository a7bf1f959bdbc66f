/-
  Running C statements over given operators, with a store keyed by variable (`Operators.machine`).
  What comes of it is determined by the statements and the store (`Operators.runs_unique`). Calls
  have no value here, nor has text that someone else supplies.
-/
import Mathlib.Logic.Function.Basic
import MiddleEnd.Proofs.C.Execution
import MiddleEnd.Proofs.Meaning.Operators

namespace MiddleEnd

namespace C

/-! ## Machines that leave no choice -/

namespace Machine

variable {σ V : Type} {M : Machine σ V} {B : BlockId → List Stmt}

/-- Evaluating and storing leave no choice. -/
structure Deterministic (M : Machine σ V) : Prop where
  evaluates : ∀ {e s v w s' s''}, M.evaluates e s v s' → M.evaluates e s w s'' → v = w ∧ s' = s''
  stores : ∀ {e v s s' s''}, M.stores e v s s' → M.stores e v s s'' → s' = s''
  declares : ∀ {x v s s' s''}, M.declares x v s s' → M.declares x v s s'' → s' = s''

theorem Acts.unique (hM : M.Deterministic) {x : Stmt} {s s' s'' : σ} (h : M.Acts x s s')
    (k : M.Acts x s s'') : s' = s'' := by
  cases h with
  | expr h => cases k with | expr k => exact (hM.evaluates h k).2
  | declare h => cases k with | declare k => exact hM.declares h k
  | start h h' =>
    cases k with
    | start k k' =>
      obtain ⟨rfl, rfl⟩ := hM.evaluates h k
      exact hM.declares h' k'
  | assign h h' =>
    cases k with
    | assign k k' =>
      obtain ⟨rfl, rfl⟩ := hM.evaluates h k
      exact hM.stores h' k'

theorem Enters.unique (hM : M.Deterministic) {x : Stmt} {s s' s'' : σ} {a b : List Stmt}
    (h : M.Enters B x s a s') (k : M.Enters B x s b s'') : a = b ∧ s' = s'' := by
  cases h with
  | block => cases k with | block => exact ⟨rfl, rfl⟩
  | taken h ht =>
    cases k with
    | taken k _ => exact ⟨rfl, (hM.evaluates h k).2⟩
    | other k hf | skipped k hf =>
      rw [← (hM.evaluates h k).1, ht] at hf
      cases hf
  | other h hf =>
    cases k with
    | taken k ht =>
      rw [← (hM.evaluates h k).1, hf] at ht
      cases ht
    | other k _ => exact ⟨rfl, (hM.evaluates h k).2⟩
  | skipped h hf =>
    cases k with
    | taken k ht =>
      rw [← (hM.evaluates h k).1, hf] at ht
      cases ht
    | skipped k _ => exact ⟨rfl, (hM.evaluates h k).2⟩

theorem Runs.unique (hM : M.Deterministic) {a : List Stmt} {s : σ} {o o' : Outcome σ V}
    (h : M.Runs B a s o) (k : M.Runs B a s o') : o = o' := by
  induction h generalizing o' with
  | nil => cases k with
    | nil => rfl
  | act hx _ ih =>
    cases k with
    | act kx k =>
      cases hx.unique hM kx
      exact ih k
    | retUnit | ret => cases hx
    | inside kx | leave kx => cases hx <;> cases kx
  | retUnit =>
    cases k with
    | retUnit => rfl
    | act kx | inside kx | leave kx => cases kx
  | ret h =>
    cases k with
    | ret k =>
      obtain ⟨rfl, rfl⟩ := hM.evaluates h k
      rfl
    | act kx | inside kx | leave kx => cases kx
  | inside hx _ _ ih ihr =>
    cases k with
    | retUnit | ret => cases hx
    | act kx => cases hx <;> cases kx
    | inside kx ki k =>
      obtain ⟨rfl, rfl⟩ := hx.unique hM kx
      cases ih ki
      exact ihr k
    | leave kx ki =>
      obtain ⟨rfl, rfl⟩ := hx.unique hM kx
      cases ih ki
  | leave hx _ ih =>
    cases k with
    | retUnit | ret => cases hx
    | act kx => cases hx <;> cases kx
    | inside kx ki k =>
      obtain ⟨rfl, rfl⟩ := hx.unique hM kx
      cases ih ki
    | leave kx ki =>
      obtain ⟨rfl, rfl⟩ := hx.unique hM kx
      exact ih ki

/-- A run that returns before it comes to the statements behind. -/
theorem Runs.before {a : List Stmt} {s s' : σ} {v : Option V} (h : M.Runs B a s (.returned v s'))
    (b : List Stmt) : M.Runs B (a ++ b) s (.returned v s') := by
  generalize hd : Outcome.returned v s' = d at h
  induction h with
  | nil => cases hd
  | act hx _ ih => exact .act hx (ih hd)
  | retUnit =>
    cases hd
    exact .retUnit
  | ret h =>
    cases hd
    exact .ret h
  | inside hx hi _ _ ih => exact .inside hx hi (ih hd)
  | leave hx hi =>
    cases hd
    exact .leave hx hi

/-- A single statement whose blocks are run through. -/
theorem Runs.through {x : Stmt} {inner : List Stmt} {s s₁ : σ} {o : Outcome σ V}
    (hx : M.Enters B x s inner s₁) (h : M.Runs B inner s₁ o) : M.Runs B [x] s o := by
  cases o with
  | done s' => exact .inside hx h .nil
  | returned v s' => exact .leave hx h

end Machine

/-! ## Values of expressions -/

variable {V : Type}

/-- The values of variables, as far as they have any. -/
abbrev Store (V : Type) := VarId → Option (Value V)

mutual

/-- The value of an expression, if it has one. -/
def Expr.value? (O : Operators V) (c : Store V) : Expr → Option (Value V)
  | .int t n => some (.data (O.int t n))
  | .float t x => some (.data (O.float t x))
  | .bool b => some (.data (O.bool b))
  | .unit => some .unit
  | .var x _ => c x
  | .binary op lhs rhs =>
    ((lhs.value? O c).bind Value.data?).bind fun a =>
      (O.binary? op a ((rhs.value? O c).bind Value.data?)).map .data
  | .index base position =>
    ((base.value? O c).bind Value.data?).bind fun a =>
      ((position.value? O c).bind Value.data?).bind fun i => (O.index a i).map .data
  | .array _ values => (Expr.values? O c values).map fun vs => .data (O.array vs)
  | .struct _ values => (Expr.values? O c values).map fun vs => .data (O.struct vs)
  | .verbatim _ | .constant _ | .call .. => none

/-- The data that all of the expressions come to. -/
def Expr.values? (O : Operators V) (c : Store V) : List Expr → Option (List V)
  | [] => some []
  | e :: rest =>
    ((e.value? O c).bind Value.data?).bind fun v => (Expr.values? O c rest).map (v :: ·)

end

/-- What a run of the body of a function returns; one that comes to its end returns nothing, which
is the value of the unit type. -/
def Outcome.result {σ : Type} : Outcome σ (Value V) → Value V
  | .done _ => .unit
  | .returned v _ => v.getD .unit

end C

namespace Operators

variable {V : Type} (O : Operators V)

def truthOf : Value V → Bool
  | .unit => false
  | .data v => O.truth v

/-- Evaluation changes nothing, and only variables are places. -/
def machine : C.Machine (C.Store V) (Value V) where
  evaluates e c v c' := e.value? O c = some v ∧ c' = c
  stores target v c c' := ∃ x name, target = .var x name ∧ c' = Function.update c x (some v)
  declares x v c c' := c' = Function.update c x v
  truth := O.truthOf

theorem machine_deterministic : O.machine.Deterministic where
  evaluates := by
    rintro e c v w c' c'' ⟨hv, rfl⟩ ⟨hw, rfl⟩
    exact ⟨Option.some.inj (hv.symm.trans hw), rfl⟩
  stores := by
    rintro e v c c' c'' ⟨x, name, rfl, rfl⟩ ⟨y, other, he, rfl⟩
    cases he
    rfl
  declares := by
    rintro x v c c' c'' rfl rfl
    rfl

/-- The same statements in the same store always come to the same. -/
theorem runs_unique {B : C.BlockId → List C.Stmt} {a : List C.Stmt} {c : C.Store V}
    {o o' : C.Outcome (C.Store V) (Value V)} (h : O.machine.Runs B a c o)
    (k : O.machine.Runs B a c o') : o = o' :=
  h.unique O.machine_deterministic k

end Operators

end MiddleEnd
