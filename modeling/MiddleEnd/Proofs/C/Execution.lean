/-
  Running the statements of a C program. What expressions evaluate to and what storing a value does
  is left to a machine; here is only what the statements themselves say about the order in which
  things happen. Blocks are referred to by number, and `B` says what stands in them.
-/
import MiddleEnd.Proofs.Lower.Changes

namespace MiddleEnd.C

/-- How expressions are evaluated and values stored, in states `σ` and for values `V`. Evaluation
may change the state, as that of calls does. -/
structure Machine (σ V : Type) where
  evaluates : Expr → σ → V → σ → Prop
  /-- Storing a value at the place that an expression stands for. -/
  stores : Expr → V → σ → σ → Prop
  /-- A variable that comes into being, with its initial value if it has one. -/
  declares : VarId → Option V → σ → σ → Prop
  truth : V → Bool

/-- How the execution of statements ends. -/
inductive Outcome (σ V : Type)
  | done (s : σ)
  | returned (value : Option V) (s : σ)

namespace Machine

variable {σ V : Type} (M : Machine σ V) (B : BlockId → List Stmt)

/-- A statement that has no blocks and does not return. -/
inductive Acts : Stmt → σ → σ → Prop
  | expr {e : Expr} {s s' : σ} {v : V} : M.evaluates e s v s' → Acts (.expr e) s s'
  | declare {x : VarId} {t : Ty} {name : String} {s s' : σ} :
    M.declares x none s s' → Acts (.declare x t name none) s s'
  | start {x : VarId} {t : Ty} {name : String} {e : Expr} {s s₁ s' : σ} {v : V} :
    M.evaluates e s v s₁ → M.declares x (some v) s₁ s' → Acts (.declare x t name (some e)) s s'
  | assign {target value : Expr} {s s₁ s' : σ} {v : V} :
    M.evaluates value s v s₁ → M.stores target v s₁ s' → Acts (.assign target value) s s'

/-- The statements that a statement with blocks goes on with. -/
inductive Enters : Stmt → σ → List Stmt → σ → Prop
  | block {b : BlockId} {s : σ} : Enters (.block b) s (B b) s
  | taken {c : Expr} {b : BlockId} {d : Option BlockId} {s s' : σ} {v : V} :
    M.evaluates c s v s' → M.truth v = true → Enters (.branch c b d) s (B b) s'
  | other {c : Expr} {b d : BlockId} {s s' : σ} {v : V} :
    M.evaluates c s v s' → M.truth v = false → Enters (.branch c b (some d)) s (B d) s'
  | skipped {c : Expr} {b : BlockId} {s s' : σ} {v : V} :
    M.evaluates c s v s' → M.truth v = false → Enters (.branch c b none) s [] s'

/-- Executing statements one after the other, up to the first that returns. -/
inductive Runs : List Stmt → σ → Outcome σ V → Prop
  | nil {s : σ} : Runs [] s (.done s)
  | act {x : Stmt} {rest : List Stmt} {s s' : σ} {o : Outcome σ V} :
    M.Acts x s s' → Runs rest s' o → Runs (x :: rest) s o
  | retUnit {rest : List Stmt} {s : σ} : Runs (.ret none :: rest) s (.returned none s)
  | ret {e : Expr} {rest : List Stmt} {s s' : σ} {v : V} :
    M.evaluates e s v s' → Runs (.ret (some e) :: rest) s (.returned (some v) s')
  | inside {x : Stmt} {inner rest : List Stmt} {s s₁ s₂ : σ} {o : Outcome σ V} :
    M.Enters B x s inner s₁ → Runs inner s₁ (.done s₂) → Runs rest s₂ o → Runs (x :: rest) s o
  | leave {x : Stmt} {inner rest : List Stmt} {s s₁ s₂ : σ} {v : Option V} :
    M.Enters B x s inner s₁ → Runs inner s₁ (.returned v s₂) →
      Runs (x :: rest) s (.returned v s₂)

/-- Execution that starts at statements comes to the statement `x`, which is one of them or stands
in a block inside. -/
inductive Arrives (x : Stmt) : List Stmt → σ → Prop
  | here {rest : List Stmt} {s : σ} : Arrives x (x :: rest) s
  | inside {y : Stmt} {inner rest : List Stmt} {s s' : σ} :
    M.Enters B y s inner s' → Arrives x inner s' → Arrives x (y :: rest) s
  | later {y : Stmt} {rest : List Stmt} {s s' : σ} :
    M.Runs B [y] s (.done s') → Arrives x rest s' → Arrives x (y :: rest) s

variable {M B} {a b : List Stmt} {s s' : σ} {o : Outcome σ V}

theorem Runs.append (h : M.Runs B a s (.done s')) (h' : M.Runs B b s' o) :
    M.Runs B (a ++ b) s o := by
  generalize hd : Outcome.done (V := V) s' = d at h
  induction h with
  | nil =>
    cases hd
    exact h'
  | act hx _ ih => exact .act hx (ih hd)
  | retUnit | ret | leave => cases hd
  | inside hx hi _ _ ih => exact .inside hx hi (ih hd)

/-- Statements that come to an end are passed before those behind them. -/
theorem Arrives.append {x : Stmt} (h : M.Runs B a s (.done s')) (h' : M.Arrives B x b s') :
    M.Arrives B x (a ++ b) s := by
  generalize hd : Outcome.done (V := V) s' = d at h
  induction h with
  | nil =>
    cases hd
    exact h'
  | act hx _ ih => exact .later (.act hx .nil) (ih hd)
  | retUnit | ret | leave => cases hd
  | inside hx hi _ _ ih => exact .later (.inside hx hi .nil) (ih hd)

end Machine

end MiddleEnd.C
