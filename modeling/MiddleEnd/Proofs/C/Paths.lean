/-
  Paths through the statements of a C program. A path takes every branch one way or the other, up to
  the first statement that returns, and it may break off anywhere. Every run takes a path, whatever
  expressions are evaluated to (`Machine.Runs.path`), and ends where the path does.

  Along a path variables are assigned. `Secures W B P a R`: once the variables in `P` are assigned,
  no statement on a path through `a` reads a variable in `W` that is not assigned yet, and behind
  `a` the variables in `R` are assigned.
-/
import MiddleEnd.Proofs.C.Execution
import MiddleEnd.Proofs.C.Variables

namespace MiddleEnd.C

variable {B : BlockId → List Stmt}

/-! ## Paths -/

/-- How a path ends: behind the last statement, at one that returns, or anywhere before. -/
inductive Ending
  | through
  | returned (value : Option Expr)
  | underway

/-- A statement that has no blocks and does not return. -/
def Stmt.isPlain : Stmt → Bool
  | .expr _ | .declare .. | .assign .. => true
  | .ret _ | .block _ | .branch .. => false

theorem Stmt.blocks_of_isPlain {x : Stmt} (h : x.isPlain = true) : x.blocks = [] := by
  cases x <;> first | rfl | cases h

/-- The statements that a statement with blocks may go on with. -/
inductive Ways (B : BlockId → List Stmt) : Stmt → List Stmt → Prop
  | block (b : BlockId) : Ways B (.block b) (B b)
  | taken (c : Expr) (b : BlockId) (d : Option BlockId) : Ways B (.branch c b d) (B b)
  | other (c : Expr) (b d : BlockId) : Ways B (.branch c b (some d)) (B d)
  | skipped (c : Expr) (b : BlockId) : Ways B (.branch c b none) []

/-- A path through statements, and the statements that are executed on it. -/
inductive Path (B : BlockId → List Stmt) : List Stmt → List Stmt → Ending → Prop
  | nil : Path B [] [] .through
  | stop (ss : List Stmt) : Path B ss [] .underway
  | plain {x : Stmt} {rest t : List Stmt} {e : Ending} :
    x.isPlain = true → Path B rest t e → Path B (x :: rest) (x :: t) e
  | ret (value : Option Expr) (rest : List Stmt) :
    Path B (.ret value :: rest) [.ret value] (.returned value)
  | inside {x : Stmt} {inner rest t t' : List Stmt} {e : Ending} :
    Ways B x inner → Path B inner t .through → Path B rest t' e →
      Path B (x :: rest) (x :: (t ++ t')) e
  | leave {x : Stmt} {inner t : List Stmt} {e : Ending} (rest : List Stmt) :
    Ways B x inner → Path B inner t e → e ≠ .through → Path B (x :: rest) (x :: t) e

/-- A path through two rows of statements goes through the first one or ends there. -/
theorem Path.append_cases {a b t : List Stmt} {e : Ending} (h : Path B (a ++ b) t e) :
    (∃ t₁ t₂, t = t₁ ++ t₂ ∧ Path B a t₁ .through ∧ Path B b t₂ e) ∨
      e ≠ .through ∧ Path B a t e := by
  induction a generalizing t with
  | nil => exact .inl ⟨[], t, rfl, .nil, h⟩
  | cons x rest ih =>
    cases h with
    | stop => exact .inr ⟨nofun, .stop _⟩
    | plain hx h =>
      rcases ih h with ⟨t₁, t₂, rfl, h₁, h₂⟩ | ⟨he, h⟩
      · exact .inl ⟨x :: t₁, t₂, rfl, .plain hx h₁, h₂⟩
      · exact .inr ⟨he, .plain hx h⟩
    | ret value _ => exact .inr ⟨nofun, .ret value rest⟩
    | @inside _ _ _ t t' _ hx hi h =>
      rcases ih h with ⟨t₁, t₂, rfl, h₁, h₂⟩ | ⟨he, h⟩
      · exact .inl ⟨x :: (t ++ t₁), t₂, by rw [List.cons_append, List.append_assoc],
          .inside hx hi h₁, h₂⟩
      · exact .inr ⟨he, .inside hx hi h⟩
    | leave _ hx hi he => exact .inr ⟨he, .leave rest hx hi he⟩

/-- No path goes on behind a statement that returns. -/
theorem Path.not_through_ret {a t : List Stmt} {value : Option Expr} :
    ¬ Path B (a ++ [.ret value]) t .through := by
  intro h
  rcases h.append_cases with ⟨t₁, t₂, rfl, -, h⟩ | ⟨he, -⟩
  · cases h with
    | plain hx => cases hx
    | inside hx => cases hx
    | leave _ _ _ he => exact he rfl
  · exact he rfl

namespace Machine

variable {σ V : Type} {M : Machine σ V} {ss : List Stmt} {s : σ} {o : Outcome σ V}

theorem Acts.isPlain {x : Stmt} {s s' : σ} (h : M.Acts x s s') : x.isPlain = true := by
  cases h <;> rfl

theorem Enters.ways {x : Stmt} {inner : List Stmt} {s s' : σ} (h : M.Enters B x s inner s') :
    Ways B x inner := by
  cases h with
  | block => exact .block _
  | taken => exact .taken _ _ _
  | other => exact .other _ _ _
  | skipped => exact .skipped _ _

/-- Where a run ends, its path ends as well. -/
inductive Outcome.Ends : Outcome σ V → Ending → Prop
  | done (s : σ) : Ends (.done s) .through
  | returned (e : Option Expr) (v : Option V) (s : σ) :
    e.isSome = v.isSome → Ends (.returned v s) (.returned e)

/-- Every run takes a path. -/
theorem Runs.path (h : M.Runs B ss s o) : ∃ t e, Path B ss t e ∧ Outcome.Ends o e := by
  induction h with
  | nil => exact ⟨_, _, .nil, .done _⟩
  | act hx _ ih =>
    obtain ⟨t, e, ht, he⟩ := ih
    exact ⟨_, e, .plain hx.isPlain ht, he⟩
  | retUnit => exact ⟨_, _, .ret none _, .returned none none _ rfl⟩
  | ret => exact ⟨_, _, .ret (some _) _, .returned (some _) (some _) _ rfl⟩
  | inside hx _ _ ihi ih =>
    obtain ⟨_, _, hi, ⟨⟩⟩ := ihi
    obtain ⟨_, e, ht, he⟩ := ih
    exact ⟨_, e, .inside hx.ways hi ht, he⟩
  | leave hx _ ih =>
    obtain ⟨_, _, hi, hends⟩ := ih
    cases hends with
    | returned e _ _ heq => exact ⟨_, _, .leave _ hx.ways hi nofun, .returned e _ _ heq⟩

/-- A machine on which nothing fails. -/
def lax : Machine Unit Unit :=
  ⟨fun _ _ _ _ => True, fun _ _ _ _ => True, fun _ _ _ _ => True, fun _ => true⟩

theorem lax_runs (B : BlockId → List Stmt) {ss : List Stmt} (h : ss.all Stmt.isPlain = true) :
    lax.Runs B ss () (.done ()) := by
  induction ss with
  | nil => exact .nil
  | cons x rest ih =>
    rw [List.all_cons, Bool.and_eq_true] at h
    refine .act ?_ (ih h.2)
    cases x with
    | expr e => exact .expr (v := ()) trivial
    | declare v ty name init =>
      cases init with
      | none => exact .declare trivial
      | some e =>
        have he : lax.evaluates e () () () := trivial
        exact .start he trivial
    | assign target value =>
      have hvalue : lax.evaluates value () () () := trivial
      exact .assign hvalue trivial
    | ret | block | branch => cases h.1

end Machine

/-! ## Values returned on a path -/

/-- Where a path through the statements returns, it returns one of these. -/
def ReturnsOnly (B : BlockId → List Stmt) (P : Option Expr → Prop) (a : List Stmt) : Prop :=
  ∀ t value, Path B a t (.returned value) → P value

namespace ReturnsOnly

variable {P Q : Option Expr → Prop} {a b : List Stmt}

theorem nil : ReturnsOnly B P [] := fun _ _ h => by cases h

theorem mono (h : ReturnsOnly B P a) (hPQ : ∀ value, P value → Q value) : ReturnsOnly B Q a :=
  fun t value ht => hPQ value (h t value ht)

theorem append (h : ReturnsOnly B P a) (h' : ReturnsOnly B P b) : ReturnsOnly B P (a ++ b) := by
  intro t value ht
  rcases ht.append_cases with ⟨_, t₂, -, -, h₂⟩ | ⟨-, ht⟩
  · exact h' t₂ value h₂
  · exact h t value ht

theorem plain {x : Stmt} (hx : x.isPlain = true) : ReturnsOnly B P [x] := by
  intro t value ht
  cases ht with
  | plain _ ht => cases ht
  | ret => cases hx
  | inside hw | leave _ hw => cases hw <;> cases hx

theorem ret {value : Option Expr} (h : P value) : ReturnsOnly B P [.ret value] := by
  intro t other ht
  cases ht with
  | plain hx => cases hx
  | ret => exact h
  | inside hw | leave _ hw => cases hw

/-- A statement with blocks, whatever way it goes on. -/
theorem ways {x : Stmt} (hx : x.blocks ≠ [])
    (h : ∀ inner, Ways B x inner → ReturnsOnly B P inner) : ReturnsOnly B P [x] := by
  intro t value ht
  cases ht with
  | plain hp => exact absurd (Stmt.blocks_of_isPlain hp) hx
  | ret => exact absurd rfl hx
  | inside _ _ hn => cases hn
  | leave _ hw hi => exact h _ hw _ _ hi

theorem block {x : BlockId} (h : ReturnsOnly B P (B x)) : ReturnsOnly B P [.block x] :=
  ways nofun fun _ hw => by
    cases hw
    exact h

theorem branch {c : Expr} {x y : BlockId} (hx : ReturnsOnly B P (B x))
    (hy : ReturnsOnly B P (B y)) : ReturnsOnly B P [.branch c x (some y)] :=
  ways nofun fun _ hw => by
    cases hw with
    | taken => exact hx
    | other => exact hy

theorem branchOnly {c : Expr} {x : BlockId} (hx : ReturnsOnly B P (B x)) :
    ReturnsOnly B P [.branch c x none] :=
  ways nofun fun _ hw => by
    cases hw with
    | taken => exact hx
    | skipped => exact nil

end ReturnsOnly

/-! ## Assignments along a path -/

/-- The statement assigns the variable as a whole. -/
def Stmt.Sets (x : Stmt) (v : VarId) : Prop := ∃ name value, x = .assign (.var v name) value

/-- The statement itself reads the variable, not in its blocks. Assigning a variable as a whole does
not read it; assigning a part of it does. -/
def Stmt.Reads : Stmt → VarId → Prop
  | .assign (.var _ _) value, v => value.Reads v
  | s, v => ∃ name, (v, name) ∈ s.uses

theorem Stmt.reads_assign {target value : Expr} {v : VarId}
    (h : (Stmt.assign target value).Reads v) : target.Reads v ∨ value.Reads v := by
  cases target with
  | var => exact .inr h
  | _ =>
    obtain ⟨name, h⟩ := h
    exact (List.mem_append.1 h).imp (⟨name, ·⟩) (⟨name, ·⟩)

/-- The variables that are assigned behind the statements `t`, if those in `A` are before. -/
def After (A : VarId → Prop) (t : List Stmt) (v : VarId) : Prop := A v ∨ ∃ x ∈ t, x.Sets v

/-- Executed one after the other, the statements read variables in `W` only where they are assigned,
if those in `A` are before. -/
def AssignedFirst (W : VarId → Prop) : (VarId → Prop) → List Stmt → Prop
  | _, [] => True
  | A, x :: t => (∀ v, W v → x.Reads v → A v) ∧ AssignedFirst W (After A [x]) t

section

variable {W A A' : VarId → Prop} {t t' : List Stmt}

theorem after_append (v : VarId) : After A (t ++ t') v ↔ After (After A t) t' v := by
  unfold After
  simp only [List.mem_append, or_and_right, exists_or, or_assoc]

theorem After.mono (h : ∀ v, A v → A' v) (v : VarId) : After A t v → After A' t v :=
  Or.imp_left (h v)

theorem AssignedFirst.mono (h : AssignedFirst W A t) (hA : ∀ v, A v → A' v) :
    AssignedFirst W A' t := by
  induction t generalizing A A' with
  | nil => trivial
  | cons x t ih => exact ⟨fun v hv hx => hA v (h.1 v hv hx), ih h.2 (After.mono hA)⟩

theorem AssignedFirst.narrow {W' : VarId → Prop} (h : AssignedFirst W A t)
    (hW : ∀ v, W' v → W v) : AssignedFirst W' A t := by
  induction t generalizing A with
  | nil => trivial
  | cons x t ih => exact ⟨fun v hv => h.1 v (hW v hv), ih h.2⟩

theorem AssignedFirst.append (h : AssignedFirst W A t) (h' : AssignedFirst W (After A t) t') :
    AssignedFirst W A (t ++ t') := by
  induction t generalizing A with
  | nil => exact h'.mono fun v hv => hv.elim id fun ⟨_, hx, _⟩ => absurd hx List.not_mem_nil
  | cons x t ih => exact ⟨h.1, ih h.2 (h'.mono fun v => (after_append (t := [x]) v).1)⟩

/-- What is read on the way was assigned before. -/
theorem AssignedFirst.before (h : AssignedFirst W A t) {t₁ t₂ : List Stmt} {x : Stmt}
    (ht : t = t₁ ++ x :: t₂) {v : VarId} (hv : W v) (hx : x.Reads v) : After A t₁ v := by
  induction t₁ generalizing A t with
  | nil =>
    subst ht
    exact .inl (h.1 v hv hx)
  | cons y t₁ ih =>
    subst ht
    exact (after_append (t := [y]) v).2 (ih h.2 rfl)

end

/-- Of the variables in `W`, once those in `P` are assigned: no statement on a path through `a`
reads one that is not assigned yet, and behind `a` those in `R` are assigned. -/
structure Secures (W : VarId → Prop) (B : BlockId → List Stmt) (P : VarId → Prop) (a : List Stmt)
    (R : VarId → Prop) : Prop where
  reads : ∀ {A : VarId → Prop} {t : List Stmt} {e : Ending}, (∀ v, W v → P v → A v) →
    Path B a t e → AssignedFirst W A t
  leaves : ∀ {A : VarId → Prop} {t : List Stmt}, (∀ v, W v → P v → A v) → Path B a t .through →
    ∀ v, W v → R v → After A t v

namespace Secures

variable {W P P' Q R R' : VarId → Prop} {a b : List Stmt}

theorem nil (W P : VarId → Prop) : Secures W B P [] P where
  reads _ ht := by cases ht <;> trivial
  leaves hA _ v hw hv := .inl (hA v hw hv)

theorem mono (h : Secures W B P a R) (hP : ∀ v, W v → P v → P' v) (hR : ∀ v, W v → R' v → R v) :
    Secures W B P' a R' where
  reads hA := h.reads fun v hw hv => hA v hw (hP v hw hv)
  leaves hA ht v hw hv := h.leaves (fun v hw hv => hA v hw (hP v hw hv)) ht v hw (hR v hw hv)

theorem append (h : Secures W B P a Q) (h' : Secures W B Q b R) : Secures W B P (a ++ b) R where
  reads hA ht := by
    rcases ht.append_cases with ⟨t₁, t₂, rfl, h₁, h₂⟩ | ⟨-, ht⟩
    · exact (h.reads hA h₁).append (h'.reads (h.leaves hA h₁) h₂)
    · exact h.reads hA ht
  leaves hA ht v hw hv := by
    rcases ht.append_cases with ⟨t₁, t₂, rfl, h₁, h₂⟩ | ⟨he, -⟩
    · exact (after_append v).2 (h'.leaves (h.leaves hA h₁) h₂ v hw hv)
    · exact absurd rfl he

/-- Less is looked at. -/
theorem narrow {W' : VarId → Prop} (h : Secures W B (fun _ => False) a R)
    (hW : ∀ v, W' v → W v) : Secures W' B (fun _ => False) a R where
  reads _ ht := (h.reads (fun _ _ => False.elim) ht).narrow hW
  leaves _ ht v hw hv := h.leaves (fun _ _ => False.elim) ht v (hW v hw) hv

/-- Behind statements that no path goes through everything holds. -/
theorem never (h : Secures W B P a R) (hno : ∀ t, ¬ Path B a t .through) :
    Secures W B P a R' where
  reads := h.reads
  leaves _ ht := absurd ht (hno _)

/-- What is assigned once stays so. -/
theorem keep (h : Secures W B P a R) : Secures W B P a fun v => P v ∨ R v where
  reads := h.reads
  leaves hA ht v hw hv := hv.elim (fun hp => .inl (hA v hw hp)) (h.leaves hA ht v hw)

/-- Statements that need nothing, behind others. -/
theorem behind (h : Secures W B (fun _ => False) a R) : Secures W B P a fun v => P v ∨ R v :=
  (h.mono (fun _ _ => False.elim) fun _ _ => id).keep

theorem plain {x : Stmt} (hx : x.isPlain = true) (h : ∀ v, W v → x.Reads v → P v) :
    Secures W B P [x] fun v => P v ∨ x.Sets v where
  reads hA ht := by
    cases ht with
    | stop => trivial
    | plain _ ht => cases ht <;> exact ⟨fun v hw hv => hA v hw (h v hw hv), trivial⟩
    | ret => cases hx
    | inside hw | leave _ hw => cases hw <;> cases hx
  leaves hA ht v hw hv := by
    cases ht with
    | plain _ ht =>
      cases ht
      exact hv.elim (fun hp => .inl (hA v hw hp)) fun hs => .inr ⟨x, List.mem_singleton_self x, hs⟩
    | inside hw | leave _ hw => cases hw <;> cases hx

/-- Behind a statement that returns everything holds. -/
theorem ret {value : Option Expr} (h : ∀ v, W v → (Stmt.ret value).Reads v → P v) :
    Secures W B P [.ret value] R where
  reads hA ht := by
    cases ht with
    | stop => trivial
    | ret => exact ⟨fun v hw hv => hA v hw (h v hw hv), trivial⟩
    | plain hx => cases hx
    | inside hw | leave _ hw => cases hw
  leaves _ ht := absurd ht (Path.not_through_ret (a := []))

/-- A statement with blocks, whatever way it goes on. -/
theorem ways {x : Stmt} (hx : x.blocks ≠ []) (hr : ∀ v, W v → x.Reads v → P v)
    (h : ∀ inner, Ways B x inner → Secures W B P inner R) : Secures W B P [x] R := by
  have hafter : ∀ {A : VarId → Prop}, (∀ v, W v → P v → A v) → ∀ v, W v → P v → After A [x] v :=
    fun hA v hw hv => .inl (hA v hw hv)
  refine ⟨fun hA ht => ?_, fun hA ht => ?_⟩
  · cases ht with
    | stop => trivial
    | plain hp => exact absurd (Stmt.blocks_of_isPlain hp) hx
    | ret => exact absurd rfl hx
    | inside hw hi hn =>
      refine ⟨fun v hv hx => hA v hv (hr v hv hx), ?_⟩
      have hinner := (h _ hw).reads (hafter hA) hi
      cases hn <;> exact (List.append_nil _).symm ▸ hinner
    | leave _ hw hi _ =>
      exact ⟨fun v hv hx => hA v hv (hr v hv hx), (h _ hw).reads (hafter hA) hi⟩
  · cases ht with
    | plain hp => exact absurd (Stmt.blocks_of_isPlain hp) hx
    | @inside _ _ _ t _ _ hw hi hn =>
      cases hn
      intro v hv hR
      rw [List.append_nil]
      exact (after_append (t := [x]) v).2 ((h _ hw).leaves (hafter hA) hi v hv hR)
    | leave _ _ _ he => exact absurd rfl he

theorem block {x : BlockId} (h : Secures W B P (B x) R) : Secures W B P [.block x] R :=
  ways nofun (fun _ _ ⟨_, hv⟩ => absurd hv List.not_mem_nil) fun _ hw => by
    cases hw
    exact h

theorem branch {c : Expr} {x y : BlockId} (hc : ∀ v, W v → c.Reads v → P v)
    (hx : Secures W B P (B x) R) (hy : Secures W B P (B y) R) :
    Secures W B P [.branch c x (some y)] R :=
  ways nofun hc fun _ hw => by
    cases hw with
    | taken => exact hx
    | other => exact hy

/-- A branch that may be skipped secures nothing. -/
theorem branchOnly {c : Expr} {x : BlockId} (hc : ∀ v, W v → c.Reads v → P v)
    (hx : Secures W B P (B x) R) : Secures W B P [.branch c x none] P :=
  ways nofun hc fun _ hw => by
    cases hw with
    | taken => exact hx.keep.mono (fun _ _ => id) fun _ _ => .inl
    | skipped => exact .nil W P

end Secures

end MiddleEnd.C
