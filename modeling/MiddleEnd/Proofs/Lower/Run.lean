/-
  Runs of the lowering monad that end without a fault, read backwards: what a run of a step gives
  and leaves, and into which runs a run of several steps falls apart.
-/
import MiddleEnd.Lower.Program
import MiddleEnd.Proofs.Runs

namespace MiddleEnd.Lower

variable {α β : Type} {l l' : Lowering}

/-- From state `l` the step gives `a` and leaves state `l'`. -/
def Runs (m : Lower α) (l : Lowering) (a : α) (l' : Lowering) : Prop :=
  m.run.run l = (.ok a, l')

theorem runs_pure {a b : α} : Runs (pure a) l b l' ↔ b = a ∧ l' = l :=
  run_pure_ok_iff

theorem runs_bind {m : Lower α} {f : α → Lower β} {b : β} :
    Runs (m >>= f) l b l' ↔ ∃ a l₁, Runs m l a l₁ ∧ Runs (f a) l₁ b l' :=
  run_bind_ok_iff

theorem runs_get_bind {f : Lowering → Lower β} {b : β} :
    Runs (get >>= f) l b l' ↔ Runs (f l) l b l' :=
  Iff.rfl

theorem not_runs_defect {d : Defect} {a : α} : ¬ Runs (defect d : Lower α) l a l' := nofun

theorem runs_require {d : Defect} {o : Option α} {a : α} :
    Runs (require d o) l a l' ↔ o = some a ∧ l' = l := by
  cases o with
  | none => exact ⟨nofun, nofun⟩
  | some b => rw [require, runs_pure, Option.some.injEq, eq_comm]

theorem runs_modify {f : Lowering → Lowering} {x : PUnit} :
    Runs (modify f) l x l' ↔ l' = f l := by
  have h : ((modify f : Lower PUnit).run.run l) = (.ok PUnit.unit, f l) := rfl
  unfold Runs
  rw [h, Prod.mk.injEq, @eq_comm _ l']
  exact and_iff_right rfl

theorem runs_set {q : Lowering} {x : PUnit} : Runs (set q) l x l' ↔ l' = q := runs_modify

theorem runs_note {e : Event} {x : Unit} : Runs (note e) l x l' ↔ l' = l.note e := runs_modify

theorem runs_discard {m : Lower α} {x : PUnit} :
    Runs (discard m) l x l' ↔ ∃ a, Runs m l a l' := by
  rw [show (discard m : Lower PUnit) = m >>= fun _ => pure PUnit.unit from rfl, runs_bind]
  constructor
  · intro ⟨a, l₁, ha, hp⟩
    obtain ⟨_, rfl⟩ := runs_pure.1 hp
    exact ⟨a, ha⟩
  · intro ⟨a, ha⟩
    exact ⟨a, l', ha, runs_pure.2 ⟨rfl, rfl⟩⟩

theorem runs_build {f : C.Program → α × C.Program} {a : α} :
    Runs (build f) l a l' ↔ a = (f l.c).1 ∧ l' = { l with c := (f l.c).2 } := by
  have h : ((build f : Lower α).run.run l) = (.ok (f l.c).1, { l with c := (f l.c).2 }) := rfl
  unfold Runs
  rw [h, Prod.mk.injEq, Except.ok.injEq, eq_comm, @eq_comm _ l']

theorem runs_buildOrFail {f : C.Program → Except Defect α × C.Program} {a : α} :
    Runs (buildOrFail f) l a l' ↔ (f l.c).1 = .ok a ∧ l' = { l with c := (f l.c).2 } := by
  unfold buildOrFail
  rw [runs_bind]
  constructor
  · intro ⟨r, l₁, hb, hr⟩
    obtain ⟨rfl, rfl⟩ := runs_build.1 hb
    cases hc : (f l.c).1 with
    | error d =>
      rw [hc] at hr
      exact absurd hr not_runs_defect
    | ok b =>
      rw [hc] at hr
      obtain ⟨rfl, rfl⟩ := runs_pure.1 hr
      exact ⟨rfl, rfl⟩
  · intro ⟨ha, hl⟩
    refine ⟨.ok a, l', runs_build.2 ⟨ha.symm, hl⟩, runs_pure.2 ⟨rfl, rfl⟩⟩

theorem runs_look {f : C.Program → α} {a : α} : Runs (look f) l a l' ↔ a = f l.c ∧ l' = l :=
  runs_pure

theorem runs_activation {a : Activation} :
    Runs activation l a l' ↔ l.active.head? = some a ∧ l' = l :=
  runs_require

/-! ## Open blocks -/

/-- What stands in a block once a new one has been made. -/
theorem mem_statements_newBlock {p : C.Program} {b : C.BlockId} {s : C.Stmt}
    (h : s ∈ p.newBlock.2.statements b) : s ∈ p.statements b := by
  have h : s ∈ (p.blocks.push [])[b.index]?.getD [] := h
  rw [Array.getElem?_push] at h
  split at h
  · cases h
  · exact h

/-- What stands in a block once statements have been put into one. -/
theorem mem_statements_extendBlock {p : C.Program} {b c : C.BlockId} {ss : List C.Stmt} {s : C.Stmt}
    (h : s ∈ (p.extendBlock b ss).statements c) : s ∈ p.statements c ∨ s ∈ ss := by
  have h : s ∈ ((p.blocks.modify b.index (· ++ ss))[c.index]?).getD [] := h
  rw [Array.getElem?_modify] at h
  unfold C.Program.statements
  split at h
  · cases hb : p.blocks[c.index]? with
    | none =>
      rw [hb] at h
      cases h
    | some old =>
      rw [hb] at h
      exact List.mem_append.1 h
  · exact .inl h

theorem runs_addStmt {s : C.Stmt} {x : Unit} :
    Runs (addStmt s) l x l' ↔ ∃ o rest, l.blocks = o :: rest ∧
      l' = { l with blocks := ⟨o.block, o.pending ++ [s]⟩ :: rest } := by
  unfold addStmt
  rw [runs_get_bind]
  cases hb : l.blocks with
  | nil =>
    constructor
    · intro h
      exact absurd h not_runs_defect
    · intro ⟨_, _, h, _⟩
      cases h
  | cons o rest =>
    constructor
    · intro h
      exact ⟨o, rest, rfl, runs_set.1 h⟩
    · intro ⟨o', rest', he, hl⟩
      cases he
      exact runs_set.2 hl

theorem runs_pushBlock {b : C.BlockId} {x : Unit} :
    Runs (pushBlock b) l x l' ↔
      l' = { l.note (.blockOpened (l.blocks.length + 1)) with blocks := ⟨b, []⟩ :: l.blocks } := by
  unfold pushBlock
  rw [runs_get_bind, runs_bind]
  constructor
  · intro ⟨_, l₁, hn, hm⟩
    rw [runs_note.1 hn] at hm
    exact runs_modify.1 hm
  · intro h
    exact ⟨(), _, runs_note.2 rfl, runs_modify.2 h⟩

/-- Closing a block puts the statements that wait for it into it. -/
theorem runs_popBlock {b : C.BlockId} : Runs popBlock l b l' ↔
    ∃ o rest, l.blocks = o :: rest ∧ b = o.block ∧
      l' = { l with
        blocks := rest
        events := l.events ++ [.blockClosed o.pending.length]
        c := l.c.extendBlock o.block o.pending } := by
  unfold popBlock
  rw [runs_get_bind]
  cases hb : l.blocks with
  | nil => exact ⟨fun h => absurd h not_runs_defect, nofun⟩
  | cons o rest =>
    constructor
    · intro h
      cases h
      exact ⟨o, rest, rfl, rfl, rfl⟩
    · intro ⟨o', rest', he, hbl, hl⟩
      cases he
      rw [hbl, hl]
      rfl

/-- Leaving the innermost function. -/
theorem runs_popFunction {a : Activation} : Runs popFunction l a l' ↔
    ∃ rest, l.active = a :: rest ∧ l' = { l with active := rest } := by
  unfold popFunction
  rw [runs_get_bind]
  cases hb : l.active with
  | nil =>
    constructor
    · intro h
      exact absurd h not_runs_defect
    · intro ⟨_, h, _⟩
      cases h
  | cons o rest =>
    constructor
    · intro h
      cases h
      exact ⟨rest, rfl, rfl⟩
    · intro ⟨rest', he, hl⟩
      cases he
      rw [hl]
      rfl

/-! ## Equations of lowering -/

/-- What lowering adds to the block of a branch, and the value it may have there. -/
def branch (k : Checked) : Expr → Lower (Option C.Expr)
  | .block _ ss tail => contents k ss tail
  | e => effectOnly e (expr k e)

variable (k : Checked) (h : Head)

theorem expr_ifOnly (condition body : Expr) :
    expr k (.ifOnly h condition body) = (do
      let c ← expr k condition
      let b ← inBlock none (branch k body)
      addStmt (.branch c b none)
      return .unit) := by
  cases body <;> rfl

theorem expr_ifElse (condition thenBody elseBody : Expr) :
    expr k (.ifElse h condition thenBody elseBody) = (do
      let t ← typeOf k h.id.ir
      let c ← expr k condition
      let target ← temporary? t
      let b ← inBlock target (branch k thenBody)
      let d ← inBlock target (branch k elseBody)
      addStmt (.branch c b (some d))
      load target) := by
  cases thenBody <;> cases elseBody <;> rfl

theorem expr_ifElseIf (condition thenBody elseIf : Expr) :
    expr k (.ifElseIf h condition thenBody elseIf) = (do
      let c ← expr k condition
      let b ← inBlock none (branch k thenBody)
      let d ← inBlock none (branch k elseIf)
      addStmt (.branch c b (some d))
      return .unit) := by
  cases thenBody <;> cases elseIf <;> rfl

theorem expr_block (ss : List Stmt) (tail : Option Expr) :
    expr k (.block h ss tail) = (do
      let t ← typeOf k h.id.ir
      let target ← temporary? t
      let b ← inBlock target (branch k (.block h ss tail))
      addStmt (.block b)
      load target) :=
  rfl

end MiddleEnd.Lower
