/-
  The variables that C expressions read, each with the name that it is spelled by, and those that
  statements declare and assign. Assigning an element of an array assigns the variable of the array.

  A variable is in scope from the statement that declares it to the end of the block which that
  statement stands in, and in the blocks in between (`WellScoped`).
-/
import MiddleEnd.Proofs.Lower.Calls

namespace MiddleEnd.C

/-! ## Uses -/

mutual

/-- The variables that an expression reads, as they are spelled. -/
def Expr.uses : Expr → List (VarId × String)
  | .var v name => [(v, name)]
  | .binary _ lhs rhs => lhs.uses ++ rhs.uses
  | .call _ _ args => Expr.usesAll args
  | .index base position => base.uses ++ position.uses
  | .array _ values => Expr.usesAll values
  | .struct _ values => Expr.usesAll values
  | .verbatim _ | .int .. | .float .. | .bool _ | .unit | .constant _ => []

def Expr.usesAll : List Expr → List (VarId × String)
  | [] => []
  | e :: rest => e.uses ++ Expr.usesAll rest

end

theorem Expr.mem_usesAll {u : VarId × String} {es : List Expr} :
    u ∈ Expr.usesAll es ↔ ∃ e ∈ es, u ∈ e.uses := by
  induction es with
  | nil => simp [Expr.usesAll]
  | cons e rest ih => simp [Expr.usesAll, ih]

theorem Expr.mem_callsAll {c : Expr} {es : List Expr} :
    c ∈ Expr.callsAll es ↔ ∃ e ∈ es, c ∈ e.calls := by
  induction es with
  | nil => simp [Expr.callsAll]
  | cons e rest ih => simp [Expr.callsAll, ih]

/-- The expression reads the variable. -/
def Expr.Reads (e : Expr) (v : VarId) : Prop := ∃ name, (v, name) ∈ e.uses

/-- The expression makes a call. -/
def Expr.Calls (e : Expr) : Prop := ∃ c, c ∈ e.calls

/-- The variables that a statement itself reads or assigns, not in its blocks. -/
def Stmt.uses : Stmt → List (VarId × String)
  | .expr e => e.uses
  | .declare _ _ _ init => Expr.usesAll init.toList
  | .assign target value => target.uses ++ value.uses
  | .ret value => Expr.usesAll value.toList
  | .block _ => []
  | .branch condition _ _ => condition.uses

/-- The variable that a statement declares. -/
def Stmt.declared? : Stmt → Option (VarId × String)
  | .declare v _ name _ => some (v, name)
  | _ => none

/-- The program has this variable, under this name. -/
def Program.Spells (p : Program) (u : VarId × String) : Prop :=
  ∃ x, p.vars[u.1.index]? = some x ∧ x.name = u.2

/-- The variables of a program are still there in a later one. -/
def Program.VarsKept (p q : Program) : Prop :=
  ∀ i < p.vars.size, q.vars[i]? = p.vars[i]?

theorem Program.VarsKept.refl (p : Program) : p.VarsKept p := fun _ _ => rfl

theorem Program.VarsKept.of_push {p q : Program} {x : Variable} (h : q.vars = p.vars.push x) :
    p.VarsKept q := by
  intro i hi
  rw [h, Array.getElem?_push, if_neg (Nat.ne_of_lt hi)]

theorem Program.VarsKept.of_eq {p q : Program} (h : q.vars = p.vars) : p.VarsKept q := by
  intro i _
  rw [h]

theorem Program.VarsKept.size {p q : Program} (h : p.VarsKept q) : p.vars.size ≤ q.vars.size := by
  by_contra hlt
  have hsame := h q.vars.size (by omega)
  rw [Array.getElem?_eq_none (Nat.le_refl _), Array.getElem?_eq_getElem (by omega)] at hsame
  cases hsame

theorem Program.VarsKept.trans {p q r : Program} (h : p.VarsKept q) (h' : q.VarsKept r) :
    p.VarsKept r :=
  fun i hi => (h' i (Nat.lt_of_lt_of_le hi h.size)).trans (h i hi)

/-! ## Assignments -/

/-- The variable that an assignment to this place changes. -/
def Expr.place? : Expr → Option VarId
  | .var v _ => some v
  | .index base _ => base.place?
  | _ => none

/-- Some of these statements, or of those in their blocks, assigns the variable. -/
inductive Assigns (B : BlockId → List Stmt) (v : VarId) : List Stmt → Prop
  | here {target value : Expr} {ss : List Stmt} :
    .assign target value ∈ ss → target.place? = some v → Assigns B v ss
  | inside {s : Stmt} {b : BlockId} {ss : List Stmt} :
    s ∈ ss → b ∈ s.blocks → Assigns B v (B b) → Assigns B v ss

namespace Assigns

variable {B : BlockId → List Stmt} {v : VarId} {a b : List Stmt}

theorem append_iff : Assigns B v (a ++ b) ↔ Assigns B v a ∨ Assigns B v b := by
  constructor
  · intro h
    cases h with
    | here hm hv => exact (List.mem_append.1 hm).imp (.here · hv) (.here · hv)
    | inside hm hb hv => exact (List.mem_append.1 hm).imp (.inside · hb hv) (.inside · hb hv)
  · rintro (h | h)
    · cases h with
      | here hm hv => exact .here (List.mem_append_left _ hm) hv
      | inside hm hb hv => exact .inside (List.mem_append_left _ hm) hb hv
    · cases h with
      | here hm hv => exact .here (List.mem_append_right _ hm) hv
      | inside hm hb hv => exact .inside (List.mem_append_right _ hm) hb hv

theorem not_nil : ¬ Assigns B v [] := by
  intro h
  cases h with
  | here hm _ => exact absurd hm List.not_mem_nil
  | inside hm _ _ => exact absurd hm List.not_mem_nil

/-- A single statement assigns its own target and what its blocks assign. -/
theorem single_iff {s : Stmt} : Assigns B v [s] ↔
    (∃ target value, s = .assign target value ∧ target.place? = some v) ∨
      ∃ b ∈ s.blocks, Assigns B v (B b) := by
  constructor
  · intro h
    cases h with
    | here hm hv => exact .inl ⟨_, _, (List.mem_singleton.1 hm).symm, hv⟩
    | inside hm hb hv =>
      rw [List.mem_singleton.1 hm] at hb
      exact .inr ⟨_, hb, hv⟩
  · rintro (⟨target, value, rfl, hv⟩ | ⟨b, hb, hv⟩)
    · exact .here (List.mem_singleton_self _) hv
    · exact .inside (List.mem_singleton_self _) hb hv

end Assigns

/-! ## Scopes -/

/-- The variables that statements declare, not in their blocks. -/
def declares (ss : List Stmt) : List VarId := (ss.filterMap Stmt.declared?).map (·.1)

theorem declares_append (a b : List Stmt) : declares (a ++ b) = declares a ++ declares b := by
  unfold declares
  rw [List.filterMap_append, List.map_append]

/-- In these statements and their blocks every use of a variable is admitted where the variables in
scope are these, those of the declarations in front of it, and those of the declarations in front of
the blocks around it. -/
inductive WellScoped (B : BlockId → List Stmt) (Admits : List VarId → VarId × String → Prop) :
    List VarId → List Stmt → Prop
  | nil {vars : List VarId} : WellScoped B Admits vars []
  | cons {vars : List VarId} {s : Stmt} {rest : List Stmt} :
    (∀ u ∈ s.uses, Admits vars u) →
    (∀ b ∈ s.blocks, WellScoped B Admits vars (B b)) →
    WellScoped B Admits (vars ++ declares [s]) rest →
    WellScoped B Admits vars (s :: rest)

namespace WellScoped

variable {B : BlockId → List Stmt} {Admits : List VarId → VarId × String → Prop}
  {vars : List VarId} {a b : List Stmt}

theorem single {s : Stmt} (hu : ∀ u ∈ s.uses, Admits vars u)
    (hb : ∀ b ∈ s.blocks, WellScoped B Admits vars (B b)) : WellScoped B Admits vars [s] :=
  .cons hu hb .nil

/-- Later statements see what earlier ones declare. -/
theorem append (h : WellScoped B Admits vars a) (h' : WellScoped B Admits (vars ++ declares a) b) :
    WellScoped B Admits vars (a ++ b) := by
  induction h with
  | nil =>
    have hnothing : WellScoped B Admits (_ ++ []) b := h'
    rw [List.append_nil] at hnothing
    exact hnothing
  | @cons vars s rest hu hb hr _ ih =>
    refine .cons hu hb (ih ?_)
    rw [List.append_assoc, ← declares_append]
    exact h'

end WellScoped

end MiddleEnd.C
