/-
  Lowering an expression only appends. Nothing that was there before changes but the innermost open
  block, which gets more statements at its end; among the tables only the variables of the `let`s in
  the expression are new (`expr_appends`).
-/
import MiddleEnd.Proofs.C.Variables
import MiddleEnd.Proofs.Lower.Invariant
import MiddleEnd.Proofs.Lower.Slots
import MiddleEnd.Proofs.Syntax.Samples

namespace MiddleEnd.Lower

variable {k : Checked} {l l' : Lowering} {ids : List IrId}

/-- From `l` to `l'` something has been appended; `ids` are the declarations that may have got a new
variable. -/
structure Appends (ids : List IrId) (l l' : Lowering) : Prop where
  /-- The functions being filled are the same. -/
  active : l'.active = l.active
  /-- The same blocks are open, and only the innermost one has more statements, at its end. -/
  blocks : ∃ added, l'.blocks = extend l.blocks added
  /-- Blocks keep their statements, -/
  statements : ∀ i < l.c.blocks.size, l'.c.blocks[i]? = l.c.blocks[i]?
  /-- variables stay as they are, -/
  vars : l.c.VarsKept l'.c
  /-- and so do functions, apart from the names taken in them. No function is new. -/
  functions : ∀ i : Nat, (l'.c.functions[i]?).map C.Function.outline =
    (l.c.functions[i]?).map C.Function.outline
  declared : l'.declared = l.declared
  typeTable : l'.types = l.types
  functionTable : l'.functions = l.functions
  constantTable : l'.constants = l.constants
  variableTable : ∀ id, id ∉ ids → l'.vars[id]? = l.vars[id]?

/-! ## Tables -/

/-- The tables of types, functions and constants are the ones of `l`, and so are its variables. -/
structure Untouched (l l' : Lowering) : Prop where
  types : l'.types = l.types
  functions : l'.functions = l.functions
  constants : l'.constants = l.constants
  vars : l.c.VarsKept l'.c

namespace Untouched

variable {l₀ : Lowering}

theorem refl (l : Lowering) : Untouched l l := ⟨rfl, rfl, rfl, .refl _⟩

/-- No single step of lowering a body enters a type, a function or a constant. -/
theorem invariant (names : List String) (l₀ : Lowering) : Invariant names (Untouched l₀) where
  wrap {l} element length h :=
    { h with vars := h.vars.trans (.of_eq (arrayType_keeps l.c element length).2.2) }
  add _ hr h := by
    obtain ⟨_, _, _, rfl⟩ := runs_addStmt.1 hr
    exact ⟨h.types, h.functions, h.constants, h.vars⟩
  declare _ _ hr h := by
    obtain ⟨_, _, _, rfl⟩ := runs_addStmt.1 hr
    exact { h with vars := h.vars.trans (.of_push rfl) }
  begins _ rnew rpush h := by
    obtain ⟨rfl, rfl⟩ := runs_build.1 rnew
    rw [runs_pushBlock.1 rpush]
    exact ⟨h.types, h.functions, h.constants, h.vars⟩
  ends _ _ _ hr h := by
    obtain ⟨_, _, _, _, rfl⟩ := runs_popBlock.1 hr
    exact ⟨h.types, h.functions, h.constants, h.vars⟩

end Untouched

/-! ## Expressions -/

theorem Changes.statements_get? {added : List C.Stmt} (h : Changes l added l') {i : Nat}
    (hi : i < l.c.blocks.size) : l'.c.blocks[i]? = l.c.blocks[i]? := by
  have hi' : i < l'.c.blocks.size := Nat.lt_of_lt_of_le hi h.size
  have hsame := h.kept ⟨i⟩ hi
  unfold C.Program.statements at hsame
  dsimp only at hsame
  rw [Array.getElem?_eq_getElem hi, Array.getElem?_eq_getElem hi', Option.getD_some,
    Option.getD_some] at hsame
  rw [Array.getElem?_eq_getElem hi, Array.getElem?_eq_getElem hi', hsame]

/-- Whatever has emitted a job without touching the tables has appended. -/
theorem Emitted.appends {j : Job} (h : Emitted k l j l') (hu : Untouched l l') :
    Appends j.declared l l' := by
  obtain ⟨added, hch, hemits⟩ := h
  have hgrows : Grows j.declared (slots l) (slots l') :=
    (hemits l'.c.statements fun _ _ _ => rfl).grows
  exact {
    active := hch.active
    blocks := ⟨added, hch.blocks⟩
    statements := fun _ => hch.statements_get?
    vars := hu.vars
    functions := hch.outline
    declared := hch.declared
    typeTable := hu.types
    functionTable := hu.functions
    constantTable := hu.constants
    variableTable := hgrows.others }

/-- A function with a parameter `x`, declared at node 2, while its body is being lowered. -/
def enterBody (k : Checked) : Lower Unit := do
  enterPrimitives k
  let f ← buildOrFail (·.function "f" (.function [] .void))
  setVariable ⟨2⟩ (← build (·.parameter f "x" (.named "int32_t")))
  pushBlock (← build (·.newBlock))
  pushFunction ⟨f, none⟩
  addStmt (.ret none)

/-- The state in the middle of a body. -/
def inBody (k : Checked) : Lowering := ((enterBody k).run.run (.empty "linux")).2

open Samples in
/-- `{ let x = x; x }` -/
def rebinding : Expr :=
  .block (head 9) [bind 10 11 "x" (some (name 12 "x"))] (some (name 13 "x"))

/-- An expression that is lowered without a fault has only been appended: the open blocks and the
functions being filled are the same as before, all statements but those waiting for the innermost
open block stay, and only the `let`s in the expression have got new variables. -/
theorem expr_appends {e : Expr} {v : C.Expr} (hr : Runs (expr k e) l v l') :
    Appends (Part.declaredAll e.parts) l l' :=
  Emitted.appends ((emitsAll e).1 hr)
    ((keptAll (Untouched.invariant ("__tmp" :: Part.namesAll e.parts) l) (List.mem_cons_self ..) e
      (List.subset_cons_self ..)).expr hr (.refl l))

open Samples in
/-- In the middle of the body of `fn f(x: i32) -> i32 { let x = { let x = x; x }; x }` the inner
block becomes two more statements, and of the tables only the variable of its `let` is new. -/
theorem expr_appends_rebinding :
    ∃ k v l', k = (Session.ofUnit shadowing).check.2.checked ∧
      Runs (expr k rebinding) (inBody k) v l' ∧ Appends [⟨10⟩] (inBody k) l' ∧
      (inBody k).blocks.map (·.pending.length) = [1] ∧ l'.blocks.map (·.pending.length) = [3] := by
  have hok : ((expr (Session.ofUnit shadowing).check.2.checked rebinding).run.run
      (inBody (Session.ofUnit shadowing).check.2.checked)).1.toBool = true := by decide +kernel
  have hbefore : (inBody (Session.ofUnit shadowing).check.2.checked).blocks.map
      (·.pending.length) = [1] := by decide +kernel
  have hafter : ((expr (Session.ofUnit shadowing).check.2.checked rebinding).run.run
      (inBody (Session.ofUnit shadowing).check.2.checked)).2.blocks.map
        (·.pending.length) = [3] := by decide +kernel
  generalize (Session.ofUnit shadowing).check.2.checked = k at *
  rcases hrun : (expr k rebinding).run.run (inBody k) with ⟨e | v, l'⟩
  · rw [hrun] at hok
    cases hok
  · rw [hrun] at hafter
    exact ⟨k, v, l', rfl, hrun, expr_appends hrun, hbefore, hafter⟩

end MiddleEnd.Lower
