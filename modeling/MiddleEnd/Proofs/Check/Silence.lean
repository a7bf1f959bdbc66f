/-
  Nothing fails silently. From any tables, bindings and diagnostics the check of an expression keeps
  what was reported before; a type it gives is the one it leaves recorded for the expression; and a
  type it does not give has been reported (`answers_expr`).

  An expression without a type is left with the record it had, but for one case: assignments settle
  the declaration that their target is bound to, whatever expression that target is, and nothing
  keeps the expression around the assignment from being that declaration (`answers_expr_enclosing`).
-/
import MiddleEnd.Proofs.Check.Rooted

namespace MiddleEnd.Check

variable {s : Scope} {id : IrId} {m : Check (Option Ty)}

/-! ## Recording -/

/-- What is recorded at the end of a run that ends well: the type it gives, if there is one. -/
theorem run_of_recording {p q : Progress} {r : Option Ty}
    (h : (recording id m).run.run p = (.ok r, q)) :
    ∃ v, m.run.run p = (.ok r, v) ∧ q = r.elim v (v.record id) := by
  obtain ⟨given, v, hm, h⟩ := run_bind_ok_iff.1 h
  cases given with
  | none =>
    cases h
    exact ⟨_, hm, rfl⟩
  | some ty =>
    cases h
    exact ⟨_, hm, rfl⟩

/-! ## Frames -/

/-- The roots of tables of which nothing is known. -/
def anyRoots : Roots := ⟨fun _ _ => True, fun _ _ _ => True⟩

theorem rooted_any (t : Ty) : t.Rooted anyRoots :=
  t.rooted_of_all (fun _ _ => trivial) fun _ _ _ => trivial

/-- Every table has grown from itself. -/
theorem grown_self (t : TypeTable) (K : IrId → Prop) : Grown anyRoots t K t where
  builtins := rfl
  builtinIds := rfl
  rooted _ ty _ := rooted_any ty
  returns ty _ := rooted_any ty
  kept _ _ := rfl

/-- What an expression comes to is recorded for it at the end. -/
theorem expr_eq_recording (s : Scope) (e : Expr) (final : Bool) :
    ∃ m, expr s e final = recording e.ir m := by
  have hconfined : Confined (fun _ => True) s e.parts.tail :=
    { nodes := fun _ _ _ _ => trivial
      targets := fun _ _ _ _ _ _ => trivial }
  obtain ⟨m, he, -⟩ := growing_expr (b := .empty) (fun _ ty _ => rooted_any ty) e final hconfined
    fun _ _ _ _ _ _ => trivial
  exact ⟨m, he⟩

/-- Some assignment among the parts has a target that is bound to the node. -/
def IsTarget (s : Scope) (parts : List Part) (id : IrId) : Prop :=
  ∃ h target value, .expr (.assign h target value) ∈ parts ∧ declaration s target = .ok id

/-- Where an expression is left without a type, its record is as it was, if the expression shares
its node with nothing in it and no assignment in it has it for a target. -/
theorem get?_of_none {e : Expr} {final : Bool} {p q : Progress}
    (h : (expr s e final).run.run p = (.ok none, q)) (hself : e.ir ∉ Part.irsAll e.parts.tail)
    (htarget : ¬ IsTarget s e.parts e.ir) : q.types.get? e.ir = p.types.get? e.ir := by
  have hconfined : Confined (· ≠ e.ir) s e.parts.tail :=
    { nodes := fun part hpart id hid he => hself (List.mem_flatMap.2 ⟨part, hpart, he ▸ hid⟩)
      targets := fun h target value id hmem hid he =>
        htarget ⟨h, target, value, List.mem_of_mem_tail hmem, he ▸ hid⟩ }
  have hown : OwnTarget (· ≠ e.ir) s e := fun h target value id he hid hir =>
    htarget ⟨h, target, value, he ▸ e.self_mem_parts, hir ▸ hid⟩
  -- all that happens before the expression's own type is recorded happens at other nodes
  obtain ⟨m, he, hm⟩ := growing_expr (b := p.types) (fun _ ty _ => rooted_any ty) e final hconfined
    hown
  rw [he] at h
  obtain ⟨v, hrun, rfl⟩ := run_of_recording h
  have hgrown := (hm (grown_self p.types _)).1
  rw [hrun] at hgrown
  exact hgrown.kept e.ir (not_not_intro rfl)

/-! ## Expressions -/

/-- What a run of the check of `e` from progress `p` owes: earlier reports are kept, a type that is
given is recorded, and a type that is not given has been reported and is not recorded either. -/
structure Answers (s : Scope) (e : Expr) (p : Progress)
    (run : Except Fault (Option Ty) × Progress) : Prop where
  kept : p.diagnostics <+: run.2.diagnostics
  recorded : ∀ ty, run.1 = .ok (some ty) → run.2.types.get? e.ir = some ty
  reported : run.1 = .ok none → ∃ d ds, run.2.diagnostics = p.diagnostics ++ d :: ds
  unchanged : run.1 = .ok none → e.ir ∉ Part.irsAll e.parts.tail →
    run.2.types.get? e.ir = p.types.get? e.ir ∨ IsTarget s e.parts e.ir

/-- The check of an expression answers for what it gives, in any scope and from any progress. -/
theorem answers_expr (s : Scope) (e : Expr) (final : Bool) (p : Progress) :
    Answers s e p ((expr s e final).run.run p) := by
  have hmeets := meets_expr (s := s) e final
  have hkept := hmeets.keeps p
  rcases hrun : (expr s e final).run.run p with ⟨r, q⟩
  rw [hrun] at hkept
  refine ⟨hkept, ?recorded, ?reported, ?unchanged⟩
  case recorded =>
    rintro ty rfl
    obtain ⟨m, he⟩ := expr_eq_recording s e final
    rw [he] at hrun
    obtain ⟨v, -, rfl⟩ := run_of_recording hrun
    exact get?_record_self
  case reported =>
    rintro rfl
    obtain ⟨ds, hds⟩ := hkept
    cases ds with
    | cons d ds => exact ⟨d, ds, hds.symm⟩
    | nil =>
      -- a run that reports nothing is a derivation, and derivations give a type
      obtain ⟨ty, hty, _⟩ := hmeets.clean p none q hrun (by rw [← hds, List.append_nil])
      cases hty
  case unchanged =>
    rintro rfl hself
    exact or_iff_not_imp_right.2 fun htarget => get?_of_none hrun hself htarget

end MiddleEnd.Check

namespace MiddleEnd.Session

open Check

open Samples in
/-- The progress where the statement of `enclosing` that is a block begins. -/
def enclosingStart : Progress :=
  ((stmts (ofUnit enclosing).scope unsettledArray).run.run (ofUnit enclosing).progress).2

open Samples in
/-- The block of `enclosing` is left without a type, which is reported. It gets a record all the
same, since the place `y[0]` that is assigned to in it is bound to it. -/
theorem answers_expr_enclosing :
    let run := (expr (ofUnit enclosing).scope strayingBlock false).run.run enclosingStart
    run.1 = .ok none ∧ (∃ d ds, run.2.diagnostics = enclosingStart.diagnostics ++ d :: ds) ∧
      ⟨14⟩ ∉ Part.irsAll strayingBlock.parts.tail ∧
      run.2.types.get? ⟨14⟩ ≠ enclosingStart.types.get? ⟨14⟩ ∧
      IsTarget (ofUnit enclosing).scope strayingBlock.parts ⟨14⟩ := by
  have hnone : ((expr (ofUnit enclosing).scope strayingBlock false).run.run enclosingStart).1 =
      .ok none := by
    decide +kernel
  have hself : strayingBlock.ir ∉ Part.irsAll strayingBlock.parts.tail := by decide +kernel
  have hchanged : ((expr (ofUnit enclosing).scope strayingBlock false).run.run
      enclosingStart).2.types.get? ⟨14⟩ ≠ enclosingStart.types.get? ⟨14⟩ := by
    decide +kernel
  have hanswers := answers_expr (ofUnit enclosing).scope strayingBlock false enclosingStart
  exact ⟨hnone, hanswers.reported hnone, hself, hchanged,
    (hanswers.unchanged hnone hself).resolve_left hchanged⟩

end MiddleEnd.Session
