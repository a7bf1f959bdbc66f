/-
  No unknown type survives a clean check. Where the first check of a unit ends without a fault and
  reports nothing, every type in the table is complete, but that a blank variable to which nothing
  was assigned keeps the unsettled type (`Session.types_settled`). In particular the type of every
  expression is complete.
-/
import MiddleEnd.Proofs.Check.Unresolved

namespace MiddleEnd

namespace Program

variable {p : Program} {id : IrId}

/-- Blank variables are not firm. -/
theorem not_mem_blanks_of_isFirm (hn : p.ids.Nodup) (h : p.IsFirm id) : id ∉ p.blanks := by
  intro hm
  obtain ⟨g, q, ha, hid⟩ := p.introduced_blanks id hm
  exact not_isFirm_of_irs hn ha hid h

end Program

namespace Session

/-- Where type names mean primitive types or struct items, annotations name firm nodes, and these
are neither expressions nor blank variables. -/
theorem TypesBound.sourced {s : Session} (hb : s.TypesBound) (hn : s.program.ids.Nodup) :
    Check.Sourced s.scope s.types s.program.IsFirm (· ∉ s.program.blanks) s.program.parts
      s.program.blanks where
  firm := Program.not_mem_blanks_of_isFirm hn
  apart he := Program.not_isFirm_of_irs hn he (List.mem_singleton_self _)
  paths := fun ha hid =>
    (hb.typePaths _ (List.mem_filterMap.2 ⟨_, ha, rfl⟩) _ hid).imp_left Program.mem_firm_of_structs
  blanks _ hid hn := hn hid

variable {u : CompilationUnit}

/-- No unknown type survives a clean check. Every type in the table is complete, or it is the
unsettled type of a blank variable; and what is no variable, such as an expression, has a complete
type. -/
theorem types_settled (hids : u.program.ids.Nodup) (hb : (ofUnit u).TypesBound)
    (hclean : (ofUnit u).Clean) :
    (∀ {id ty}, (ofUnit u).check.2.types.get? id = some ty →
      ty.complete = true ∨ (∃ r, ty = .infer r) ∧ id ∈ u.program.blanks) ∧
    ∀ {a}, a ∈ u.program.parts → (∀ h q, a ≠ .bind h q) → ∀ {id ty}, id ∈ a.irs →
      (ofUnit u).check.2.types.get? id = some ty → ty.complete = true := by
  have hgood : Check.Good (ofUnit u).types (· ∉ u.program.blanks) (ofUnit u).check.2.types :=
    (hclean.passes rfl).settles (hb.sourced hids) ((known u).good _)
  have hall : ∀ {id ty}, (ofUnit u).check.2.types.get? id = some ty →
      ty.complete = true ∨ (∃ r, ty = .infer r) ∧ id ∈ u.program.blanks := fun hget =>
    (hgood.entries hget).imp_right fun hi => ⟨hi.1, Classical.not_not.1 hi.2⟩
  refine ⟨hall, fun {a} ha hbind {id ty} hid hget => (hall hget).resolve_right ?_⟩
  rintro ⟨_, hblank⟩
  obtain ⟨g, q, hm, hin⟩ := u.program.introduced_blanks id hblank
  exact Program.not_mem_irs hids ha hm (hbind g q) hid hin

open Samples in
/-- `fn f() { let y; let x; x = 1; }`: the type of `y` is not known in the end, that of `x` is. -/
theorem types_settled_leaving : leaving.program.ids.Nodup ∧ (ofUnit leaving).TypesBound ∧
    (ofUnit leaving).Clean ∧
    (ofUnit leaving).check.2.types.get? ⟨8⟩ = some (.infer ⟨8⟩) ∧ ⟨8⟩ ∈ leaving.program.blanks ∧
    ∃ t, (ofUnit leaving).check.2.types.get? ⟨3⟩ = some t ∧ ⟨3⟩ ∈ leaving.program.blanks ∧
      t.isInfer = false ∧ t.complete = true := by
  have hids : leaving.program.ids.Nodup := by decide +kernel
  have hb : (ofUnit leaving).TypesBound := by decide +kernel
  have hclean : (ofUnit leaving).Clean := by decide +kernel
  have hy : (ofUnit leaving).check.2.types.get? ⟨8⟩ = some (.infer ⟨8⟩) := by decide +kernel
  have hx : (ofUnit leaving).check.2.types.get? ⟨3⟩ = some (.int ⟨17⟩ .w32) := by decide +kernel
  obtain ⟨hall, _⟩ := types_settled hids hb hclean
  refine ⟨hids, hb, hclean, hy, ((hall hy).resolve_left Bool.false_ne_true).2, _, hx,
    by decide +kernel, rfl, (hall hx).resolve_right ?_⟩
  rintro ⟨⟨r, hr⟩, _⟩
  cases hr

end Session

end MiddleEnd
