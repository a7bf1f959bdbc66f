/-
  Node numbers do not matter. Give the nodes of a unit other numbers, throughout and such that no
  two become one: checking comes to the same outcome, reports the same at the same places in the
  same order, finds types that are shown alike, and lowering writes the same C program
  (`Session.alike_renumber`). Nodes that share a number before may go on sharing it.

  Primitive types get numbers behind those of the program, so these move when the program's do.
  The renumbering is extended to them first (`CompilationUnit.exists_faithful`), and then the two
  sessions are compared step by step.
-/
import MiddleEnd.Proofs.Check.Idempotent
import MiddleEnd.Proofs.Lower.Renumber
import MiddleEnd.Proofs.Tables.Numbering

namespace MiddleEnd

variable {ρ : Renumbering}

/-! ## What is seen of a session -/

/-- A diagnostic as it is reported. -/
def Diagnostic.shown (d : Diagnostic) : Severity × String × Location :=
  (d.severity, d.message, d.location)

/-- What is seen of two sessions is the same, where `ρ` says which nodes of `p` correspond. -/
structure Session.Alike (ρ : Renumbering) (p : Program) (s s' : Session) : Prop where
  outcome : SameOutcome s.check.1 s'.check.1
  diagnostics : s'.diagnostics.map Diagnostic.shown = s.diagnostics.map Diagnostic.shown
  types : ∀ i ∈ p.ids, (s'.types.get? (ρ.ir i)).map Ty.text = (s.types.get? i).map Ty.text
  /-- Both sessions are lowered to the same text, or none is. -/
  lowered : ∀ target : String,
    (∃ l l', s.lower target = (.ok (), l) ∧ s'.lower target = (.ok (), l') ∧
      l'.c.output = l.c.output) ∨
    ∃ e e' l l', s.lower target = (.error e, l) ∧ s'.lower target = (.error e', l')

theorem Fault.sameKind_renumber (e : Fault) : e.SameKind (e.renumber ρ) := by
  cases e <;> trivial

theorem Diagnostic.shown_renumber (d : Diagnostic) : (d.renumber ρ).shown = d.shown := by
  unfold shown message renumber
  rw [Problem.message_renumber]

/-! ## Sessions that renumber each other -/

namespace Session

namespace Renumbers

variable {s s' : Session}

theorem check (h : s.Renumbers ρ s') (hρ : ρ.Injective) :
    SameOutcome s.check.1 s'.check.1 ∧ s.check.2.Renumbers ρ s'.check.2 := by
  obtain ⟨hresult, hstate⟩ := Check.mirrors_renumbered hρ h.scope s.program h.progress
  rw [← h.program] at hresult hstate
  have houtcome := hresult.sameOutcome fun e _ he => he ▸ e.sameKind_renumber
  exact ⟨houtcome, h.program, h.scope, hstate⟩

theorem checks (h : s.Renumbers ρ s') (hρ : ρ.Injective) :
    ∀ n, (s.checks n).Renumbers ρ (s'.checks n)
  | 0 => h
  | n + 1 => ((checks h hρ n).check hρ).2

theorem lower (h : s.Renumbers ρ s') (hρ : ρ.Injective) (target : String) :
    Corresponds (fun e e' => e' = e.renumber ρ) id (s.lower target).1 (s'.lower target).1 ∧
      (s.lower target).2.Renumbers ρ (s'.lower target).2 := by
  have hk : s.checked.Renumbers ρ s'.checked := ⟨h.scope, h.progress.types⟩
  have hprogram := Lower.mirrors_program hk hρ s.program
  rw [← h.program] at hprogram
  exact (Lower.mirrors_enterPrimitives hρ hk).bind (fun _ => hprogram)
    (Lowering.renumbers_empty target)

theorem alike (h : s.Renumbers ρ s') (hρ : ρ.Injective) (p : Program) : Alike ρ p s s' where
  outcome := (h.check hρ).1
  diagnostics := by
    unfold Session.diagnostics
    rw [h.progress.diagnostics, List.map_map]
    exact List.map_congr_left fun d _ => d.shown_renumber
  types i _ := by
    rw [show s'.types.get? (ρ.ir i) = _ from h.progress.types.get? i, Option.map_map]
    congr 1
    funext t
    exact t.text_renumber ρ
  lowered target := by
    obtain ⟨hresult, hstate⟩ := h.lower hρ target
    rcases hr : s.lower target with ⟨e | _, l⟩ <;>
      rcases hr' : s'.lower target with ⟨e' | _, l'⟩ <;>
      rw [hr, hr'] at hresult hstate
    · exact .inr ⟨_, _, _, _, rfl, rfl⟩
    · exact hresult.elim
    · exact hresult.elim
    · exact .inl ⟨_, _, rfl, rfl, congrArg (·.output) hstate.c⟩

end Renumbers

/-- Give the nodes of a unit other numbers that keep them apart, and every session of the unit shows
the same as the session of the renumbered one, before and after any number of checks. -/
theorem alike_renumber (u : CompilationUnit) (ρ : Renumbering) (hu : u.Grounded)
    (hρ : CompilationUnit.Separates ρ u) (hroom : (ofUnit u).HasRoom)
    (hroom' : (ofUnit (u.renumber ρ)).HasRoom) (n : Nat) :
    Alike ρ u.program ((ofUnit u).checks n) ((ofUnit (u.renumber ρ)).checks n) := by
  obtain ⟨τ, hτ, hids, hunit, hfollows⟩ := CompilationUnit.exists_faithful hu hρ hroom hroom'
  have halike := ((renumbers_ofUnit hτ hfollows).checks hτ n).alike hτ u.program
  rw [hunit]
  refine ⟨halike.outcome, halike.diagnostics, fun i hi => ?_, halike.lowered⟩
  rw [hids i hi]
  exact halike.types i hi

/-- All surface numbers moved up, and all numbers of the checked tree turned round. -/
def turned : Renumbering := ⟨fun n => ⟨n.val + 30⟩, fun i => ⟨99 - i.val⟩⟩

open Samples in
/-- `fn f() -> i32 { 5 }  fn g() { { }; }`, where two nodes share a number. -/
theorem alike_renumber_sharing : sharing.Grounded ∧ CompilationUnit.Separates turned sharing ∧
    (ofUnit sharing).HasRoom ∧ (ofUnit (sharing.renumber turned)).HasRoom ∧
    Alike turned sharing.program ((ofUnit sharing).checks 1)
      ((ofUnit (sharing.renumber turned)).checks 1) :=
  have hu : sharing.Grounded := by decide +kernel
  have hρ : CompilationUnit.Separates turned sharing := by decide +kernel
  have hroom : (ofUnit sharing).HasRoom := by decide +kernel
  have hroom' : (ofUnit (sharing.renumber turned)).HasRoom := by decide +kernel
  ⟨hu, hρ, hroom, hroom', alike_renumber sharing turned hu hρ hroom hroom' 1⟩

end Session

end MiddleEnd
