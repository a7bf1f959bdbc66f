/-
  Signatures and bodies in the final table. A signature is recorded once and never changes, so what
  it says can be read off the final table (`HasSignature.typed`); a body is checked when all
  signatures are there, so its derivation holds in the final table too (`Fits.typed`).
-/
import MiddleEnd.Proofs.Check.Soundness

namespace MiddleEnd.Check

variable {s : Scope} {b T : TypeTable} {V F : IrId → Prop}

/-- The nodes are distinct and have no types yet. -/
structure Unrecorded (ids : List IrId) (t : TypeTable) : Prop where
  nodup : ids.Nodup
  fresh : ∀ id ∈ ids, t.get? id = none

namespace Unrecorded

variable {ids ids' : List IrId} {id : IrId} {t u : TypeTable}

theorem head (h : Unrecorded (id :: ids) t) : t.get? id = none := h.fresh id (List.mem_cons_self ..)

theorem not_mem (h : Unrecorded (id :: ids) t) : id ∉ ids := (List.nodup_cons.1 h.nodup).1

theorem tail (h : Unrecorded (id :: ids) t) : Unrecorded ids t :=
  ⟨(List.nodup_cons.1 h.nodup).2, fun other ho => h.fresh other (List.mem_cons_of_mem _ ho)⟩

theorem left (h : Unrecorded (ids ++ ids') t) : Unrecorded ids t :=
  ⟨(List.nodup_append.1 h.nodup).1, fun other ho => h.fresh other (List.mem_append_left _ ho)⟩

/-- Nodes stay without types while others get theirs. -/
theorem after (h : Unrecorded (ids ++ ids') t)
    (hnone : ∀ id, id ∉ ids → t.get? id = none → u.get? id = none) : Unrecorded ids' u where
  nodup := (List.nodup_append.1 h.nodup).2.1
  fresh other ho := by
    have hd : other ∉ ids := fun hm => (List.nodup_append.1 h.nodup).2.2 other hm other ho rfl
    exact hnone other hd (h.fresh other (List.mem_append_right _ ho))

theorem record (h : Unrecorded (id :: ids) t) (ty : Ty) : Unrecorded ids (t.record id ty) where
  nodup := h.tail.nodup
  fresh other ho := by
    have hne : id ≠ other := fun he => h.not_mem (he ▸ ho)
    rw [get?_record_of_ne hne]
    exact h.tail.fresh other ho

/-- A node moved behind others. -/
theorem rotate (h : Unrecorded (id :: (ids ++ ids')) t) : Unrecorded (ids ++ (id :: ids')) t where
  nodup := List.perm_middle.nodup_iff.2 h.nodup
  fresh other ho := h.fresh other (List.perm_middle.mem_iff.1 ho)

end Unrecorded

theorem SameBut.none {t u : TypeTable} {ids : List IrId} (h : SameBut (· ∈ ids) t u) (id : IrId)
    (hid : id ∉ ids) (hn : t.get? id = none) : u.get? id = none :=
  (h id hid).trans hn

theorem Knows.of_frame {t u : TypeTable} {ids : List IrId} (h : Knows V u T)
    (hs : SameSetting t u) (hf : SameBut (· ∈ ids) t u)
    (hfresh : ∀ id ∈ ids, t.get? id = none) : Knows V t T := by
  refine h.of_kept hs ?_
  intro id ty hg _
  have hid : id ∉ ids := by
    intro hm
    rw [hfresh id hm] at hg
    cases hg
  exact (hf id hid).trans hg

/-! ## Signatures -/

/-- An annotation at nodes without types: its type is complete, and what comes after it in the
final table tells what it stands for. -/
theorem Annotates.typed {t u : TypeTable} {a : TypeExpr} {ty : Ty} (h : Annotates s t a ty u)
    (hVF : ∀ id, F id → ¬ V id) (hp : Placed s b V F a.ids a.parts) (hg : Good b F t)
    (hfresh : ∀ id ∈ a.ids, t.get? id = none) :
    (Good b F u ∧ ty.complete = true) ∧
      (Knows V u T → Denotes s T a ty ∧ Knows V t T) := by
  refine ⟨h.good hg hp.paths, ?_⟩
  intro hk
  have hr : Ready s b V F t.return? a.ids a.parts t := ⟨hp, hg, hfresh, rfl⟩
  exact ⟨h.denotes hVF hr hk, hk.of_frame h.setting (h.frame fun _ hm => hm) hfresh⟩

theorem HasParams.typed {t u : TypeTable} {ps : List Param} {ms : Members}
    (h : HasParams s t ps ms u) (hVF : ∀ id, F id → ¬ V id) :
    (∀ p ∈ ps, ¬ V p.head.id.ir ∧ ¬ V p.pattern.id.ir) →
    Placed s b V F (ps.flatMap fun p => p.type.ids) (ps.flatMap fun p => p.type.parts) →
    Good b F t → Unrecorded (ps.flatMap Param.ids) t →
    (Good b F u ∧ ms.complete = true) ∧
      (Knows V u T → TypedParams s T ps ms ∧ Knows V t T) := by
  induction h with
  | nil t => exact fun _ _ hg _ => ⟨⟨hg, rfl⟩, fun hk => ⟨.nil, hk⟩⟩
  | @cons t u v p rest ty ms ha _ ih =>
    intro hv hp hg hn
    simp only [List.flatMap_cons, Param.ids_eq, List.cons_append] at hp hn
    obtain ⟨⟨hgu, hc⟩, hden⟩ := ha.typed hVF hp.left hg hn.tail.tail.left.fresh
    have hframe : SameBut (· ∈ p.type.ids) t u := ha.frame fun _ hm => hm
    have hmoved : Unrecorded (p.type.ids ++ p.head.id.ir :: p.pattern.id.ir ::
        rest.flatMap Param.ids) t := by
      have hperm : (p.type.ids ++ p.head.id.ir :: p.pattern.id.ir :: rest.flatMap Param.ids).Perm
          (p.head.id.ir :: p.pattern.id.ir :: (p.type.ids ++ rest.flatMap Param.ids)) :=
        List.perm_middle.trans (List.perm_middle.cons _)
      exact ⟨hperm.nodup_iff.2 hn.nodup, fun id hm => hn.fresh id (hperm.mem_iff.1 hm)⟩
    have hu := hmoved.after hframe.none
    have hne : p.pattern.id.ir ≠ p.head.id.ir := fun he => hu.not_mem (he ▸ List.mem_cons_self ..)
    obtain ⟨⟨hgv, hcs⟩, hrest⟩ := ih (fun q hq => hv q (List.mem_cons_of_mem _ hq)) hp.right
      ((hgu.record (.inl hc)).record (.inl hc)) ((hu.record ty).record ty)
    refine ⟨⟨hgv, by rw [Members.complete, hc, hcs]; rfl⟩, ?_⟩
    intro hk
    obtain ⟨htyped, hkw⟩ := hrest hk
    have hkh := hkw.of_record (hu.record ty).head
    obtain ⟨hd, hkt⟩ := hden (hkh.of_record hu.head)
    obtain ⟨hvh, hvp⟩ := hv p (List.mem_cons_self ..)
    exact ⟨.cons hd (hkh.get?_self hc hvh) (hkw.get?_self hc hvp) htyped, hkt⟩

theorem HasFields.typed {t u : TypeTable} {fs : List FieldDecl} {ms : Members}
    (h : HasFields s t fs ms u) (hVF : ∀ id, F id → ¬ V id) :
    (∀ f ∈ fs, ¬ V f.head.id.ir) →
    Placed s b V F (fs.flatMap fun f => f.type.ids) (fs.flatMap fun f => f.type.parts) →
    Good b F t → Unrecorded (fs.flatMap FieldDecl.ids) t →
    (Good b F u ∧ ms.complete = true) ∧
      (Knows V u T → TypedFields s T fs ms ∧ Knows V t T) := by
  induction h with
  | nil t => exact fun _ _ hg _ => ⟨⟨hg, rfl⟩, fun hk => ⟨.nil, hk⟩⟩
  | @cons t u v f rest ty ms ha _ ih =>
    intro hv hp hg hn
    simp only [List.flatMap_cons, FieldDecl.ids_eq, List.cons_append] at hp hn
    obtain ⟨⟨hgu, hc⟩, hden⟩ := ha.typed hVF hp.left hg hn.tail.left.fresh
    have hu : Unrecorded (f.head.id.ir :: rest.flatMap FieldDecl.ids) u :=
      hn.rotate.after (ha.frame (P := (· ∈ f.type.ids)) fun _ hm => hm).none
    have hcf : (Ty.field f.head.id.ir f.name ty).complete = true := hc
    obtain ⟨⟨hgv, hcs⟩, hrest⟩ := ih (fun q hq => hv q (List.mem_cons_of_mem _ hq)) hp.right
      (hgu.record (.inl hcf)) (hu.record _)
    refine ⟨⟨hgv, by rw [Members.complete, hc, hcs]; rfl⟩, ?_⟩
    intro hk
    obtain ⟨htyped, hkw⟩ := hrest hk
    obtain ⟨hd, hkt⟩ := hden (hkw.of_record hu.head)
    exact ⟨.cons hd (hkw.get?_self hcf (hv f (List.mem_cons_self ..))) htyped, hkt⟩

/-- Parts of signatures, which are placed as their annotations are. -/
theorem Placed.of_irsAll {ids : List IrId} {parts : List Part}
    (h : Placed s b V F (Part.irsAll parts) parts) (hids : Part.irsAll parts = ids) :
    Placed s b V F ids parts :=
  hids ▸ h

theorem HasSignature.typed {t u : TypeTable} {i : Item} {ty : Ty} (h : HasSignature s t i ty u)
    (hVF : ∀ id, F id → ¬ V id) (hv : ∀ id ∈ i.firm, ¬ V id)
    (hp : Placed s b V F (Part.irsAll i.signatureParts) i.signatureParts) (hg : Good b F t)
    (hn : Unrecorded i.signatureIds.tail t) :
    (Good b F u ∧ ty.complete = true) ∧
      (Knows V u T → TypedSignature s T i ty ∧ Knows V t T) := by
  cases h with
  | @function v _ ps result h d hps ha =>
    simp only [Item.signatureParts, Part.irsAll_append, irsAll_flatMap, TypeExpr.irsAll_parts,
      TypeExpr.irsAll_partsOf] at hp
    simp only [Item.signatureIds, List.tail_cons] at hn
    have hvp : ∀ p ∈ d.params, ¬ V p.head.id.ir ∧ ¬ V p.pattern.id.ir := by
      intro p hm
      have hf : ∀ id ∈ [p.head.id.ir, p.pattern.id.ir], ¬ V id := fun id hid =>
        hv id (List.mem_cons_of_mem _ (List.mem_flatMap.2 ⟨p, hm, hid⟩))
      exact ⟨hf _ (by simp), hf _ (by simp)⟩
    obtain ⟨⟨hgv, hcs⟩, htp⟩ := hps.typed hVF hvp hp.left hg hn.left
    have hnv := hn.after (hps.frame (P := (· ∈ d.params.flatMap Param.ids)) fun _ hm => hm).none
    obtain ⟨hgu, hcr⟩ := good_of_annotates? ha hgv hp.right.paths
    have hc : (result.getD (.unit h.id.ir)).complete = true := by
      cases result with
      | none => rfl
      | some r => exact hcr r rfl
    refine ⟨⟨hgu, by rw [Ty.complete, hcs, hc]; rfl⟩, ?_⟩
    intro hk
    have hr : Ready s b V F v.return? (TypeExpr.idsOf d.returns) (TypeExpr.partsOf d.returns) v :=
      ⟨hp.right, hgv, hnv.fresh, rfl⟩
    obtain ⟨hps', hkt⟩ := htp (hk.of_frame ha.setting (ha.frame fun _ hm => hm) hnv.fresh)
    exact ⟨.function h d hps' (ha.denotes hVF hr hk), hkt⟩
  | struct h d hf =>
    simp only [Item.signatureParts, irsAll_flatMap, TypeExpr.irsAll_parts] at hp
    have hvf : ∀ f ∈ d.fields, ¬ V f.head.id.ir := fun f hm =>
      hv _ (List.mem_cons_of_mem _ (List.mem_map.2 ⟨f, hm, rfl⟩))
    obtain ⟨⟨hgu, hcs⟩, htf⟩ := hf.typed hVF hvf hp hg hn
    refine ⟨⟨hgu, hcs⟩, ?_⟩
    intro hk
    exact ⟨.struct h d (htf hk).1, (htf hk).2⟩
  | constant h d ha =>
    simp only [Item.signatureParts, TypeExpr.irsAll_parts] at hp
    obtain ⟨hgood, hta⟩ := ha.typed hVF hp hg hn.fresh
    exact ⟨hgood, fun hk => ⟨.constant h d (hta hk).1, (hta hk).2⟩⟩
  | static h d ha =>
    simp only [Item.signatureParts, TypeExpr.irsAll_parts] at hp
    obtain ⟨hgood, hta⟩ := ha.typed hVF hp hg hn.fresh
    exact ⟨hgood, fun hk => ⟨.static h d (hta hk).1, (hta hk).2⟩⟩

/-! ## Bodies -/

theorem Evolves.none {ids : List IrId} {parts : List Part} {t u : TypeTable}
    (h : Evolves s V ids parts t u) (id : IrId) (hid : id ∉ ids) (hn : t.get? id = none) :
    u.get? id = none :=
  h.get?_eq_none hid hn

/-- The initial value of a constant or static item, outside all functions. -/
theorem Derives.typedInitial {t u : TypeTable} {e : Expr} {ty declared both : Ty}
    (h : Derives s t (.expr e false ty) u) (hVF : ∀ id, F id → ¬ V id)
    (hp : Placed s b V F e.ids e.parts) (hg : Good b F t) (hr : t.returns = [])
    (hfresh : ∀ id ∈ e.ids, t.get? id = none) (hd : declared.complete = true)
    (hc : declared.combine? ty = some both) :
    Good b F u ∧ Evolves s V e.ids e.parts t u ∧
      (Knows V u T → Knows V t T ∧ (AssignsAlike s T e.parts →
        Typed s T none (.expr e false ty) ∧ ty.Alike declared)) := by
  have hready : Ready s b V F none e.ids e.parts t :=
    ⟨hp, hg, hfresh, by unfold TypeTable.return?; rw [hr]; rfl⟩
  have he := h.evolved trivial hready
  refine ⟨he.good, he.evolves, ?_⟩
  intro hk
  refine ⟨h.knows trivial hready hk, ?_⟩
  intro hka
  exact ⟨h.typed hVF trivial hready hk hka, (Ty.combine?_complete hd he.found hc).2.symm⟩

/-- Where a body leads from good tables that have no types for its nodes. -/
theorem Fits.typed {t u : TypeTable} {i : Item} (h : Fits s t i u) (hVF : ∀ id, F id → ¬ V id)
    (hF : F i.head.id.ir) (hp : Placed s b V F i.bodyIds i.bodyParts) (hg : Good b F t)
    (hr : t.returns = []) (hfresh : ∀ id ∈ i.bodyIds, t.get? id = none) :
    Good b F u ∧ Evolves s V i.bodyIds i.bodyParts t u ∧
      (Knows V u T → Knows V t T ∧ (AssignsAlike s T i.bodyParts →
        ∀ ty, T.get? i.head.id.ir = some ty → TypedBody s T i ty)) := by
  cases h with
  | @function v r ps result ty h d hget hb ht =>
    have hfn := hg.firm hget hF
    have hresult : result.complete = true := (Bool.and_eq_true _ _ ▸ hfn).2
    have hready : Ready s b V F (some result) d.body.ids d.body.parts (t.pushReturn result) :=
      ⟨hp, hg.pushReturn hresult, hfresh, rfl⟩
    have he := hb.evolved trivial hready
    refine ⟨he.good.popReturn, ⟨he.evolves.within, he.evolves.step⟩, ?_⟩
    intro hk
    have hkv : Knows V v T := ⟨hk.builtins, hk.builtinIds, hk.exact, hk.alike⟩
    have hkp := hb.knows trivial hready hkv
    have hkt : Knows V t T := ⟨hkp.builtins, hkp.builtinIds, hkp.exact, hkp.alike⟩
    refine ⟨hkt, ?_⟩
    intro hka declared hdeclared
    cases hdeclared.symm.trans (hkt.exact hget hfn (hVF _ hF))
    refine .function h d (hb.typed hVF trivial hready hkv hka) ?_
    intro tail htail
    obtain ⟨both, hcomb⟩ := Option.isSome_iff_exists.1 (ht tail htail)
    exact (Ty.combine?_complete hresult he.found hcomb).2.symm
  | struct h d => exact ⟨hg, .refl t, fun hk => ⟨hk, fun _ ty _ => .struct h d⟩⟩
  | constant h d hget hv hcomb =>
    have hc := hg.firm hget hF
    obtain ⟨hgu, he, hty⟩ := hv.typedInitial hVF hp hg hr hfresh hc hcomb
    refine ⟨hgu, he, ?_⟩
    intro hk
    obtain ⟨hkt, hall⟩ := hty hk
    refine ⟨hkt, ?_⟩
    intro hka declared hdeclared
    cases hdeclared.symm.trans (hkt.exact hget hc (hVF _ hF))
    exact .constant h d (hall hka).1 (hall hka).2
  | static h d hget hv hcomb =>
    have hc := hg.firm hget hF
    obtain ⟨hgu, he, hty⟩ := hv.typedInitial hVF hp hg hr hfresh hc hcomb
    refine ⟨hgu, he, ?_⟩
    intro hk
    obtain ⟨hkt, hall⟩ := hty hk
    refine ⟨hkt, ?_⟩
    intro hka declared hdeclared
    cases hdeclared.symm.trans (hkt.exact hget hc (hVF _ hF))
    exact .static h d (hall hka).1 (hall hka).2

end MiddleEnd.Check
