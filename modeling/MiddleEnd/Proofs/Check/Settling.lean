/-
  Which nodes hold the unsettled type in the course of a check that reports nothing: blank
  variables, and the target of an assignment while its value is checked, which gets a complete type
  when the assignment is done. All other nodes are firm, in tables that are good (`Passes.settles`).

  Names and callees may mean anything here. What they lead to is complete, or the checker rejects
  it; only annotations take over what they find, so they must lead to nodes that are firm
  (`Sourced`).
-/
import MiddleEnd.Proofs.Check.Evolution
import MiddleEnd.Proofs.Syntax.Blanks

namespace MiddleEnd

namespace Check

variable {s : Scope} {b : TypeTable} {D F : IrId → Prop}

/-- The identities of the blank variables in what a judgement is about. -/
def Judgement.blanks : Judgement → List IrId
  | .expr e _ _ => e.blanks
  | .exprs es _ => Expr.blanksAll es
  | .arguments _ es => Expr.blanksAll es
  | .fields _ fs => FieldInit.blanksAll fs
  | .stmt st => st.blanks
  | .stmts sts => Stmt.blanksAll sts

theorem Judgement.introduced_blanks : ∀ j : Judgement, Introduced j.parts j.blanks
  | .expr e _ _ => e.introduced_blanks
  | .exprs es _ => Expr.introduced_blanksAll es
  | .arguments _ es => Expr.introduced_blanksAll es
  | .fields _ fs => FieldInit.introduced_blanksAll fs
  | .stmt st => st.introduced_blanks
  | .stmts sts => Stmt.introduced_blanksAll sts

/-- Annotations among the parts name nodes of `D`. -/
def Paths (s : Scope) (b : TypeTable) (D : IrId → Prop) (parts : List Part) : Prop :=
  ∀ {g name id}, .ascription (.path g name) ∈ parts → pathTarget? s b g = some id → D id

/-- Annotations among the parts name nodes of `D`, and these are firm. No expression belongs to such
a node, and no blank variable is firm. -/
structure Sourced (s : Scope) (b : TypeTable) (D F : IrId → Prop) (parts : List Part)
    (blanks : List IrId) : Prop where
  firm : ∀ {id}, D id → F id
  apart : ∀ {e}, .expr e ∈ parts → ¬ D e.ir
  paths : Paths s b D parts
  blanks : ∀ id ∈ blanks, ¬ F id

namespace Sourced

variable {parts parts' : List Part} {blanks blanks' : List IrId}

theorem sub (h : Sourced s b D F parts blanks) (hp : parts' ⊆ parts) (hb : blanks' ⊆ blanks) :
    Sourced s b D F parts' blanks' where
  firm := h.firm
  apart he := h.apart (hp he)
  paths := fun ha => h.paths (hp ha)
  blanks id hid := h.blanks id (hb hid)

theorem tail {p : Part} (h : Sourced s b D F (p :: parts) blanks) : Sourced s b D F parts blanks :=
  h.sub (List.subset_cons_self ..) (List.Subset.refl _)

theorem left (h : Sourced s b D F (parts ++ parts') (blanks ++ blanks')) :
    Sourced s b D F parts blanks :=
  h.sub (List.subset_append_left ..) (List.subset_append_left ..)

theorem right (h : Sourced s b D F (parts ++ parts') (blanks ++ blanks')) :
    Sourced s b D F parts' blanks' :=
  h.sub (List.subset_append_right ..) (List.subset_append_right ..)

theorem annotation {g : Head} {name : String} {id : IrId} (h : Sourced s b D F parts blanks)
    (ha : .ascription (.path g name) ∈ parts) (hid : pathTarget? s b g = some id) : F id :=
  h.firm (h.paths ha hid)

/-- The node of an expression need not be firm. -/
theorem except {e : Expr} (h : Sourced s b D F parts blanks) (he : .expr e ∈ parts) :
    Sourced s b D (fun id => F id ∧ id ≠ e.ir) parts blanks where
  firm hd := ⟨h.firm hd, fun hid => h.apart he (hid ▸ hd)⟩
  apart := h.apart
  paths := h.paths
  blanks id hid hF := h.blanks id hid hF.1

end Sourced

namespace Good

variable {t : TypeTable}

theorem loosen {F' : IrId → Prop} (h : Good b F t) (hF : ∀ id, F' id → F id) : Good b F' t where
  builtinIds := h.builtinIds
  builtins := h.builtins
  stack := h.stack
  entries hg := (h.entries hg).imp_right fun hi => ⟨hi.1, fun hid => hi.2 (hF _ hid)⟩

/-- A node that was allowed to be unsettled gets a complete type. -/
theorem finish {x : IrId} {ty : Ty} (h : Good b (fun id => F id ∧ id ≠ x) t)
    (hc : ty.complete = true) : Good b F (t.record x ty) where
  builtinIds := h.builtinIds
  builtins := h.builtins
  stack := h.stack
  entries := by
    intro id ty' hg
    rw [TypeTable.get?_record] at hg
    split at hg
    · cases hg
      exact .inl hc
    · rename_i hne
      exact (h.entries hg).imp_right fun hi => ⟨hi.1, fun hF => hi.2 ⟨hF, hne⟩⟩

/-- What is recorded and not unsettled is complete. -/
theorem complete {id : IrId} {ty : Ty} (h : Good b F t) (hg : t.get? id = some ty)
    (hi : ty.isInfer = false) : ty.complete = true := by
  rcases h.entries hg with hc | ⟨⟨r, rfl⟩, _⟩
  · exact hc
  · cases hi

end Good

theorem complete_of_combineAll? {ty c : Ty} {tys : List Ty} (hty : ty.complete = true)
    (htys : ∀ t ∈ tys, t.complete = true) (h : ty.combineAll? tys = some c) :
    c.complete = true := by
  rw [(combineAll?_complete hty htys h).1]
  exact hty

theorem complete_of_combine? {a c : Ty} {x : Ty} (ha : a.complete = true) (hx : x.complete = true)
    (h : a.combine? x = some c) : c.complete = true := by
  rw [(Ty.combine?_complete ha hx h).1]
  exact ha

/-! ## Bodies -/

/-- Along a derivation tables stay good, and the types that it finds are complete. -/
theorem Derives.settles {t u : TypeTable} {j : Judgement} (h : Derives s t j u) :
    ∀ {F}, Sourced s b D F j.parts j.blanks → j.Given → Good b F t → Good b F u ∧ j.Complete := by
  induction h with
  | literal h lit final hl =>
    intro F _ _ hg
    exact ⟨hg.record (.inl (hg.builtins hl)), hg.builtins hl⟩
  | identifier h name final _ hget hi =>
    intro F _ _ hg
    have hc := hg.complete hget hi
    exact ⟨hg.record (.inl hc), hc⟩
  | retUnit h final hr hcomb =>
    intro F _ _ hg
    have hc := complete_of_combine? (hg.returns hr) rfl hcomb
    exact ⟨hg.record (.inl hc), hc⟩
  | ret h value final hr _ hcomb ih =>
    intro F hp _ hg
    obtain ⟨hu, hvt⟩ := ih hp.tail trivial hg
    have hc := complete_of_combine? (hg.returns hr) hvt hcomb
    exact ⟨hu.record (.inl hc), hc⟩
  | call h callee args final _ _ hget _ _ ih =>
    intro F hp _ hg
    have hfn := Bool.and_eq_true_iff.1 (hg.complete hget rfl)
    obtain ⟨hu, _⟩ := ih hp.tail.tail hfn.1 hg
    exact ⟨hu.record (.inl hfn.2), hfn.2⟩
  | callError h callee args final _ _ hget _ _ =>
    intro F _ _ hg
    exact absurd (hg.complete hget rfl) Bool.false_ne_true
  | @assignName t u id tt vt ty h g name value final hd hget _ hcomb ih =>
    -- the target may hold the unsettled type while the value is checked
    intro F hp _ hg
    have hloose : Good b (fun id => F id ∧ id ≠ g.id.ir) (t.record g.id.ir tt) := by
      refine (hg.loosen fun _ hF => hF.1).record ?_
      exact (hg.entries hget).imp_right fun hi => ⟨hi.1, fun hF => hF.2 rfl⟩
    have hexcept := hp.tail.except
      (List.mem_append_left _ (Expr.self_mem_parts (.identifier g name)))
    obtain ⟨hu, hvt⟩ := ih hexcept.right trivial hloose
    have hc := complete_of_assigned (hg.entries hget) hvt hcomb
    exact ⟨((hu.finish hc).settled _ _ hc).record (.inl hc), hc⟩
  | assign h target value final _ _ _ hcomb iht ihv =>
    intro F hp _ hg
    obtain ⟨hu, htt⟩ := iht hp.tail.left trivial hg
    obtain ⟨hv, hvt⟩ := ihv hp.tail.right trivial hu
    have hc := complete_of_combine? htt hvt hcomb
    exact ⟨((hv.record (.inl hc)).settled _ _ hc).record (.inl hc), hc⟩
  | binary h op lhs rhs final _ _ hcomb ihl ihr =>
    intro F hp _ hg
    obtain ⟨hu, hlt⟩ := ihl hp.tail.left trivial hg
    obtain ⟨hv, hrt⟩ := ihr hp.tail.right trivial hu
    have hc := complete_of_combine? hlt hrt hcomb
    exact ⟨hv.record (.inl hc), hc⟩
  | ifOnly h condition body final _ _ ihc ihb =>
    intro F hp _ hg
    obtain ⟨hu, _⟩ := ihc hp.tail.left trivial hg
    obtain ⟨hv, _⟩ := ihb hp.tail.right trivial hu
    exact ⟨hv.record (.inl rfl), rfl⟩
  | ifElse h condition thenBody elseBody _ _ _ ihc iht ihe =>
    intro F hp _ hg
    obtain ⟨hu, _⟩ := ihc hp.tail.left trivial hg
    obtain ⟨hv, _⟩ := iht hp.tail.right.left trivial hu
    obtain ⟨hw, _⟩ := ihe hp.tail.right.right trivial hv
    exact ⟨hw.record (.inl rfl), rfl⟩
  | ifElseFinal h condition thenBody elseBody hr _ _ _ hct hce ihc iht ihe =>
    intro F hp _ hg
    obtain ⟨hu, _⟩ := ihc hp.tail.left trivial hg
    obtain ⟨hv, htt⟩ := iht hp.tail.right.left trivial hu
    obtain ⟨hw, het⟩ := ihe hp.tail.right.right trivial hv
    have hc := complete_of_combine? (complete_of_combine? (hg.returns hr) htt hct) het hce
    exact ⟨hw.record (.inl hc), hc⟩
  | ifElseIf h condition thenBody elseIf final _ _ _ ihc iht ihe =>
    intro F hp _ hg
    obtain ⟨hu, _⟩ := ihc hp.tail.left trivial hg
    obtain ⟨hv, _⟩ := iht hp.tail.right.left trivial hu
    obtain ⟨hw, _⟩ := ihe hp.tail.right.right trivial hv
    exact ⟨hw.record (.inl rfl), rfl⟩
  | blockUnit h body final _ ih =>
    intro F hp _ hg
    obtain ⟨hu, _⟩ := ih hp.tail trivial hg
    exact ⟨hu.record (.inl rfl), rfl⟩
  | block h body tail final _ _ ihb iht =>
    intro F hp _ hg
    obtain ⟨hu, _⟩ := ihb hp.tail.left trivial hg
    obtain ⟨hv, hc⟩ := iht hp.tail.right trivial hu
    exact ⟨hv.record (.inl hc), hc⟩
  | @index t u v pt both element r capacity h base position final _ _ _ ihp ihb =>
    intro F hp _ hg
    obtain ⟨hu, _⟩ := ihp hp.tail.right trivial hg
    obtain ⟨hv, hc⟩ := ihb hp.tail.left trivial hu
    have hc : element.complete = true := hc
    exact ⟨hv.record (.inl hc), hc⟩
  | indexError h base position final _ _ _ ihp ihb =>
    intro F hp _ hg
    obtain ⟨hu, _⟩ := ihp hp.tail.right trivial hg
    exact absurd (ihb hp.tail.left trivial hu).2 Bool.false_ne_true
  | array h first rest final _ _ hcomb ihf ihr =>
    intro F hp _ hg
    obtain ⟨hu, hft⟩ := ihf hp.tail.left trivial hg
    obtain ⟨hv, htys⟩ := ihr hp.tail.right trivial hu
    have hc := complete_of_combineAll? hft htys hcomb
    exact ⟨hv.record (.inl hc), hc⟩
  | copies h element count final _ ih =>
    intro F hp _ hg
    obtain ⟨hu, hc⟩ := ih hp.tail trivial hg
    exact ⟨hu.record (.inl hc), hc⟩
  | struct h path fields final _ _ hget _ _ ih =>
    intro F hp _ hg
    have hc := hg.complete hget rfl
    obtain ⟨hu, _⟩ := ih hp.tail.tail hc hg
    exact ⟨hu.record (.inl hc), hc⟩
  | exprsNil t => exact fun _ _ hg => ⟨hg, fun _ hm => absurd hm List.not_mem_nil⟩
  | exprsCons e es _ _ ihe ihr =>
    intro F hp _ hg
    obtain ⟨hu, hc⟩ := ihe hp.left trivial hg
    obtain ⟨hv, hcs⟩ := ihr hp.right trivial hu
    exact ⟨hv, List.forall_mem_cons.2 ⟨hc, hcs⟩⟩
  | argumentsNil t => exact fun _ _ hg => ⟨hg, trivial⟩
  | argumentsCons name param params e es _ _ _ ihe ihr =>
    intro F hp hgiven hg
    obtain ⟨hu, _⟩ := ihe hp.left trivial hg
    exact ihr hp.right (Bool.and_eq_true_iff.1 hgiven).2 hu
  | fieldsNil decls t => exact fun _ _ hg => ⟨hg, trivial⟩
  | fieldsCons decls h name value rest _ hf hcomb _ ihv ihr =>
    intro F hp hgiven hg
    obtain ⟨hu, hvt⟩ := ihv hp.tail.left trivial hg
    have hc := complete_of_combine? (Members.complete_find? hgiven hf) hvt hcomb
    exact ihr hp.tail.right hgiven (hu.record (.inl hc))
  | effect e _ ih =>
    intro F hp _ hg
    exact ⟨(ih hp trivial hg).1, trivial⟩
  | @declare t u annotated h pattern ascribed ha =>
    intro F hp _ hg
    obtain ⟨hu, hc⟩ := good_of_annotates? ha hg fun hm => hp.tail.annotation hm
    have hallowed : ∀ id ∈ [h.id.ir, pattern.id.ir],
        Allowed F id (annotated.getD (.infer h.id.ir)) := by
      intro id hid
      cases ha with
      | none => exact .inr ⟨⟨_, rfl⟩, hp.blanks id hid⟩
      | some ha => exact .inl (hc _ rfl)
    exact ⟨(hu.record (hallowed _ (by simp))).record (hallowed _ (by simp)), trivial⟩
  | @bind t u v annotated vt ty h pattern ascribed init ha _ hb ih =>
    intro F hp _ hg
    obtain ⟨hu, hca⟩ := good_of_annotates? ha hg fun hm =>
      hp.tail.annotation (List.mem_append_left _ hm)
    have hinit : Sourced s b D F init.parts init.blanks :=
      hp.tail.sub (List.subset_append_right ..) (by cases ascribed <;> exact List.Subset.refl _)
    obtain ⟨hv, hvt⟩ := ih hinit trivial hu
    have hc := complete_of_bound hca hvt hb
    exact ⟨(hv.record (.inl hc)).record (.inl hc), trivial⟩
  | stmtsNil t => exact fun _ _ hg => ⟨hg, trivial⟩
  | stmtsCons st rest _ _ ihs ihr =>
    intro F hp _ hg
    obtain ⟨hu, _⟩ := ihs hp.left trivial hg
    exact ⟨(ihr hp.right trivial hu).1, trivial⟩

/-! ## Programs -/

theorem HasParams.settles {t u : TypeTable} {ps : List Param} {ms : Members}
    (h : HasParams s t ps ms u) : Paths s b F (ps.flatMap fun p => p.type.parts) → Good b F t →
      Good b F u ∧ ms.complete = true := by
  induction h with
  | nil t => exact fun _ hg => ⟨hg, rfl⟩
  | cons ha _ ih =>
    intro hp hg
    rw [List.flatMap_cons] at hp
    obtain ⟨hu, hc⟩ := ha.good hg fun hm => hp (List.mem_append_left _ hm)
    obtain ⟨hv, hcs⟩ := ih (fun hm => hp (List.mem_append_right _ hm))
      ((hu.record (.inl hc)).record (.inl hc))
    exact ⟨hv, Bool.and_eq_true_iff.2 ⟨hc, hcs⟩⟩

theorem HasFields.settles {t u : TypeTable} {fs : List FieldDecl} {ms : Members}
    (h : HasFields s t fs ms u) : Paths s b F (fs.flatMap fun f => f.type.parts) → Good b F t →
      Good b F u ∧ ms.complete = true := by
  induction h with
  | nil t => exact fun _ hg => ⟨hg, rfl⟩
  | cons ha _ ih =>
    intro hp hg
    rw [List.flatMap_cons] at hp
    obtain ⟨hu, hc⟩ := ha.good hg fun hm => hp (List.mem_append_left _ hm)
    obtain ⟨hv, hcs⟩ := ih (fun hm => hp (List.mem_append_right _ hm)) (hu.record (.inl hc))
    exact ⟨hv, Bool.and_eq_true_iff.2 ⟨hc, hcs⟩⟩

theorem Signs.settles {t u : TypeTable} {i : Item} (h : Signs s t i u)
    (hp : Paths s b F i.signatureParts) (hg : Good b F t) : Good b F u := by
  obtain ⟨ty, v, h, rfl⟩ := h
  have hsignature : Good b F v ∧ ty.complete = true := by
    cases h with
    | @function _ w ps result h d hps hr =>
      obtain ⟨hw, hcs⟩ := hps.settles (fun hm => hp (List.mem_append_left _ hm)) hg
      obtain ⟨hv, hc⟩ := good_of_annotates? hr hw fun hm => hp (List.mem_append_right _ hm)
      have hresult : (result.getD (.unit h.id.ir)).complete = true := by
        cases result with
        | none => rfl
        | some r => exact hc r rfl
      exact ⟨hv, Bool.and_eq_true_iff.2 ⟨hcs, hresult⟩⟩
    | struct h d hf => exact hf.settles hp hg
    | constant h d ha => exact ha.good hg hp
    | static h d ha => exact ha.good hg hp
  exact hsignature.1.record (.inl hsignature.2)

theorem Fits.settles {t u : TypeTable} {i : Item} (h : Fits s t i u)
    (hp : Sourced s b D F i.bodyParts i.blanks) (hg : Good b F t) : Good b F u := by
  cases h with
  | function h d hget hb _ =>
    have hfn := Bool.and_eq_true_iff.1 (hg.complete hget rfl)
    exact (hb.settles hp trivial (hg.pushReturn hfn.2)).1.popReturn
  | struct h d => exact hg
  | constant h d _ hv _ => exact (hv.settles hp trivial hg).1
  | static h d _ hv _ => exact (hv.settles hp trivial hg).1

/-- A pass over a program keeps tables good. -/
theorem Passes.settles {p : Program} {t u : TypeTable} (h : Passes s p t u)
    (hp : Sourced s b D F p.parts p.blanks) (hg : Good b F t) : Good b F u := by
  obtain ⟨v, hsigns, hfits⟩ := h
  have hv : Good b F v := by
    refine hsigns.mem.invariant (I := fun _ t => Good b F t) ?_ hg
    intro t i u _ hg ⟨hi, hs⟩
    have hparts := (Program.parts_sublist (mem_signatureOrder.1 hi)).subset
    exact hs.settles (fun hm => hp.annotation (hparts (List.mem_append_left _ hm))) hg
  refine hfits.mem.invariant (I := fun _ t => Good b F t) ?_ hv
  intro t i u _ hg ⟨hi, hf⟩
  have hparts := (Program.parts_sublist hi).subset
  exact hf.settles (hp.sub (List.Subset.trans (List.subset_append_right ..) hparts)
    fun id hid => List.mem_flatMap.2 ⟨i, hi, hid⟩) hg

end Check

end MiddleEnd
