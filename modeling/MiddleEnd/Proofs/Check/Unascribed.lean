/-
  Checks of a program without some of its annotations. Where an annotation is dropped, its `let`
  gets the type of its initial value instead, and that is a twin of the type it had: the two
  combined before. From there on both checks find twins everywhere, so what is established with all
  annotations is established without the dropped ones (`Derives.spared`).

  The nodes of the dropped annotations have types in the one check only. Nothing looks there.
-/
import MiddleEnd.Proofs.Check.Evolution
import MiddleEnd.Proofs.Syntax.Unascribed
import MiddleEnd.Proofs.Ty.Twin

namespace MiddleEnd

open Check

/-- Two checks of a program, with all annotations and without those of the `let`s in `lets`. -/
structure Omission where
  lets : IrId → Bool
  /-- The primitive types and the types of the struct items. -/
  kinds : Ty → Prop
  distinguished : Distinguished kinds
  /-- The nodes that type names may mean. -/
  basic : IrId → Prop
  /-- The nodes of the dropped annotations. -/
  gone : IrId → Prop
  /-- The table before the checks. -/
  start : TypeTable
  /-- What names mean in the check with all annotations. -/
  full : Scope
  /-- What names mean in the check without the dropped ones. -/
  bare : Scope

namespace Omission

variable {O : Omission}

/-! ## Tables -/

/-- Tables in the course of the two checks: save for the dropped annotations, they hold twins. -/
structure Agree (O : Omission) (t t' : TypeTable) : Prop where
  setting : SameSetting t t'
  builtinIds : t.builtinIds = O.start.builtinIds
  builtins : ∀ {name ty}, t.builtin? name = some ty → ty.MadeOf O.kinds
  stack : ∀ ty ∈ t.returns, ty.MadeOf O.kinds
  entries : ∀ {id}, ¬ O.gone id → Option.Rel (Ty.Matched O.kinds) (t.get? id) (t'.get? id)
  basic : ∀ {id ty}, O.basic id → t.get? id = some ty → ty.isData = true

namespace Agree

variable {t t' : TypeTable} {a a' : Ty} {id : IrId}

theorem builtin? (h : O.Agree t t') (name : String) : t'.builtin? name = t.builtin? name := by
  unfold TypeTable.builtin?
  rw [h.setting.builtins]

theorem return? (h : O.Agree t t') : t'.return? = t.return? := by
  unfold TypeTable.return?
  rw [h.setting.returns]

theorem returned (h : O.Agree t t') (hr : t.return? = some a) :
    t'.return? = some a ∧ a.MadeOf O.kinds :=
  ⟨h.return?.trans hr, h.stack a (List.mem_of_head? hr)⟩

/-- What the one check finds at a node, the other one finds a twin of. -/
theorem get? (h : O.Agree t t') (hid : ¬ O.gone id) (hget : t.get? id = some a) :
    ∃ a', t'.get? id = some a' ∧ a.Matched O.kinds a' := by
  have hrel := h.entries hid
  rw [hget] at hrel
  cases hget' : t'.get? id with
  | none =>
    rw [hget'] at hrel
    cases hrel
  | some a' =>
    rw [hget'] at hrel
    cases hrel with
    | some hm => exact ⟨a', rfl, hm⟩

theorem twins (h : O.Agree t t') (hid : ¬ O.gone id) :
    Option.Rel Ty.Twin (t.get? id) (t'.get? id) := by
  have hrel := h.entries hid
  generalize t.get? id = before, t'.get? id = after at hrel ⊢
  cases hrel with
  | none => exact .none
  | some hm => exact .some hm.twin

/-- Types that have no twin but themselves are found by both checks. -/
theorem get?_same (h : O.Agree t t') (hid : ¬ O.gone id) (hget : t.get? id = some a)
    (ha : a.isFree = false) (hi : a.isInfer = false) :
    t'.get? id = some a ∧ a.MadeOf O.kinds := by
  obtain ⟨a', hget', hm⟩ := h.get? hid hget
  cases hm.twin.eq ha
  exact ⟨hget', hm.made.resolve_left (Bool.eq_false_iff.1 hi)⟩

theorem record (h : O.Agree t t') (hid : ¬ O.basic id) (hm : a.Matched O.kinds a') :
    O.Agree (t.record id a) (t'.record id a') where
  setting := ⟨h.setting.builtins, h.setting.builtinIds, h.setting.returns⟩
  builtinIds := h.builtinIds
  builtins := h.builtins
  stack := h.stack
  entries := by
    intro other ho
    rw [TypeTable.get?_record, TypeTable.get?_record]
    split
    · exact .some hm
    · exact h.entries ho
  basic := by
    intro other ty ho hget
    have hne : id ≠ other := fun he => hid (he ▸ ho)
    rw [get?_record_of_ne hne] at hget
    exact h.basic ho hget

/-- The one check records the type of a dropped annotation. -/
theorem skip (h : O.Agree t t') (hid : ¬ O.basic id) (hgone : O.gone id) (a : Ty) :
    O.Agree (t.record id a) t' where
  setting := ⟨h.setting.builtins, h.setting.builtinIds, h.setting.returns⟩
  builtinIds := h.builtinIds
  builtins := h.builtins
  stack := h.stack
  entries := by
    intro other ho
    have hne : id ≠ other := fun he => ho (he ▸ hgone)
    rw [get?_record_of_ne hne]
    exact h.entries ho
  basic := by
    intro other ty ho hget
    have hne : id ≠ other := fun he => hid (he ▸ ho)
    rw [get?_record_of_ne hne] at hget
    exact h.basic ho hget

theorem pushReturn (h : O.Agree t t') (ha : a.MadeOf O.kinds) :
    O.Agree (t.pushReturn a) (t'.pushReturn a) where
  setting := ⟨h.setting.builtins, h.setting.builtinIds, congrArg (a :: ·) h.setting.returns⟩
  builtinIds := h.builtinIds
  builtins := h.builtins
  stack := List.forall_mem_cons.2 ⟨ha, h.stack⟩
  entries := h.entries
  basic := h.basic

theorem popReturn (h : O.Agree t t') : O.Agree t.popReturn.2 t'.popReturn.2 where
  setting := ⟨h.setting.builtins, h.setting.builtinIds, congrArg List.tail h.setting.returns⟩
  builtinIds := h.builtinIds
  builtins := h.builtins
  stack ty hm := h.stack ty (List.mem_of_mem_tail hm)
  entries := h.entries
  basic := h.basic

/-- What an assignment settles is no node that type names may mean, since these are known. -/
theorem not_basic (h : O.Agree t t') (hget : t.get? id = some a) (hi : a.isInfer = true) :
    ¬ O.basic id := by
  intro hb
  have hdata := h.basic hb hget
  cases a with
  | infer r => cases hdata
  | _ => cases hi

theorem settled (h : O.Agree t t') {target : Expr} {before before' : Ty}
    (hd : declaration O.full target = .ok id) (hd' : declaration O.bare target = .ok id)
    (hbefore : before.Twin before') (hid : before.isInfer = true → ¬ O.basic id)
    (hm : a.Matched O.kinds a') :
    O.Agree (settled O.full t target before a) (settled O.bare t' target before' a') := by
  unfold Check.settled
  rw [hbefore.isInfer_eq, hd, hd']
  split
  · exact h.record (hid (by assumption)) hm
  · exact h

end Agree

/-! ## Names -/

/-- Names that are left mean the same in both checks, and type names mean types of data. Given are
the parts of a piece of syntax, those that are left, and the dropped annotations. -/
structure Covers (O : Omission) (ps qs : List Part) (ds : List TypeExpr) : Prop where
  own : ∀ {q}, q ∈ ps → ∀ {id}, id ∈ q.irs → ¬ O.basic id
  names : ∀ {h x id}, .expr (.identifier h x) ∈ ps →
    declaration O.full (.identifier h x) = .ok id →
    declaration O.bare (.identifier h x) = .ok id ∧ ¬ O.gone id
  callees : ∀ {h f args decl id}, .expr (.call h f args) ∈ ps → .callee f ∈ ps →
    O.full.bindings.name? f.surface = some decl →
    O.full.registry.node? ⟨h.id.crate, decl⟩ = some id →
    (∃ decl', O.bare.bindings.name? f.surface = some decl' ∧
      O.bare.registry.node? ⟨h.id.crate, decl'⟩ = some id) ∧ ¬ O.gone id
  structs : ∀ {h path fields decl id}, .expr (.struct h path fields) ∈ ps → .path path ∈ ps →
    O.full.bindings.type? path.id.surface = some decl →
    O.full.registry.node? ⟨path.id.crate, decl⟩ = some id →
    (∃ decl', O.bare.bindings.type? path.id.surface = some decl' ∧
      O.bare.registry.node? ⟨path.id.crate, decl'⟩ = some id) ∧ ¬ O.gone id
  basic : ∀ {h x id}, .ascription (.path h x) ∈ ps →
    pathTarget? O.full O.start h = some id → O.basic id ∧ ¬ O.gone id
  paths : ∀ {h x id}, .ascription (.path h x) ∈ qs →
    pathTarget? O.full O.start h = some id → pathTarget? O.bare O.start h = some id
  dropped : ∀ {d}, d ∈ ds → ∀ {id}, id ∈ d.ids → O.gone id

namespace Covers

variable {ps ps' qs qs' : List Part} {ds ds' : List TypeExpr}

theorem sub (h : O.Covers ps qs ds) (hps : ps' ⊆ ps) (hqs : qs' ⊆ qs) (hds : ds' ⊆ ds) :
    O.Covers ps' qs' ds' where
  own hm := h.own (hps hm)
  names hm := h.names (hps hm)
  callees hm hm' := h.callees (hps hm) (hps hm')
  structs hm hm' := h.structs (hps hm) (hps hm')
  basic hm := h.basic (hps hm)
  paths hm := h.paths (hqs hm)
  dropped hm := h.dropped (hds hm)

theorem tail {p q : Part} (h : O.Covers (p :: ps) (q :: qs) ds) : O.Covers ps qs ds :=
  h.sub (List.subset_cons_self ..) (List.subset_cons_self ..) (List.Subset.refl _)

theorem left (h : O.Covers (ps ++ ps') (qs ++ qs') (ds ++ ds')) : O.Covers ps qs ds :=
  h.sub (List.subset_append_left ..) (List.subset_append_left ..) (List.subset_append_left ..)

theorem right (h : O.Covers (ps ++ ps') (qs ++ qs') (ds ++ ds')) : O.Covers ps' qs' ds' :=
  h.sub (List.subset_append_right ..) (List.subset_append_right ..) (List.subset_append_right ..)

theorem split (h : O.Covers (ps ++ ps') (qs ++ qs') []) :
    O.Covers ps qs [] ∧ O.Covers ps' qs' [] :=
  have h' : O.Covers (ps ++ ps') (qs ++ qs') ([] ++ []) := h
  ⟨h'.left, h'.right⟩

/-- An expression has a node of its own, which no type name means. -/
theorem node {e : Expr} (h : O.Covers (.expr e :: ps) qs ds) : ¬ O.basic e.ir :=
  h.own (List.mem_cons_self ..) (List.mem_singleton_self _)

theorem binds {h : Head} {pattern : Pattern} (hc : O.Covers (.bind h pattern :: ps) qs ds) :
    ¬ O.basic h.id.ir ∧ ¬ O.basic pattern.id.ir :=
  ⟨hc.own (List.mem_cons_self ..) (List.mem_cons_self ..),
    hc.own (List.mem_cons_self ..) (List.mem_cons_of_mem _ (List.mem_singleton_self _))⟩

end Covers

/-- The parts of what a judgement is about that are left. -/
def left (O : Omission) : Judgement → List Part
  | .expr e _ _ => (e.unascribe O.lets).parts
  | .exprs es _ => Expr.partsAll (Expr.unascribeAll O.lets es)
  | .arguments _ es => Expr.partsAll (Expr.unascribeAll O.lets es)
  | .fields _ fs => FieldInit.partsAll (FieldInit.unascribeAll O.lets fs)
  | .stmt st => (st.unascribe O.lets).parts
  | .stmts sts => Stmt.partsAll (Stmt.unascribeAll O.lets sts)

/-- The annotations dropped from what a judgement is about. -/
def dropped (O : Omission) : Judgement → List TypeExpr
  | .expr e _ _ => e.dropped O.lets
  | .exprs es _ => Expr.droppedAll O.lets es
  | .arguments _ es => Expr.droppedAll O.lets es
  | .fields _ fs => FieldInit.droppedAll O.lets fs
  | .stmt st => st.dropped O.lets
  | .stmts sts => Stmt.droppedAll O.lets sts

/-- The judgement is established without the dropped annotations from `t'`, with a twin of the type
that the check with all annotations finds and with a table that agrees with `u`. -/
def Spares (O : Omission) (t' u : TypeTable) : Judgement → Prop
  | .expr e final ty => ∃ ty' u', Derives O.bare t' (.expr (e.unascribe O.lets) final ty') u' ∧
      O.Agree u u' ∧ ty.Twin ty' ∧ ty.MadeOf O.kinds
  | .exprs es tys => ∃ tys' u', Derives O.bare t' (.exprs (Expr.unascribeAll O.lets es) tys') u' ∧
      O.Agree u u' ∧ List.Forall₂ Ty.Twin tys tys' ∧ ∀ ty ∈ tys, ty.MadeOf O.kinds
  | .arguments params es => params.MadeOf O.kinds → ∃ u',
      Derives O.bare t' (.arguments params (Expr.unascribeAll O.lets es)) u' ∧ O.Agree u u'
  | .fields decls fs => decls.MadeOf O.kinds → ∃ u',
      Derives O.bare t' (.fields decls (FieldInit.unascribeAll O.lets fs)) u' ∧ O.Agree u u'
  | .stmt st => ∃ u', Derives O.bare t' (.stmt (st.unascribe O.lets)) u' ∧ O.Agree u u'
  | .stmts sts => ∃ u',
      Derives O.bare t' (.stmts (Stmt.unascribeAll O.lets sts)) u' ∧ O.Agree u u'

end Omission

namespace Check

variable {O : Omission} {t t' u : TypeTable}

/-! ## Annotations -/

theorem pathType?_spared {h : Head} {name : String} {ty : Ty} {qs : List Part}
    {ds : List TypeExpr} (hc : O.Covers [.ascription (.path h name)] qs ds) (ht : O.Agree t t')
    (hty : pathType? O.full t h = some ty) : ∃ id ty', pathTarget? O.full O.start h = some id ∧
      t'.get? id = some ty' ∧ ty.Twin ty' ∧ ty.MadeOf O.kinds ∧ ty.isData = true := by
  obtain ⟨id, htarget, hget⟩ := Option.bind_eq_some_iff.1 hty
  rw [pathTarget?_congr ht.builtinIds] at htarget
  obtain ⟨hbasic, hgone⟩ := hc.basic (List.mem_singleton_self _) htarget
  obtain ⟨ty', hget', hm⟩ := ht.get? hgone hget
  have hdata := ht.basic hbasic hget
  have hmade := hm.made.resolve_left (Bool.eq_false_iff.1 (Ty.isInfer_of_isData hdata))
  exact ⟨id, ty', htarget, hget', hm.twin, hmade, hdata⟩

/-- An annotation that stays stands for a twin of its type. -/
theorem Annotates.spared {a : TypeExpr} {ty : Ty} (h : Annotates O.full t a ty u) :
    O.Covers a.parts a.parts [] → O.Agree t t' →
    ∃ ty' u', Annotates O.bare t' a ty' u' ∧ O.Agree u u' ∧ ty.Twin ty' ∧ ty.MadeOf O.kinds := by
  induction h with
  | unit h =>
    intro hc ht
    have hown := hc.own (List.mem_singleton_self _) (List.mem_singleton_self _)
    exact ⟨_, _, .unit h, ht.record hown ⟨trivial, .inr trivial⟩, trivial, trivial⟩
  | array h capacity _ ih =>
    intro hc ht
    obtain ⟨ty', u', ha, hu, htwin, hmade⟩ := ih hc.tail ht
    have hown := hc.own (List.mem_cons_self ..) (List.mem_singleton_self _)
    exact ⟨_, _, .array h capacity ha, hu.record hown ⟨htwin.array _, .inr hmade⟩, htwin.array _,
      hmade⟩
  | path h name hty =>
    intro hc ht
    obtain ⟨id, ty', htarget, hget', htwin, hmade, -⟩ := pathType?_spared hc ht hty
    have hown := hc.own (List.mem_singleton_self _) (List.mem_singleton_self _)
    refine ⟨ty', _, .path h name ?_, ht.record hown ⟨htwin, .inr hmade⟩, htwin, hmade⟩
    have htarget' := hc.paths (List.mem_singleton_self _) htarget
    rw [pathType?, pathTarget?_congr (ht.setting.builtinIds.trans ht.builtinIds), htarget']
    exact hget'

/-- An annotation that is dropped stands for a type of data. -/
theorem Annotates.dropped {a : TypeExpr} {ty : Ty} {ds : List TypeExpr}
    (h : Annotates O.full t a ty u) : O.Covers a.parts [] ds → (∀ id ∈ a.ids, O.gone id) →
    O.Agree t t' → O.Agree u t' ∧ ty.MadeOf O.kinds ∧ ty.isData = true := by
  induction h with
  | unit h =>
    intro hc hgone ht
    have hown := hc.own (List.mem_singleton_self _) (List.mem_singleton_self _)
    exact ⟨ht.skip hown (hgone h.id.ir (by simp)) _, trivial, rfl⟩
  | array h capacity _ ih =>
    intro hc hgone ht
    have hsub := hc.sub (List.subset_cons_self ..) (List.Subset.refl _) (List.Subset.refl _)
    obtain ⟨hu, hmade, hdata⟩ := ih hsub (fun id hid => hgone id (by simp [hid])) ht
    have hown := hc.own (List.mem_cons_self ..) (List.mem_singleton_self _)
    exact ⟨hu.skip hown (hgone h.id.ir (by simp)) _, hmade, hdata⟩
  | path h name hty =>
    intro hc hgone ht
    obtain ⟨-, -, -, -, -, hmade, hdata⟩ := pathType?_spared hc ht hty
    have hown := hc.own (List.mem_singleton_self _) (List.mem_singleton_self _)
    exact ⟨ht.skip hown (hgone h.id.ir (by simp)) _, hmade, hdata⟩

/-! ## Expressions and statements -/

/-- The annotation of a variable stays if it is not dropped. -/
theorem spared_annotates? {a : Option TypeExpr} {ty : Option Ty} (h : Annotates? O.full t a ty u)
    (hc : O.Covers (TypeExpr.partsOf a) (TypeExpr.partsOf a) []) (ht : O.Agree t t') :
    ∃ ty' u', Annotates? O.bare t' a ty' u' ∧ O.Agree u u' ∧
      Option.Rel (Ty.Matched O.kinds) ty ty' := by
  cases h with
  | none => exact ⟨none, t', .none t', ht, .none⟩
  | some h =>
    obtain ⟨ty', u', h', hu, hty, hmty⟩ := h.spared hc ht
    exact ⟨some ty', u', .some h', hu, .some ⟨hty, .inr hmty⟩⟩

theorem boundType?_spared {annotated annotated' : Option Ty} {vt vt' ty : Ty}
    (ha : Option.Rel (Ty.Matched O.kinds) annotated annotated') (hv : vt.Twin vt')
    (hmv : vt.MadeOf O.kinds) (h : boundType? annotated vt = some ty) :
    ∃ ty', boundType? annotated' vt' = some ty' ∧ ty.Twin ty' ∧ ty.MadeOf O.kinds := by
  cases ha with
  | none =>
    cases h
    exact ⟨vt', rfl, hv, hmv⟩
  | some ha => exact ha.combine? O.distinguished hv hmv h

/-- A `let` without its annotation has the type of its initial value, a twin of what it had. -/
theorem boundType?_dropped {a vt vt' ty : Ty} (ha : a.MadeOf O.kinds) (hdata : a.isData = true)
    (hv : vt.Twin vt') (hmv : vt.MadeOf O.kinds) (h : boundType? (some a) vt = some ty) :
    ty.Twin vt' ∧ ty.MadeOf O.kinds := by
  have hE := O.distinguished
  obtain ⟨rfl, halike⟩ := Ty.combine?_complete (ha.complete hE) (hmv.complete hE) h
  exact ⟨(ha.twin hE hmv hdata halike).trans hv, ha⟩

/-- The annotation of a `let` with an initial value stays or is dropped, and the `let` has twins for
types either way. -/
theorem bound_annotates? {x : Bool} {a : Option TypeExpr} {annotated : Option Ty}
    (h : Annotates? O.full t a annotated u)
    (hc : O.Covers (TypeExpr.partsOf a) (TypeExpr.partsOf (if x then none else a))
      (if x then a.toList else [])) (ht : O.Agree t t') :
    ∃ u', O.Agree u u' ∧ ∀ {vt vt' ty : Ty}, vt.Twin vt' → vt.MadeOf O.kinds →
      boundType? annotated vt = some ty → ∃ annotated' ty',
        Annotates? O.bare t' (if x then none else a) annotated' u' ∧
        boundType? annotated' vt' = some ty' ∧ ty.Twin ty' ∧ ty.MadeOf O.kinds := by
  cases x with
  | false =>
    obtain ⟨annotated', u', ha, hu, hm⟩ := spared_annotates? h hc ht
    refine ⟨u', hu, fun hvt hmv hb => ?_⟩
    obtain ⟨ty', hb', hty⟩ := boundType?_spared hm hvt hmv hb
    exact ⟨annotated', ty', ha, hb', hty⟩
  | true =>
    cases h with
    | none =>
      refine ⟨t', ht, fun {vt vt' ty} hvt hmv hb => ?_⟩
      cases hb
      exact ⟨none, vt', .none t', rfl, hvt, hmv⟩
    | some h =>
      obtain ⟨hu, hmade, hdata⟩ :=
        h.dropped hc (fun _ hid => hc.dropped (List.mem_singleton_self _) hid) ht
      refine ⟨t', hu, fun {vt vt' ty} hvt hmv hb => ?_⟩
      exact ⟨none, vt', .none t', rfl, boundType?_dropped hmade hdata hvt hmv hb⟩

/-- What is established with all annotations is established without the dropped ones. -/
theorem Derives.spared {j : Judgement} (h : Derives O.full t j u) :
    O.Covers j.parts (O.left j) (O.dropped j) → ∀ {t' : TypeTable}, O.Agree t t' →
      O.Spares t' u j := by
  have hE := O.distinguished
  induction h with
  | literal h lit final hb =>
    intro hc t' ht
    have hmade := ht.builtins hb
    exact ⟨_, _, .literal h lit final ((ht.builtin? _).trans hb), ht.record hc.node hmade.matched,
      .refl _, hmade⟩
  | identifier h name final hd hg hi =>
    intro hc t' ht
    obtain ⟨hd', hgone⟩ := hc.names (List.mem_cons_self ..) hd
    obtain ⟨ty', hg', hm⟩ := ht.get? hgone hg
    exact ⟨ty', _, .identifier h name final hd' hg' (hm.twin.isInfer_eq.trans hi),
      ht.record hc.node hm, hm.twin, hm.made.resolve_left (Bool.eq_false_iff.1 hi)⟩
  | @retUnit t result ty h final hr hcomb =>
    intro hc t' ht
    obtain ⟨hr', hresult⟩ := ht.returned hr
    cases (Ty.combine?_complete (hresult.complete hE) rfl hcomb).1
    exact ⟨_, _, .retUnit h final hr' hcomb, ht.record hc.node hresult.matched, .refl _, hresult⟩
  | ret h value final hr _ hcomb ih =>
    intro hc t' ht
    obtain ⟨hr', hresult⟩ := ht.returned hr
    obtain ⟨vt', u', hv, hu, htwin, hmade⟩ := ih hc.tail ht
    obtain ⟨ty', hcomb', hty, hmty⟩ := hresult.matched.combine? hE htwin hmade hcomb
    exact ⟨ty', _, .ret h _ final hr' hv hcomb', hu.record hc.node ⟨hty, .inr hmty⟩, hty, hmty⟩
  | call h callee args final hn hs hg hl _ ih =>
    intro hc t' ht
    obtain ⟨⟨decl', hn', hs'⟩, hgone⟩ := hc.callees (List.mem_cons_self ..)
      (List.mem_cons_of_mem _ (List.mem_cons_self ..)) hn hs
    obtain ⟨hg', hparams, hresult⟩ := ht.get?_same hgone hg rfl rfl
    have hargs := hc.tail.tail.sub (List.Subset.refl _) (List.Subset.refl _)
      (List.subset_append_right ..)
    obtain ⟨u', ha, hu⟩ := ih hargs ht hparams
    rw [← Expr.surface_unascribe O.lets] at hn'
    exact ⟨_, _, .call h _ _ final hn' hs' hg' (hl.trans (Expr.length_unascribeAll ..).symm) ha,
      hu.record hc.node hresult.matched, .refl _, hresult⟩
  | callError h callee args final hn hs hg _ _ =>
    intro hc t' ht
    -- no callee has the error type
    obtain ⟨-, hgone⟩ := hc.callees (List.mem_cons_self ..)
      (List.mem_cons_of_mem _ (List.mem_cons_self ..)) hn hs
    exact (ht.get?_same hgone hg rfl rfl).2.elim
  | @assignName t u id tt vt ty h g name value final hd hg _ hcomb ih =>
    intro hc t' ht
    have htarget := hc.tail.left
    obtain ⟨hd', hgone⟩ := htarget.names (List.mem_singleton_self _) hd
    obtain ⟨tt', hg', hm⟩ := ht.get? hgone hg
    obtain ⟨vt', u', hv, hu, htwin, hmade⟩ := ih hc.tail.right (ht.record htarget.node hm)
    obtain ⟨ty', hcomb', hty, hmty⟩ := hm.combine? hE htwin hmade hcomb
    have hmty' : Ty.Matched O.kinds ty ty' := ⟨hty, .inr hmty⟩
    exact ⟨ty', _, .assignName h g name _ final hd' hg' hv hcomb',
      ((hu.record htarget.node hmty').settled hd hd' hm.twin (ht.not_basic hg) hmty').record
        hc.node hmty', hty, hmty⟩
  | @assign t u v tt vt ty h target value final hn ht _ hcomb iht ihv =>
    intro hc t' htt
    obtain ⟨tt', u', hdt, hu, htt', hmt⟩ := iht hc.tail.left htt
    obtain ⟨vt', v', hdv, hv, hvt', hmv⟩ := ihv hc.tail.right hu
    have hmt' : Ty.Matched O.kinds tt tt' := ⟨htt', .inr hmt⟩
    obtain ⟨ty', hcomb', hty, hmty⟩ := hmt'.combine? hE hvt' hmv hcomb
    have hmty' : Ty.Matched O.kinds ty ty' := ⟨hty, .inr hmty⟩
    have hown : ¬ O.basic target.ir :=
      hc.own (List.mem_cons_of_mem _ (List.mem_append_left _ target.self_mem_parts))
        (List.mem_singleton_self _)
    have hn' : ∀ g name, target.unascribe O.lets ≠ .identifier g name := fun g name he =>
      hn g name (Expr.unascribe_eq_identifier O.lets he)
    have hcbefore := hmt.complete hE
    rw [settled_of_complete target ty hcbefore]
    have hd : Derives O.bare t' (.expr (.assign h (target.unascribe O.lets)
        (value.unascribe O.lets)) final ty') _ := .assign h _ _ final hn' hdt hdv hcomb'
    have hcbefore' : tt'.isInfer = false := hmt'.twin.isInfer_eq.trans (Ty.isInfer_eq_false hcbefore)
    rw [settled, hcbefore', if_neg Bool.false_ne_true, Expr.ir_unascribe] at hd
    exact ⟨ty', _, hd, (hv.record hown hmty').record hc.node hmty', hty, hmty⟩
  | binary h op lhs rhs final _ _ hcomb ihl ihr =>
    intro hc t' ht
    obtain ⟨lt', u', hl, hu, hlt, hml⟩ := ihl hc.tail.left ht
    obtain ⟨rt', v', hr, hv, hrt, hmr⟩ := ihr hc.tail.right hu
    obtain ⟨ty', hcomb', hty, hmty⟩ := Ty.Matched.combine? hE ⟨hlt, .inr hml⟩ hrt hmr hcomb
    exact ⟨ty', _, .binary h op _ _ final hl hr hcomb', hv.record hc.node ⟨hty, .inr hmty⟩, hty,
      hmty⟩
  | ifOnly h condition body final _ _ ihc ihb =>
    intro hc t' ht
    obtain ⟨ct', u', hcd, hu, -, -⟩ := ihc hc.tail.left ht
    obtain ⟨bt', v', hbd, hv, -, -⟩ := ihb hc.tail.right hu
    exact ⟨_, _, .ifOnly h _ _ final hcd hbd, hv.record hc.node ⟨trivial, .inr trivial⟩, trivial,
      trivial⟩
  | ifElse h condition thenBody elseBody _ _ _ ihc iht ihe =>
    intro hc t' ht
    obtain ⟨ct', u', hcd, hu, -, -⟩ := ihc hc.tail.left ht
    obtain ⟨tt', v', htd, hv, -, -⟩ := iht hc.tail.right.left hu
    obtain ⟨et', w', hed, hw, -, -⟩ := ihe hc.tail.right.right hv
    exact ⟨_, _, .ifElse h _ _ _ hcd htd hed, hw.record hc.node ⟨trivial, .inr trivial⟩, trivial,
      trivial⟩
  | ifElseFinal h condition thenBody elseBody hr _ _ _ hboth hcomb ihc iht ihe =>
    intro hc t' ht
    obtain ⟨hr', hresult⟩ := ht.returned hr
    obtain ⟨ct', u', hcd, hu, -, -⟩ := ihc hc.tail.left ht
    obtain ⟨tt', v', htd, hv, htt, hmt⟩ := iht hc.tail.right.left hu
    obtain ⟨et', w', hed, hw, het, hme⟩ := ihe hc.tail.right.right hv
    obtain ⟨both', hboth', hbt, hmb⟩ := hresult.matched.combine? hE htt hmt hboth
    obtain ⟨ty', hcomb', hty, hmty⟩ := Ty.Matched.combine? hE ⟨hbt, .inr hmb⟩ het hme hcomb
    exact ⟨ty', _, .ifElseFinal h _ _ _ hr' hcd htd hed hboth' hcomb',
      hw.record hc.node ⟨hty, .inr hmty⟩, hty, hmty⟩
  | ifElseIf h condition thenBody elseIf final _ _ _ ihc iht ihe =>
    intro hc t' ht
    obtain ⟨ct', u', hcd, hu, -, -⟩ := ihc hc.tail.left ht
    obtain ⟨tt', v', htd, hv, -, -⟩ := iht hc.tail.right.left hu
    obtain ⟨et', w', hed, hw, -, -⟩ := ihe hc.tail.right.right hv
    exact ⟨_, _, .ifElseIf h _ _ _ final hcd htd hed, hw.record hc.node ⟨trivial, .inr trivial⟩,
      trivial, trivial⟩
  | blockUnit h body final _ ih =>
    intro hc t' ht
    obtain ⟨u', hb, hu⟩ := ih hc.tail ht
    exact ⟨_, _, .blockUnit h _ final hb, hu.record hc.node ⟨trivial, .inr trivial⟩, trivial,
      trivial⟩
  | block h body tail final _ _ ihb iht =>
    intro hc t' ht
    obtain ⟨u', hb, hu⟩ := ihb hc.tail.left ht
    obtain ⟨ty', v', htd, hv, hty, hmty⟩ := iht hc.tail.right hu
    exact ⟨ty', _, .block h _ _ final hb htd, hv.record hc.node ⟨hty, .inr hmty⟩, hty, hmty⟩
  | @index t u v pt both element r capacity h base position final _ hi _ ihp ihb =>
    intro hc t' ht
    obtain ⟨pt', u', hp, hu, hpt, hmp⟩ := ihp hc.tail.right ht
    obtain ⟨bt', v', hb, hv, hbt, hmb⟩ := ihb hc.tail.left hu
    obtain ⟨r', element', rfl, htwin⟩ := hbt.of_array
    have hint : (Ty.int position.ir .w32).Twin (.int (position.unascribe O.lets).ir .w32) := by
      rw [Expr.ir_unascribe]
      exact .refl _
    exact ⟨element', _, .index h _ _ final hp (hint.combine? hpt rfl (hmp.complete hE) hi) hb,
      hv.record hc.node ⟨htwin, .inr hmb⟩, htwin, hmb⟩
  | indexError h base position final _ _ _ ihp ihb =>
    intro hc t' ht
    obtain ⟨pt', u', -, hu, -, -⟩ := ihp hc.tail.right ht
    obtain ⟨bt', v', -, -, -, hmb⟩ := ihb hc.tail.left hu
    exact hmb.elim
  | array h first rest final _ _ hcomb ihf ihr =>
    intro hc t' ht
    obtain ⟨ft', u', hf, hu, hft, hmf⟩ := ihf hc.tail.left ht
    obtain ⟨tys', v', hr, hv, htys, hmtys⟩ := ihr hc.tail.right hu
    obtain ⟨hcomb', rfl⟩ := hft.combineAll?_made hE hmf htys hmtys hcomb
    have hd := Derives.array h _ _ final hf hr hcomb'
    rw [Expr.length_unascribeAll] at hd
    exact ⟨_, _, hd, hv.record hc.node ⟨hft.array _, .inr hmf⟩, hft.array _, hmf⟩
  | copies h element count final _ ih =>
    intro hc t' ht
    obtain ⟨ty', u', he, hu, hty, hmty⟩ := ih hc.tail ht
    exact ⟨_, _, .copies h _ count final he, hu.record hc.node ⟨hty.array _, .inr hmty⟩,
      hty.array _, hmty⟩
  | struct h path fields final hn hs hg _ hall ih =>
    intro hc t' ht
    obtain ⟨⟨decl', hn', hs'⟩, hgone⟩ := hc.structs (List.mem_cons_self ..)
      (List.mem_cons_of_mem _ (List.mem_cons_self ..)) hn hs
    obtain ⟨hg', hmade⟩ := ht.get?_same hgone hg rfl rfl
    obtain ⟨u', hf, hu⟩ := ih hc.tail.tail ht (hE.fields hmade)
    rw [← FieldInit.map_name_unascribeAll O.lets] at hall
    exact ⟨_, _, .struct h path _ final hn' hs' hg' hf hall, hu.record hc.node hmade.matched,
      .refl _, hmade⟩
  | exprsNil t =>
    intro _ t' ht
    exact ⟨[], t', .exprsNil t', ht, .nil, fun _ hm => absurd hm List.not_mem_nil⟩
  | exprsCons e es _ _ ihe ihr =>
    intro hc t' ht
    obtain ⟨ty', u', he, hu, hty, hmty⟩ := ihe hc.left ht
    obtain ⟨tys', v', hr, hv, htys, hmtys⟩ := ihr hc.right hu
    exact ⟨_, _, .exprsCons _ _ he hr, hv, .cons hty htys, List.forall_mem_cons.2 ⟨hmty, hmtys⟩⟩
  | argumentsNil t =>
    intro _ t' ht _
    exact ⟨t', .argumentsNil t', ht⟩
  | argumentsCons name param params e es _ hcomb _ ihe ihr =>
    intro hc t' ht hparams
    obtain ⟨hparam, hparams⟩ := hparams
    obtain ⟨ty', u', he, hu, hty, hmty⟩ := ihe hc.left ht
    obtain ⟨v', hr, hv⟩ := ihr hc.right hu hparams
    obtain ⟨both', hcomb', -, -⟩ := hparam.matched.combine? hE hty hmty hcomb
    exact ⟨v', .argumentsCons name param params _ _ he hcomb' hr, hv⟩
  | fieldsNil decls t =>
    intro _ t' ht _
    exact ⟨t', .fieldsNil decls t', ht⟩
  | fieldsCons decls h name value rest _ hdecl hcomb _ ihv ihr =>
    intro hc t' ht hdecls
    obtain ⟨vt', u', hv, hu, hvt, hmv⟩ := ihv hc.tail.left ht
    obtain ⟨ty', hcomb', hty, hmty⟩ := (hdecls.find? hdecl).matched.combine? hE hvt hmv hcomb
    have hown := hc.own (List.mem_cons_self ..) (List.mem_singleton_self _)
    obtain ⟨w', hr, hw⟩ := ihr hc.tail.right (hu.record hown ⟨hty, .inr hmty⟩) hdecls
    exact ⟨w', .fieldsCons decls h name _ _ hv hdecl hcomb' hr, hw⟩
  | effect e _ ih =>
    intro hc t' ht
    obtain ⟨ty', u', he, hu, -, -⟩ := ih hc ht
    exact ⟨u', .effect _ he, hu⟩
  | declare h pattern ascribed ha =>
    intro hc t' ht
    obtain ⟨annotated', u', ha', hu, hm⟩ := spared_annotates? ha hc.tail ht
    have hlet := Ty.Matched.getD hm h.id.ir
    obtain ⟨hown, hown'⟩ := hc.binds
    exact ⟨_, .declare h pattern ascribed ha', (hu.record hown' hlet).record hown hlet⟩
  | bind h pattern ascribed init ha _ hb ih =>
    intro hc t' ht
    obtain ⟨hown, hown'⟩ := hc.binds
    obtain ⟨u', hu, hlet⟩ := bound_annotates? ha hc.tail.left ht
    obtain ⟨vt', v', hv, hv', hvt, hmv⟩ := ih hc.tail.right hu
    obtain ⟨annotated', ty', ha', hb', hty, hmty⟩ := hlet hvt hmv hb
    have hm : Ty.Matched O.kinds _ ty' := ⟨hty, .inr hmty⟩
    exact ⟨_, .bind h pattern _ _ ha' hv hb', (hv'.record hown' hm).record hown hm⟩
  | stmtsNil t =>
    intro _ t' ht
    exact ⟨t', .stmtsNil t', ht⟩
  | stmtsCons st rest _ _ ihs ihr =>
    intro hc t' ht
    obtain ⟨u', hs, hu⟩ := ihs hc.left ht
    obtain ⟨v', hr, hv⟩ := ihr hc.right hu
    exact ⟨v', .stmtsCons _ _ hs hr, hv⟩

/-! ## Items -/

theorem Fits.spared {i : Item} (h : Fits O.full t i u)
    (hc : O.Covers i.bodyParts (i.unascribe O.lets).bodyParts (i.kind.dropped O.lets))
    (hhead : ¬ O.gone i.head.id.ir) (ht : O.Agree t t') :
    ∃ u', Fits O.bare t' (i.unascribe O.lets) u' ∧ O.Agree u u' := by
  have hE := O.distinguished
  cases h with
  | function h d hget hb htail =>
    obtain ⟨hget', -, hresult⟩ := ht.get?_same hhead hget rfl rfl
    obtain ⟨ty', u', hb', hu, hty, hmty⟩ := hb.spared hc (ht.pushReturn hresult)
    refine ⟨_, .function h _ hget' hb' ?_, hu.popReturn⟩
    intro tail' he
    rw [Expr.tail?_unascribe] at he
    obtain ⟨tail, he, -⟩ := Option.map_eq_some_iff.1 he
    obtain ⟨both, hcomb⟩ := Option.isSome_iff_exists.1 (htail tail he)
    obtain ⟨both', hcomb', -, -⟩ := hresult.matched.combine? hE hty hmty hcomb
    exact Option.isSome_iff_exists.2 ⟨both', hcomb'⟩
  | struct h d => exact ⟨t', .struct h d, ht⟩
  | constant h d hget hv hcomb =>
    obtain ⟨declared', hget', hm⟩ := ht.get? hhead hget
    obtain ⟨ty', u', hv', hu, hty, hmty⟩ := hv.spared hc ht
    obtain ⟨both', hcomb', -, -⟩ := hm.combine? hE hty hmty hcomb
    exact ⟨u', .constant h _ hget' hv' hcomb', hu⟩
  | static h d hget hv hcomb =>
    obtain ⟨declared', hget', hm⟩ := ht.get? hhead hget
    obtain ⟨ty', u', hv', hu, hty, hmty⟩ := hv.spared hc ht
    obtain ⟨both', hcomb', -, -⟩ := hm.combine? hE hty hmty hcomb
    exact ⟨u', .static h _ hget' hv' hcomb', hu⟩

/-- No annotation of a signature is dropped, so both checks record the same signatures. -/
theorem Annotates.same {a : TypeExpr} {ty : Ty} {ps : List Part} (h : Annotates O.full t a ty u) :
    O.Covers ps a.parts [] → t.builtinIds = O.start.builtinIds → Annotates O.bare t a ty u := by
  induction h with
  | unit h => exact fun _ _ => .unit h
  | array h capacity _ ih =>
    intro hc ht
    exact .array h capacity
      (ih (hc.sub (List.Subset.refl _) (List.subset_cons_self ..) (List.Subset.refl _)) ht)
  | path h name hty =>
    intro hc ht
    refine .path h name ?_
    obtain ⟨id, htarget, hget⟩ := Option.bind_eq_some_iff.1 hty
    rw [pathTarget?_congr ht] at htarget
    have htarget' := hc.paths (List.mem_singleton_self _) htarget
    rw [pathType?, pathTarget?_congr ht, htarget']
    exact hget

theorem same_annotates? {a : Option TypeExpr} {ty : Option Ty} {ps : List Part}
    (h : Annotates? O.full t a ty u) (hc : O.Covers ps (TypeExpr.partsOf a) [])
    (ht : t.builtinIds = O.start.builtinIds) : Annotates? O.bare t a ty u := by
  cases h with
  | none => exact .none t
  | some h => exact .some (h.same hc ht)

theorem HasParams.same {l : List Param} {ms : Members} (h : HasParams O.full t l ms u) :
    O.Covers (l.flatMap fun p => p.type.parts) (l.flatMap fun p => p.type.parts) [] →
    t.builtinIds = O.start.builtinIds → HasParams O.bare t l ms u := by
  induction h with
  | nil t => exact fun _ _ => .nil t
  | cons ha _ ih =>
    intro hc ht
    rw [List.flatMap_cons] at hc
    have hset := ha.setting
    exact .cons (ha.same hc.split.1 ht) (ih hc.split.2 (hset.builtinIds.trans ht))

theorem HasFields.same {l : List FieldDecl} {ms : Members} (h : HasFields O.full t l ms u) :
    O.Covers (l.flatMap fun f => f.type.parts) (l.flatMap fun f => f.type.parts) [] →
    t.builtinIds = O.start.builtinIds → HasFields O.bare t l ms u := by
  induction h with
  | nil t => exact fun _ _ => .nil t
  | cons ha _ ih =>
    intro hc ht
    rw [List.flatMap_cons] at hc
    have hset := ha.setting
    exact .cons (ha.same hc.split.1 ht) (ih hc.split.2 (hset.builtinIds.trans ht))

theorem Signs.same {i : Item} (h : Signs O.full t i u)
    (hc : O.Covers i.signatureParts i.signatureParts []) (ht : t.builtinIds = O.start.builtinIds) :
    Signs O.bare t (i.unascribe O.lets) u := by
  obtain ⟨ty, v, h, rfl⟩ := h
  suffices hs : HasSignature O.bare t (i.unascribe O.lets) ty v from ⟨ty, v, hs, rfl⟩
  cases h with
  | function h d hps ha =>
    exact .function h _ (hps.same hc.split.1 ht)
      (same_annotates? ha hc.split.2 (hps.setting.builtinIds.trans ht))
  | struct h d hf => exact .struct h d (hf.same hc ht)
  | constant h d ha => exact .constant h _ (ha.same hc ht)
  | static h d ha => exact .static h _ (ha.same hc ht)

theorem signatureOrder_unascribe (X : IrId → Bool) (items : List Item) :
    signatureOrder (items.map (Item.unascribe X)) =
      (signatureOrder items).map (Item.unascribe X) := by
  unfold signatureOrder
  rw [List.filter_map, List.filter_map, List.map_append]
  simp only [Function.comp_def, Item.isStruct_unascribe]

/-! ## Programs -/

theorem same_signatures {l : List Item} (h : Chain (Signs O.full) t l u) :
    (∀ i ∈ l, O.Covers i.signatureParts i.signatureParts []) →
    t.builtinIds = O.start.builtinIds → Chain (Signs O.bare) t (l.map (Item.unascribe O.lets)) u := by
  induction h with
  | nil t => exact fun _ _ => .nil t
  | cons hi _ ih =>
    intro hc ht
    obtain ⟨hci, hcl⟩ := List.forall_mem_cons.1 hc
    exact .cons (hi.same hci ht) (ih hcl (hi.setting.builtinIds.trans ht))

theorem spared_bodies {l : List Item} (h : Chain (Fits O.full) t l u) :
    (∀ i ∈ l, O.Covers i.bodyParts (i.unascribe O.lets).bodyParts (i.kind.dropped O.lets)) →
    (∀ i ∈ l, ¬ O.gone i.head.id.ir) → ∀ {t' : TypeTable}, O.Agree t t' →
    ∃ u', Chain (Fits O.bare) t' (l.map (Item.unascribe O.lets)) u' ∧ O.Agree u u' := by
  induction h with
  | nil t => exact fun _ _ t' ht => ⟨t', .nil t', ht⟩
  | cons hi _ ih =>
    intro hc hheads t' ht
    obtain ⟨hci, hcl⟩ := List.forall_mem_cons.1 hc
    obtain ⟨hhi, hhl⟩ := List.forall_mem_cons.1 hheads
    obtain ⟨v', hi', hv⟩ := hi.spared hci hhi ht
    obtain ⟨u', hl', hu⟩ := ih hcl hhl hv
    exact ⟨u', .cons hi' hl', hu⟩

/-- A pass over a program, without the dropped annotations: the signatures come to the same, and
from there on it finds twins. -/
theorem spared_program {p : Program} {v : TypeTable}
    (hsigns : Chain (Signs O.full) t (signatureOrder p.items) v)
    (hfits : Chain (Fits O.full) v p.items u)
    (hc : O.Covers p.parts (p.unascribe O.lets).parts (p.dropped O.lets))
    (hheads : ∀ i ∈ p.items, ¬ O.gone i.head.id.ir) (hv : O.Agree v v) :
    ∃ u', Passes O.bare (p.unascribe O.lets) t u' ∧ O.Agree u u' := by
  have hparts : ∀ i ∈ p.items, i.parts ⊆ p.parts ∧
      (i.unascribe O.lets).parts ⊆ (p.unascribe O.lets).parts := fun i hi =>
    ⟨(Program.parts_sublist hi).subset,
      (Program.parts_sublist (List.mem_map_of_mem (f := Item.unascribe O.lets) hi)).subset⟩
  have hsignatures : ∀ i ∈ signatureOrder p.items,
      O.Covers i.signatureParts i.signatureParts [] := by
    intro i hi
    obtain ⟨hps, hqs⟩ := hparts i (mem_signatureOrder.1 hi)
    have hleft := List.Subset.trans (List.subset_append_left ..) hqs
    rw [Item.signatureParts_unascribe] at hleft
    exact hc.sub (List.Subset.trans (List.subset_append_left ..) hps) hleft (List.nil_subset _)
  have hbodies : ∀ i ∈ p.items,
      O.Covers i.bodyParts (i.unascribe O.lets).bodyParts (i.kind.dropped O.lets) := by
    intro i hi
    obtain ⟨hps, hqs⟩ := hparts i hi
    exact hc.sub (List.Subset.trans (List.subset_append_right ..) hps)
      (List.Subset.trans (List.subset_append_right ..) hqs)
      fun d hd => List.mem_flatMap.2 ⟨i, hi, hd⟩
  have hset := setting_of_chain (fun h => h.setting) hsigns
  have hsigns' := same_signatures hsigns hsignatures (hset.builtinIds.symm.trans hv.builtinIds)
  rw [← signatureOrder_unascribe] at hsigns'
  obtain ⟨u', hfits', hu⟩ := spared_bodies hfits hbodies hheads hv
  exact ⟨u', ⟨v, hsigns', hfits'⟩, hu⟩

end Check

end MiddleEnd
