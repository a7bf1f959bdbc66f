/-
  A type name that names nothing is reported once and causes nothing else. Where a program checks
  clean, take away what the type name at one annotation means: the check still ends without a
  fault, and reports that annotation only (`Session.check_forgetType`).

  The check without the binding follows the clean one, from faded tables to faded tables. What
  the program takes types from, its struct and function items and the primitive types, never gets
  the error type as a whole; those nodes are the `K` of `Fade.lean`.
-/
import MiddleEnd.Proofs.Check.Binding
import MiddleEnd.Proofs.Check.Fade
import MiddleEnd.Proofs.Check.Settling
import MiddleEnd.Proofs.Syntax.Samples
import MiddleEnd.Proofs.Syntax.Surfaces

namespace MiddleEnd

/-! ## Forgetting a binding -/

/-- Nothing is named by the type name at `use` any more. -/
def Bindings.forgetType (b : Bindings) (use : SurfaceId) : Bindings :=
  { b with types := b.types.erase use }

theorem Bindings.type?_forgetType (b : Bindings) (use node : SurfaceId) :
    (b.forgetType use).type? node = if node = use then none else b.type? node := by
  unfold type? forgetType
  simp only [Std.TreeMap.getElem?_erase, Std.compare_eq_iff_eq, eq_comm (a := use)]

def Scope.forgetType (s : Scope) (use : SurfaceId) : Scope :=
  { s with bindings := s.bindings.forgetType use }

def Session.forgetType (s : Session) (use : SurfaceId) : Session :=
  { s with scope := s.scope.forgetType use }

namespace Check

variable {s : Scope} {b : TypeTable} {K : IrId → Prop} {x : SurfaceId}

theorem pathTarget?_forgetType (t : TypeTable) (h : Head) :
    pathTarget? (s.forgetType x) t h = if h.id.surface = x then none else pathTarget? s t h := by
  unfold pathTarget?
  show ((s.bindings.forgetType x).type? h.id.surface).bind _ = _
  rw [Bindings.type?_forgetType]
  split <;> rfl

/-! ## Parts that are clear of the nodes types are taken from -/

/-- No part is a node of `K`, but the types that parts name are recorded at nodes of `K`. Struct
literals are other nodes than `x`. -/
structure Clear (s : Scope) (b : TypeTable) (K : IrId → Prop) (x : SurfaceId)
    (parts : List Part) : Prop where
  loose : ∀ {p : Part}, p ∈ parts → ∀ id ∈ p.irs, ¬ K id
  paths : ∀ {g name id}, .ascription (.path g name) ∈ parts → pathTarget? s b g = some id → K id
  structs : ∀ {h path fs decl id}, .expr (.struct h path fs) ∈ parts →
    s.bindings.type? path.id.surface = some decl →
    s.registry.node? ⟨path.id.crate, decl⟩ = some id → K id
  apart : ∀ {path}, .path path ∈ parts → path.id.surface ≠ x

namespace Clear

variable {p : Part} {parts parts' : List Part}

theorem mono (h : Clear s b K x parts) (hp : ∀ p ∈ parts', p ∈ parts) :
    Clear s b K x parts' where
  loose hm := h.loose (hp _ hm)
  paths hm := h.paths (hp _ hm)
  structs hm := h.structs (hp _ hm)
  apart hm := h.apart (hp _ hm)

theorem tail (h : Clear s b K x (p :: parts)) : Clear s b K x parts :=
  h.mono fun _ hm => List.mem_cons_of_mem _ hm

theorem left (h : Clear s b K x (parts ++ parts')) : Clear s b K x parts :=
  h.mono fun _ hm => List.mem_append_left _ hm

theorem right (h : Clear s b K x (parts ++ parts')) : Clear s b K x parts' :=
  h.mono fun _ hm => List.mem_append_right _ hm

theorem node {e : Expr} (h : Clear s b K x (.expr e :: parts)) : ¬ K e.ir :=
  h.loose (List.mem_cons_self ..) _ (List.mem_singleton_self _)

end Clear

/-! ## Goodness -/

theorem Good.not_mem_of_isInfer {t : TypeTable} (h : Good b K t) {id : IrId} {ty : Ty}
    (hget : t.get? id = some ty) (hi : ty.isInfer = true) : ¬ K id := by
  rcases h.entries hget with hc | ⟨_, hK⟩
  · rw [Ty.isInfer_eq_false hc] at hi
    cases hi
  · exact hK

/-- What is assigned to a variable, settled or not, still goes with it when parts are lost. -/
theorem Good.fades_combine? {t : TypeTable} (h : Good b K t) {id : IrId} {tt tt' vt vt' ty : Ty}
    (hget : t.get? id = some tt) (htt : tt.Fades tt') (hc : vt.complete = true)
    (hvt : vt.Fades vt') (hcomb : tt.combine? vt = some ty) :
    ∃ ty', tt'.combine? vt' = some ty' ∧ ty.Fades ty' := by
  rcases h.entries hget with hct | ⟨⟨r, rfl⟩, _⟩
  · exact htt.combine? hct hc hvt hcomb
  · rw [Ty.Fades.infer_iff.1 htt]
    exact hvt.combine?_infer hc hcomb

/-- A clean check of clear parts stays good, and the types it finds are complete. -/
theorem Derives.good {t u : TypeTable} {j : Judgement} (h : Derives s t j u)
    (hp : Clear s b K x j.parts) (hgiven : j.Given) (hg : Good b K t) : Good b K u ∧ j.Complete := by
  have hsourced : Sourced s b K K j.parts j.blanks := by
    refine ⟨id, fun he => hp.loose he _ (List.mem_singleton_self _), hp.paths, fun id hid => ?_⟩
    obtain ⟨g, q, hm, hin⟩ := j.introduced_blanks id hid
    exact hp.loose hm id hin
  exact h.settles hsourced hgiven hg

/-! ## Following a clean check -/

theorem Annotates.follows {t u : TypeTable} {a : TypeExpr} {ty : Ty} (h : Annotates s t a ty u) :
    Clear s b K x a.parts → Good b K t → ∀ {t' : TypeTable}, Faded K t t' →
    Follows K x (typeExpr (s.forgetType x) a) ty.Fades t' a.parts u := by
  induction h with
  | unit h =>
    intro hp _ t' hf
    have hK := hp.loose (List.mem_cons_self ..) _ (List.mem_singleton_self _)
    refine .skip ?_ rfl
    exact .of_yields ((yields_record t' h.id.ir (.unit h.id.ir)).bind (yields_pure _ _))
      (Ty.Fades.refl rfl) (hf.record (.refl rfl) hK)
  | array h capacity _ ih =>
    intro hp hg t' hf
    have hK := hp.loose (List.mem_cons_self ..) _ (List.mem_singleton_self _)
    refine .skip ?_ rfl
    refine (ih hp.tail hg hf).finish ?_
    intro ty' v' hty hv
    exact ⟨_, _, (yields_record v' h.id.ir (.array h.id.ir ty' capacity.toNat)).bind
      (yields_pure _ _), .array hty, hv.record (.array hty) hK⟩
  | path h name hpath =>
    intro hp hg t' hf
    have hK := hp.loose (List.mem_cons_self ..) _ (List.mem_singleton_self _)
    obtain ⟨id, hid, hget⟩ := Option.bind_eq_some_iff.1 hpath
    rw [pathTarget?_congr hg.builtinIds] at hid
    have hc := hg.firm hget (hp.paths (List.mem_singleton_self _) hid)
    by_cases hx : h.id.surface = x
    · have hnone : pathType? (s.forgetType x) t' h = none := by
        unfold pathType?
        rw [pathTarget?_forgetType, if_pos hx]
        rfl
      refine ⟨.error h.id.ir, [⟨.error, .unresolvedType name, h.locus⟩],
        t'.record h.id.ir (.error h.id.ir), ?_, Ty.fades_error_iff.2 hc, ?_,
        hf.record (Ty.fades_error_iff.2 hc) hK⟩
      · refine reports_get fun p hpt => ?_
        rw [hpt, hnone]
        refine (reports_report t' h.locus (.unresolvedType name)).bind (Yields.reports ?_)
        exact (yields_record t' h.id.ir (.error h.id.ir)).bind (yields_pure _ _)
      · have hmissing : Part.missing x (.ascription (.path h name)) =
            [⟨.error, .unresolvedType name, h.locus⟩] := if_pos hx
        rw [TypeExpr.parts, Part.missingAll, List.flatMap_cons, hmissing]
        exact .refl _
    · obtain ⟨ty', hget', hty⟩ := hf.entries hget
      have hsome : pathType? (s.forgetType x) t' h = some ty' := by
        unfold pathType?
        rw [pathTarget?_forgetType, if_neg hx, pathTarget?_congr (hf.builtinIds.trans hg.builtinIds),
          hid]
        exact hget'
      have hsilent : Part.missing x (.ascription (.path h name)) = [] := if_neg hx
      refine .skip (.of_yields (yields_get fun p hpt => ?_) hty (hf.record hty hK)) hsilent
      rw [hpt, hsome]
      exact (yields_record t' h.id.ir ty').bind (yields_pure _ _)

theorem Annotates?.follows {t u : TypeTable} {a : Option TypeExpr} {ty : Option Ty}
    (h : Annotates? s t a ty u) (hp : Clear s b K x (TypeExpr.partsOf a)) (hg : Good b K t)
    {t' : TypeTable} (hf : Faded K t t') :
    Follows K x (typeExpr? (s.forgetType x) a) (Option.Rel Ty.Fades ty) t'
      (TypeExpr.partsOf a) u := by
  cases h with
  | none => exact .of_yields (yields_pure _ _) .none hf
  | some h =>
    refine (h.follows hp hg hf).finish ?_
    intro ty' v' hty hv
    exact ⟨Option.some ty', v', yields_pure _ _, .some hty, hv⟩

/-- The checker without the binding finds faded types, and reports the annotation only. -/
def Judgement.Follows (s : Scope) (K : IrId → Prop) (x : SurfaceId) (t' u : TypeTable) :
    Judgement → Prop
  | .expr e final ty =>
    Check.Follows K x (Check.expr (s.forgetType x) e final) (FadedFrom ty) t' e.parts u
  | .exprs es tys => Check.Follows K x (Check.exprs (s.forgetType x) es)
      (fun r => ∃ tys', r = tys'.map some ∧ List.Forall₂ Ty.Fades tys tys') t'
      (Expr.partsAll es) u
  -- the parameters may be lost with the type of the function
  | .arguments params es =>
    (∀ params', params.Fades params' → Check.Follows K x (Check.arguments (s.forgetType x) params' es)
      (· = true) t' (Expr.partsAll es) u) ∧
    Check.Follows K x (Check.exprs (s.forgetType x) es) (fun _ => True) t' (Expr.partsAll es) u
  | .fields decls fs => ∀ struct decls', decls.Fades decls' →
    Check.Follows K x (fieldInits (s.forgetType x) struct decls' fs) (· = true) t'
      (FieldInit.partsAll fs) u
  | .stmt st => Check.Follows K x (Check.stmt (s.forgetType x) st) (fun _ => True) t' st.parts u
  | .stmts sts =>
    Check.Follows K x (Check.stmts (s.forgetType x) sts) (fun _ => True) t' (Stmt.partsAll sts) u

theorem Derives.follows {t u : TypeTable} {j : Judgement} (h : Derives s t j u) :
    Clear s b K x j.parts → j.Given → Good b K t → ∀ {t' : TypeTable}, Faded K t t' →
    j.Follows s K x t' u := by
  induction h with
  | literal h lit final hl =>
    intro hp _ hg t' hf
    show Check.Follows _ _ _ _ _ _ _
    rw [expr]
    refine .skip (.recording (.of_yields ?_ ⟨_, rfl, .refl (hg.builtins hl)⟩ hf) hp.node) rfl
    exact (yields_literal ((hf.builtin? _).trans hl)).bind (yields_pure _ _)
  | identifier h name final hd hget hi =>
    intro hp _ hg t' hf
    show Check.Follows _ _ _ _ _ _ _
    rw [expr]
    obtain ⟨ty', hget', hty⟩ := hf.entries hget
    refine .skip (.recording (.of_yields ?_ ⟨ty', rfl, hty⟩ hf) hp.node) rfl
    exact yields_identifier hd hget' (hty.isInfer_eq.trans hi)
  | retUnit h final hr hc =>
    intro hp _ hg t' hf
    show Check.Follows _ _ _ _ _ _ _
    rw [expr]
    obtain ⟨result', hr', hres⟩ := hf.return? hr
    obtain ⟨ty', hc', hty⟩ := hres.combine? (hg.returns hr) rfl (.refl rfl) hc
    refine .skip (.recording (.of_yields ((yields_return? t').bind ?_) ⟨ty', rfl, hty⟩ hf) hp.node) rfl
    rw [hr']
    exact yields_reconcile _ _ hc'
  | ret h value final hr hv hc ih =>
    intro hp _ hg t' hf
    show Check.Follows _ _ _ _ _ _ _
    rw [expr]
    obtain ⟨result', hr', hres⟩ := hf.return? hr
    have hcv := (hv.good hp.tail trivial hg).2
    refine .skip (.recording (.after (yields_return? t') ?_) hp.node) rfl
    rw [hr']
    refine Follows.finish (ih hp.tail trivial hg hf) ?_
    rintro _ v' ⟨vt', rfl, hvt⟩ hv'
    obtain ⟨ty', hc', hty⟩ := hres.combine? (hg.returns hr) hcv hvt hc
    exact ⟨_, v', yields_reconcile _ _ hc', ⟨ty', rfl, hty⟩, hv'⟩
  | call h callee args final hd hi hget hl _ ih =>
    intro hp _ hg t' hf
    show Check.Follows _ _ _ _ _ _ _
    rw [expr]
    have hcf := hg.complete hget rfl
    rw [Ty.complete, Bool.and_eq_true] at hcf
    obtain ⟨ft', hget', hft⟩ := hf.entries hget
    obtain ⟨hargs, hexprs⟩ := ih hp.tail.tail hcf.1 hg hf
    refine .skip (.skip (.recording (.after
      (yields_calleeType (e := .call h callee args) hd hi hget') ?_) hp.node) rfl) rfl
    rcases he : ft'.isError with _ | _
    · obtain ⟨params', result', rfl, hps, hres⟩ := hft.of_fn he
      dsimp only
      rw [if_neg (Decidable.not_not.2 (hps.length_eq.trans hl))]
      refine (hargs params' hps).finish ?_
      rintro _ v' rfl hv
      exact ⟨some result', v', yields_pure _ _, ⟨result', rfl, hres⟩, hv⟩
    · cases ft' with
      | error r =>
        refine hexprs.discard.finish ?_
        intro _ v' _ hv
        exact ⟨_, v', yields_pure _ _, ⟨_, rfl, Ty.fades_error_iff.2 hcf.2⟩, hv⟩
      | _ => cases he
  | callError h callee args final _ _ hget _ _ =>
    intro _ _ hg
    cases hg.complete hget rfl
  | assignName h g name value final hd hget hv hc ih =>
    intro hp _ hg t' hf
    show Check.Follows _ _ _ _ _ _ _
    rw [expr]
    have hK : ¬ K g.id.ir := hp.tail.left.node
    have hg' := hg.record ((hg.entries hget).imp_right fun hi => ⟨hi.1, hK⟩)
    have hcv := (hv.good hp.tail.right trivial hg').2
    obtain ⟨tt', hget', htt⟩ := hf.entries hget
    refine .skip (.recording (.after
      (yields_recording g.id.ir (yields_identifier_target hd hget')) (.skip ?_ rfl)) hp.node) rfl
    refine Follows.finish (ih hp.tail.right trivial hg' (hf.record htt hK)) ?_
    rintro _ v' ⟨vt', rfl, hvt⟩ hv'
    obtain ⟨ty', hc', hty⟩ := hg.fades_combine? hget htt hcv hvt hc
    refine ⟨_, _, yields_assigned v' h (.identifier g name) hc', ⟨ty', rfl, hty⟩, ?_⟩
    refine (hv'.record hty hK).settled _ htt hty ?_
    intro hi id hd'
    cases hd.symm.trans hd'
    exact hg.not_mem_of_isInfer hget hi
  | assign h target value final hn ht hv hc iht ihv =>
    intro hp _ hg t' hf
    show Check.Follows _ _ _ _ _ _ _
    rw [expr_assign hn]
    have hK : ¬ K target.ir :=
      hp.tail.left.loose target.self_mem_parts _ (List.mem_singleton_self _)
    obtain ⟨hgu, hct⟩ := ht.good hp.tail.left trivial hg
    have hcv := (hv.good hp.tail.right trivial hgu).2
    refine .skip (.recording (Follows.bind (iht hp.tail.left trivial hg hf) ?_) hp.node) rfl
    rintro _ u' ⟨tt', rfl, htt⟩ hu
    refine Follows.finish (ihv hp.tail.right trivial hgu hu) ?_
    rintro _ v' ⟨vt', rfl, hvt⟩ hv'
    obtain ⟨ty', hc', hty⟩ := htt.combine? hct hcv hvt hc
    refine ⟨_, _, yields_assigned v' h target hc', ⟨ty', rfl, hty⟩, ?_⟩
    refine (hv'.record hty hK).settled _ htt hty ?_
    intro hi
    rw [Ty.isInfer_eq_false hct] at hi
    cases hi
  | binary h op lhs rhs final hl hr hc ihl ihr =>
    intro hp _ hg t' hf
    show Check.Follows _ _ _ _ _ _ _
    rw [expr]
    obtain ⟨hgu, hcl⟩ := hl.good hp.tail.left trivial hg
    have hcr := (hr.good hp.tail.right trivial hgu).2
    refine .skip (.recording (Follows.bind (ihl hp.tail.left trivial hg hf) ?_) hp.node) rfl
    rintro _ u' ⟨lt', rfl, hlt⟩ hu
    refine Follows.finish (ihr hp.tail.right trivial hgu hu) ?_
    rintro _ v' ⟨rt', rfl, hrt⟩ hv
    obtain ⟨ty', hc', hty⟩ := hlt.combine? hcl hcr hrt hc
    exact ⟨_, v', yields_combined v' _ hc', ⟨ty', rfl, hty⟩, hv⟩
  | ifOnly h condition body final hc hb ihc ihb =>
    intro hp _ hg t' hf
    show Check.Follows _ _ _ _ _ _ _
    rw [expr]
    have hgu := (hc.good hp.tail.left trivial hg).1
    refine .skip (.recording ((Follows.discard (ihc hp.tail.left trivial hg hf)).bind ?_) hp.node) rfl
    intro _ u' _ hu
    refine (Follows.discard (ihb hp.tail.right trivial hgu hu)).finish ?_
    intro _ v' _ hv
    exact ⟨_, v', yields_pure _ _, ⟨_, rfl, .refl rfl⟩, hv⟩
  | ifElse h condition thenBody elseBody hc ht he ihc iht ihe =>
    intro hp _ hg t' hf
    show Check.Follows _ _ _ _ _ _ _
    rw [expr]
    have hgu := (hc.good hp.tail.left trivial hg).1
    have hgv := (ht.good hp.tail.right.left trivial hgu).1
    refine .skip (.recording ((Follows.discard (ihc hp.tail.left trivial hg hf)).bind ?_) hp.node) rfl
    intro _ u' _ hu
    refine (Follows.discard (iht hp.tail.right.left trivial hgu hu)).bind ?_
    intro _ v' _ hv
    refine (Follows.discard (ihe hp.tail.right.right trivial hgv hv)).finish ?_
    intro _ w' _ hw
    exact ⟨_, w', yields_pure _ _, ⟨_, rfl, .refl rfl⟩, hw⟩
  | ifElseFinal h condition thenBody elseBody hr hc ht he hb hty ihc iht ihe =>
    intro hp _ hg t' hf
    show Check.Follows _ _ _ _ _ _ _
    rw [expr]
    have hcr := hg.returns hr
    have hgu := (hc.good hp.tail.left trivial hg).1
    obtain ⟨hgv, hct⟩ := ht.good hp.tail.right.left trivial hgu
    have hce := (he.good hp.tail.right.right trivial hgv).2
    have hcb := (Ty.combine?_complete hcr hct hb).1 ▸ hcr
    obtain ⟨result', hr', hres⟩ := hf.return? hr
    refine .skip (.recording (.after (yields_return? t') ?_) hp.node) rfl
    rw [hr']
    refine (Follows.discard (ihc hp.tail.left trivial hg hf)).bind ?_
    intro _ u' _ hu
    refine Follows.bind (iht hp.tail.right.left trivial hgu hu) ?_
    rintro _ v' ⟨tt', rfl, htt⟩ hv
    refine Follows.finish (ihe hp.tail.right.right trivial hgv hv) ?_
    rintro _ w' ⟨et', rfl, het⟩ hw
    obtain ⟨both', hb', hboth⟩ := hres.combine? hcr hct htt hb
    obtain ⟨ty', hc', hty'⟩ := hboth.combine? hcb hce het hty
    exact ⟨_, w', yields_branches w' _ _ hb' hc', ⟨ty', rfl, hty'⟩, hw⟩
  | ifElseIf h condition thenBody elseIf final hc ht he ihc iht ihe =>
    intro hp _ hg t' hf
    show Check.Follows _ _ _ _ _ _ _
    rw [expr]
    have hgu := (hc.good hp.tail.left trivial hg).1
    have hgv := (ht.good hp.tail.right.left trivial hgu).1
    refine .skip (.recording ((Follows.discard (ihc hp.tail.left trivial hg hf)).bind ?_) hp.node) rfl
    intro _ u' _ hu
    refine (Follows.discard (iht hp.tail.right.left trivial hgu hu)).bind ?_
    intro _ v' _ hv
    refine (Follows.discard (ihe hp.tail.right.right trivial hgv hv)).finish ?_
    intro _ w' _ hw
    exact ⟨_, w', yields_pure _ _, ⟨_, rfl, .refl rfl⟩, hw⟩
  | blockUnit h body final _ ih =>
    intro hp _ hg t' hf
    show Check.Follows _ _ _ _ _ _ _
    rw [expr]
    refine .skip (.recording (Follows.finish (ih hp.tail trivial hg hf) ?_) hp.node) rfl
    intro _ u' _ hu
    exact ⟨_, u', yields_pure _ _, ⟨_, rfl, .refl rfl⟩, hu⟩
  | block h body tail final hb _ ihb iht =>
    intro hp _ hg t' hf
    show Check.Follows _ _ _ _ _ _ _
    rw [expr]
    have hgu := (hb.good hp.tail.left trivial hg).1
    refine .skip (.recording (Follows.bind (ihb hp.tail.left trivial hg hf) ?_) hp.node) rfl
    exact fun _ _ _ hu => iht hp.tail.right trivial hgu hu
  | index h base position final hpos hi hbase ihp ihb =>
    intro hp _ hg t' hf
    show Check.Follows _ _ _ _ _ _ _
    rw [expr]
    obtain ⟨hgu, hcp⟩ := hpos.good hp.tail.right trivial hg
    have hcb := (hbase.good hp.tail.left trivial hgu).2
    refine .skip (.recording (.reorder ?_ List.perm_append_comm) hp.node) rfl
    refine Follows.bind (ihp hp.tail.right trivial hg hf) ?_
    rintro _ u' ⟨pt', rfl, hpt⟩ hu
    obtain ⟨_, hi', _⟩ := Ty.Fades.combine? (.refl rfl) rfl hcp hpt hi
    refine .after (yields_checkIndex u' hi') ?_
    refine Follows.finish (ihb hp.tail.left trivial hgu hu) ?_
    rintro _ v' ⟨bt', rfl, hbt⟩ hv
    rcases he : bt'.isError with _ | _
    · obtain ⟨element', rfl, hel⟩ := hbt.of_array he
      exact ⟨_, v', yields_elementOf v' _ pt' (.array ..), ⟨element', rfl, hel⟩, hv⟩
    · cases bt' with
      | error r =>
        exact ⟨_, v', yields_elementOf v' _ pt' (.error r), ⟨_, rfl, Ty.fades_error_iff.2 hcb⟩, hv⟩
      | _ => cases he
  | indexError h base position final hpos _ hbase _ _ =>
    intro hp _ hg
    have hgu := (hpos.good hp.tail.right trivial hg).1
    cases (hbase.good hp.tail.left trivial hgu).2
  | array h first rest final hfirst hrest he ihf ihr =>
    intro hp _ hg t' hf
    show Check.Follows _ _ _ _ _ _ _
    rw [expr]
    obtain ⟨hgu, hcf⟩ := hfirst.good hp.tail.left trivial hg
    have hcr := (hrest.good hp.tail.right trivial hgu).2
    refine .skip (.recording (Follows.bind (ihf hp.tail.left trivial hg hf) ?_) hp.node) rfl
    rintro _ u' ⟨ft', rfl, hft⟩ hu
    refine Follows.finish (ihr hp.tail.right trivial hgu hu) ?_
    rintro _ v' ⟨tys', rfl, htys⟩ hv
    obtain ⟨element', he', hel⟩ := hft.combineAll? htys hcr hcf he
    have hlen : tys'.length = rest.length := htys.length_eq.symm.trans hrest.length_eq
    exact ⟨_, v', yields_arrayOf v' _ (hlen.trans (List.length_map _).symm) he',
      ⟨_, rfl, rfl, hel, by rw [hlen]⟩, hv⟩
  | copies h element count final he ih =>
    intro hp _ hg t' hf
    show Check.Follows _ _ _ _ _ _ _
    rw [expr]
    refine .skip (.recording (Follows.finish (ih hp.tail trivial hg hf) ?_) hp.node) rfl
    rintro _ u' ⟨et', rfl, het⟩ hu
    exact ⟨_, u', yields_pure _ _, ⟨_, rfl, rfl, het, rfl⟩, hu⟩
  | @struct t u decl id r name decls h path fields final hd hi hget _ hm ih =>
    intro hp _ hg t' hf
    show Check.Follows _ _ _ _ _ _ _
    rw [expr]
    have hK := hp.structs (List.mem_cons_self ..) hd hi
    obtain ⟨st', hget', hst⟩ := hf.entries hget
    obtain ⟨decls', rfl, hdecls⟩ := hst.of_struct (hf.whole hK hget')
    have hd' : (s.forgetType x).bindings.type? path.id.surface = some decl := by
      show (s.bindings.forgetType x).type? _ = _
      rw [Bindings.type?_forgetType, if_neg (hp.apart (.tail _ (.head _))), hd]
    refine .skip (.skip (.recording (.after
      (yields_structType (e := .struct h path fields) hd' hi hget') ?_) hp.node) rfl) rfl
    refine (ih hp.tail.tail (hg.complete hget rfl) hg hf name decls' hdecls).finish ?_
    rintro _ u' rfl hu
    have hm' : ∀ n ∈ decls'.names, n ∈ fields.map FieldInit.name := by
      rw [hdecls.names_eq]
      exact hm
    exact ⟨_, u', (yields_missingFields u' h.locus name hm').bind (yields_pure _ _), ⟨_, rfl, hst⟩, hu⟩
  | exprsNil t =>
    intro _ _ _ t' hf
    show Check.Follows _ _ _ _ _ _ _
    rw [exprs]
    exact .of_yields (yields_pure _ _) ⟨[], rfl, .nil⟩ hf
  | exprsCons e es he _ ihe ihr =>
    intro hp _ hg t' hf
    show Check.Follows _ _ _ _ _ _ _
    rw [exprs]
    have hgu := (he.good hp.left trivial hg).1
    refine Follows.bind (ihe hp.left trivial hg hf) ?_
    rintro _ u' ⟨ty', rfl, hty⟩ hu
    refine Follows.finish (ihr hp.right trivial hgu hu) ?_
    rintro _ v' ⟨tys', rfl, htys⟩ hv
    exact ⟨_, v', yields_pure _ _, ⟨ty' :: tys', rfl, .cons hty htys⟩, hv⟩
  | argumentsNil t =>
    intro _ _ _ t' hf
    refine ⟨?_, ?_⟩
    · intro params' hps
      rw [hps.of_nil, arguments]
      · exact .of_yields (yields_pure _ _) rfl hf
      · simp
    · rw [exprs]
      exact .of_yields (yields_pure _ _) trivial hf
  | argumentsCons name param params e es he hc _ ihe ihr =>
    intro hp hgiven hg t' hf
    rw [Judgement.Given, Members.complete, Bool.and_eq_true] at hgiven
    obtain ⟨hgu, hce⟩ := he.good hp.left trivial hg
    refine ⟨?_, ?_⟩
    · intro params' hps
      obtain ⟨param', rest', rfl, hpar, hrest⟩ := hps.of_cons
      rw [arguments]
      refine Follows.bind (ihe hp.left trivial hg hf) ?_
      rintro _ u' ⟨ty', rfl, hty⟩ hu
      obtain ⟨_, hc', _⟩ := hpar.combine? hgiven.1 hce hty hc
      refine .after (yields_fits u' _ hc') ?_
      refine ((ihr hp.right hgiven.2 hgu hu).1 rest' hrest).finish ?_
      rintro _ v' rfl hv
      exact ⟨_, v', yields_pure _ _, rfl, hv⟩
    · rw [exprs]
      refine Follows.bind (ihe hp.left trivial hg hf) ?_
      intro _ u' _ hu
      refine (ihr hp.right hgiven.2 hgu hu).2.finish ?_
      intro _ v' _ hv
      exact ⟨_, v', yields_pure _ _, trivial, hv⟩
  | fieldsNil decls t =>
    intro _ _ _ t' hf struct decls' _
    rw [fieldInits]
    exact .of_yields (yields_pure _ _) rfl hf
  | fieldsCons decls h name value rest hv hfind hc _ ihv ihr =>
    intro hp hgiven hg t' hf struct decls' hdecls
    have hcd := Members.complete_find? hgiven hfind
    obtain ⟨dt', hfind', hdt⟩ := hdecls.find? hfind
    rw [fieldInits, hfind']
    obtain ⟨hgu, hcv⟩ := hv.good hp.tail.left trivial hg
    have hcty := (Ty.combine?_complete hcd hcv hc).1 ▸ hcd
    have hK : ¬ K h.id.ir := hp.loose (List.mem_cons_self ..) _ (List.mem_singleton_self _)
    refine .skip (Follows.bind (ihv hp.tail.left trivial hg hf) ?_) rfl
    rintro _ u' ⟨vt', rfl, hvt⟩ hu
    obtain ⟨ty', hc', hty⟩ := hdt.combine? hcd hcv hvt hc
    refine .after (yields_fieldInit u' h _ hc') ?_
    refine (ihr hp.tail.right hgiven (hgu.record (.inl hcty)) (hu.record hty hK) struct decls'
      hdecls).finish ?_
    rintro _ v' rfl hv'
    exact ⟨_, v', yields_pure _ _, rfl, hv'⟩
  | effect e _ ih =>
    intro hp _ hg t' hf
    show Check.Follows _ _ _ _ _ _ _
    rw [stmt]
    exact Follows.discard (ih hp trivial hg hf)
  | @declare t u annotated h pattern ascribed ha =>
    intro hp _ hg t' hf
    show Check.Follows _ _ _ _ _ _ _
    rw [stmt]
    have hK := hp.loose (List.mem_cons_self ..)
    refine .skip ((ha.follows hp.tail hg hf).finish ?_) rfl
    intro annotated' u' hann hu
    have hty : (annotated.getD (.infer h.id.ir)).Fades (annotated'.getD (.infer h.id.ir)) := by
      cases hann with
      | none => exact .infer _
      | some hty => exact hty
    exact ⟨(), _, (yields_letType_none u' h.id.ir annotated').bind
      ((yields_record _ pattern.id.ir _).bind (yields_record _ h.id.ir _)), trivial,
      (hu.record hty (hK _ (.tail _ (.head _)))).record hty (hK _ (.head _))⟩
  | @bind t u v annotated vt ty h pattern ascribed init ha hi hb ih =>
    intro hp _ hg t' hf
    show Check.Follows _ _ _ _ _ _ _
    rw [stmt]
    have hK := hp.loose (List.mem_cons_self ..)
    obtain ⟨hgu, hca⟩ := good_of_annotates? ha hg hp.tail.left.paths
    have hci := (hi.good hp.tail.right trivial hgu).2
    refine .skip ((ha.follows hp.tail.left hg hf).bind ?_) rfl
    intro annotated' u' hann hu
    refine Follows.finish (ih hp.tail.right trivial hgu hu) ?_
    rintro _ v' ⟨vt', rfl, hvt⟩ hv
    obtain ⟨ty', hb', hty⟩ : ∃ ty', boundType? annotated' vt' = some ty' ∧ ty.Fades ty' := by
      cases hann with
      | none =>
        cases hb
        exact ⟨vt', rfl, hvt⟩
      | some hty => exact hty.combine? (hca _ rfl) hci hvt hb
    exact ⟨(), _, (yields_letType v' h.id.ir init.locus hb').bind
      ((yields_record _ pattern.id.ir _).bind (yields_record _ h.id.ir _)), trivial,
      (hv.record hty (hK _ (.tail _ (.head _)))).record hty (hK _ (.head _))⟩
  | stmtsNil t =>
    intro _ _ _ t' hf
    show Check.Follows _ _ _ _ _ _ _
    rw [stmts]
    exact .of_yields (yields_pure _ _) trivial hf
  | stmtsCons st rest hs _ ihs ihr =>
    intro hp _ hg t' hf
    show Check.Follows _ _ _ _ _ _ _
    rw [stmts]
    have hgu := (hs.good hp.left trivial hg).1
    exact Follows.bind (ihs hp.left trivial hg hf) fun _ _ _ hu => ihr hp.right trivial hgu hu

/-! ## Signatures -/

theorem HasParams.follows {t u : TypeTable} {ps : List Param} {ms : Members}
    (h : HasParams s t ps ms u) : Clear s b K x (ps.flatMap fun p => p.type.parts) →
    (∀ id ∈ ps.flatMap (fun p => [p.head.id.ir, p.pattern.id.ir]), ¬ K id) → Good b K t →
    (Good b K u ∧ ms.complete = true) ∧ ∀ {t' : TypeTable}, Faded K t t' →
      Follows K x (params (s.forgetType x) ps) ms.Fades t' (ps.flatMap fun p => p.type.parts) u := by
  induction h with
  | nil t => exact fun _ _ hg => ⟨⟨hg, rfl⟩, fun hf => .of_yields (yields_pure _ _) trivial hf⟩
  | @cons t u v p rest ty ms ha _ ih =>
    intro hp hK hg
    rw [List.flatMap_cons] at hp hK
    obtain ⟨hgu, hc⟩ := ha.good hg hp.left.paths
    have hK₁ : ¬ K p.head.id.ir := hK _ (.head _)
    have hK₂ : ¬ K p.pattern.id.ir := hK _ (.tail _ (.head _))
    obtain ⟨⟨hgv, hcs⟩, hfol⟩ := ih hp.right (fun id hid => hK id (List.mem_append_right _ hid))
      ((hgu.record (.inl hc)).record (.inl hc))
    refine ⟨⟨hgv, by rw [Members.complete, hc, hcs]; rfl⟩, ?_⟩
    intro t' hf
    rw [params, List.flatMap_cons]
    refine (ha.follows hp.left hg hf).bind ?_
    intro ty' u' hty hu
    refine .after (yields_record u' _ ty') (.after (yields_record _ _ ty') ?_)
    refine (hfol ((hu.record hty hK₁).record hty hK₂)).finish ?_
    intro ms' v' hms hv
    exact ⟨_, v', yields_pure _ _, ⟨rfl, hty, hms⟩, hv⟩

theorem HasFields.follows {t u : TypeTable} {fs : List FieldDecl} {ms : Members}
    (h : HasFields s t fs ms u) : Clear s b K x (fs.flatMap fun f => f.type.parts) →
    (∀ id ∈ fs.map (·.head.id.ir), ¬ K id) → Good b K t →
    (Good b K u ∧ ms.complete = true) ∧ ∀ {t' : TypeTable}, Faded K t t' →
      Follows K x (fieldDecls (s.forgetType x) fs) ms.Fades t' (fs.flatMap fun f => f.type.parts)
        u := by
  induction h with
  | nil t => exact fun _ _ hg => ⟨⟨hg, rfl⟩, fun hf => .of_yields (yields_pure _ _) trivial hf⟩
  | @cons t u v f rest ty ms ha _ ih =>
    intro hp hK hg
    rw [List.flatMap_cons] at hp
    obtain ⟨hgu, hc⟩ := ha.good hg hp.left.paths
    have hK₁ : ¬ K f.head.id.ir := hK _ (List.mem_cons_self ..)
    obtain ⟨⟨hgv, hcs⟩, hfol⟩ := ih hp.right (fun id hid => hK id (List.mem_cons_of_mem _ hid))
      (hgu.record (.inl hc))
    refine ⟨⟨hgv, by rw [Members.complete, hc, hcs]; rfl⟩, ?_⟩
    intro t' hf
    rw [fieldDecls, List.flatMap_cons]
    refine (ha.follows hp.left hg hf).bind ?_
    intro ty' u' hty hu
    refine .after (yields_record u' _ (.field f.head.id.ir f.name ty')) ?_
    refine (hfol (hu.record (.field hty) hK₁)).finish ?_
    intro ms' v' hms hv
    exact ⟨_, v', yields_pure _ _, ⟨rfl, hty, hms⟩, hv⟩

end Check

/-- The item is one that calls and type names refer to. -/
def Item.isSource (i : Item) : Bool :=
  match i.kind with
  | .function _ | .struct _ => true
  | .constant _ | .static _ => false

namespace Check

/-- What is said of an item whose nodes are apart from those that types are taken from, but that
the item itself may be one of them. -/
structure Apart (s : Scope) (b : TypeTable) (K : IrId → Prop) (x : SurfaceId) (i : Item) : Prop where
  clear : Clear s b K x i.parts
  declared : ∀ id ∈ i.firm.tail, ¬ K id
  head : i.isSource = false → ¬ K i.head.id.ir
  source : i.isSource = true → K i.head.id.ir

theorem HasSignature.follows {t u : TypeTable} {i : Item} {ty : Ty} (h : HasSignature s t i ty u)
    (hi : Apart s b K x i) (hg : Good b K t) :
    (Good b K u ∧ ty.complete = true) ∧ ∀ {t' : TypeTable}, Faded K t t' →
      Follows K x (signatureType (s.forgetType x) i)
        (fun ty' => ty.Fades ty' ∧ (i.isSource = true → ty'.isError = false)) t'
        i.signatureParts u := by
  have hp : Clear s b K x i.signatureParts := hi.clear.left
  cases h with
  | @function _ v ps result h d hps hr =>
    obtain ⟨⟨hgv, hcs⟩, hfol⟩ := hps.follows hp.left hi.declared hg
    obtain ⟨hgu, hc⟩ := good_of_annotates? hr hgv hp.right.paths
    have hcr : (result.getD (.unit h.id.ir)).complete = true := by
      cases result with
      | none => rfl
      | some r => exact hc r rfl
    refine ⟨⟨hgu, by rw [Ty.complete, hcs, hcr]; rfl⟩, ?_⟩
    intro t' hf
    have hpr := hp.right
    obtain ⟨name, params, returns, body⟩ := d
    refine (hfol hf).bind ?_
    intro ps' v' hms hv
    cases hr with
    | none =>
      dsimp only
      exact .after (yields_pure _ _) (.of_yields (yields_pure _ _)
        ⟨⟨rfl, hms, rfl⟩, fun _ => rfl⟩ hv)
    | some ha =>
      refine (ha.follows hpr hgv hv).finish ?_
      intro ty' u' hty hu
      exact ⟨_, u', yields_pure _ _, ⟨⟨rfl, hms, hty⟩, fun _ => rfl⟩, hu⟩
  | struct h d hf =>
    obtain ⟨⟨hgu, hcs⟩, hfol⟩ := hf.follows hp hi.declared hg
    refine ⟨⟨hgu, hcs⟩, ?_⟩
    intro t' hf
    refine (hfol hf).finish ?_
    intro ms' v' hms hv
    exact ⟨_, v', yields_pure _ _, ⟨⟨rfl, rfl, hms⟩, fun _ => rfl⟩, hv⟩
  | constant h d ha =>
    refine ⟨ha.good hg hp.paths, ?_⟩
    intro t' hf
    exact (ha.follows hp hg hf).mono fun _ hty => ⟨hty, fun hs => absurd hs Bool.false_ne_true⟩
  | static h d ha =>
    refine ⟨ha.good hg hp.paths, ?_⟩
    intro t' hf
    exact (ha.follows hp hg hf).mono fun _ hty => ⟨hty, fun hs => absurd hs Bool.false_ne_true⟩

theorem Signs.follows {t u : TypeTable} {i : Item} (h : Signs s t i u) (hi : Apart s b K x i)
    (hg : Good b K t) : Good b K u ∧ ∀ {t' : TypeTable}, Faded K t t' →
      Follows K x (signature (s.forgetType x) i) (fun _ => True) t' i.signatureParts u := by
  obtain ⟨ty, v, h, rfl⟩ := h
  obtain ⟨⟨hgv, hc⟩, hfol⟩ := h.follows hi hg
  refine ⟨hgv.record (.inl hc), ?_⟩
  intro t' hf
  refine (hfol hf).finish ?_
  rintro ty' v' ⟨hty, hwhole⟩ hv
  refine ⟨(), _, yields_record v' i.head.id.ir ty', trivial, hv.recordWhole hty ?_⟩
  intro hK
  cases hs : i.isSource with
  | true => exact hwhole hs
  | false => exact absurd hK (hi.head hs)

/-! ## Bodies -/

theorem initialValue_follows {t u : TypeTable} {i : Item} {value : Expr} {declared ty both : Ty}
    (hget : t.get? i.head.id.ir = some declared) (hv : Derives s t (.expr value false ty) u)
    (hc : declared.combine? ty = some both) (hp : Clear s b K x value.parts) (hg : Good b K t)
    {t' : TypeTable} (hf : Faded K t t') :
    Follows K x (initialValue (s.forgetType x) i value) (fun _ => True) t' value.parts u := by
  obtain ⟨declared', hget', hdecl⟩ := hf.entries hget
  refine .after (yields_typeOf? t' i.head.id.ir) ?_
  rw [hget']
  refine Follows.finish (hv.follows hp trivial hg hf) ?_
  rintro _ u' ⟨ty', rfl, hty⟩ hu
  obtain ⟨_, hc', _⟩ := hg.fades_combine? hget hdecl (hv.good hp trivial hg).2 hty hc
  exact ⟨(), u', yields_discard (yields_reconcile u' value.locus hc'), trivial, hu⟩

theorem Fits.follows {t u : TypeTable} {i : Item} (h : Fits s t i u) (hi : Apart s b K x i)
    (hg : Good b K t) : Good b K u ∧ ∀ {t' : TypeTable}, Faded K t t' →
      Follows K x (body (s.forgetType x) i) (fun _ => True) t' i.bodyParts u := by
  have hp : Clear s b K x i.bodyParts := hi.clear.right
  cases h with
  | @function v r ps result ty h d hget hb ht =>
    have hcf := hg.complete hget rfl
    rw [Ty.complete, Bool.and_eq_true] at hcf
    have hgp := hg.pushReturn hcf.2
    obtain ⟨hgu, hcb⟩ := hb.good hp trivial hgp
    refine ⟨hgu.popReturn, ?_⟩
    intro t' hf
    obtain ⟨ft', hget', hft⟩ := hf.entries hget
    obtain ⟨ps', result', rfl, _, hres⟩ := hft.of_fn (hf.whole (hi.source rfl) hget')
    refine .after (yields_typeOf? t' h.id.ir) ?_
    rw [hget']
    refine .after (yields_note t' _) ?_
    refine (Follows.inFunction (hb.follows hp trivial hgp (hf.pushReturn hres))).finish ?_
    rintro _ u' ⟨ty', rfl, hty⟩ hu
    refine ⟨(), u', yields_tail u' result' ty' d.body.tail? ?_, trivial, hu⟩
    intro tail htail
    obtain ⟨both, hboth⟩ := Option.isSome_iff_exists.1 (ht tail htail)
    obtain ⟨_, hc', _⟩ := hres.combine? hcf.2 hcb hty hboth
    rw [hc']
    rfl
  | struct h d => exact ⟨hg, fun hf => .of_yields (yields_pure _ _) trivial hf⟩
  | constant h d hget hv hc =>
    exact ⟨(hv.good hp trivial hg).1, initialValue_follows (i := ⟨h, .constant d⟩) hget hv hc hp hg⟩
  | static h d hget hv hc =>
    exact ⟨(hv.good hp trivial hg).1, initialValue_follows (i := ⟨h, .static d⟩) hget hv hc hp hg⟩

/-! ## Programs -/

theorem follows_forM {α : Type} {f : α → Check PUnit} {R : TypeTable → α → TypeTable → Prop}
    (parts : α → List Part) {l : List α} {t u : TypeTable} (h : Chain R t l u)
    (step : ∀ {t a u}, a ∈ l → R t a u → Good b K t → Good b K u ∧ ∀ {t' : TypeTable},
      Faded K t t' → Follows K x (f a) (fun _ => True) t' (parts a) u) :
    Good b K t → Good b K u ∧ ∀ {t' : TypeTable}, Faded K t t' →
      Follows K x (l.forM f) (fun _ => True) t' (l.flatMap parts) u := by
  induction h with
  | nil t => exact fun hg => ⟨hg, fun hf => .of_yields (yields_pure _ _) trivial hf⟩
  | @cons t v u a l ha _ ih =>
    intro hg
    obtain ⟨hgv, hfol⟩ := step (List.mem_cons_self ..) ha hg
    obtain ⟨hgu, hrest⟩ := ih (fun hm => step (List.mem_cons_of_mem _ hm)) hgv
    refine ⟨hgu, ?_⟩
    intro t' hf
    show Follows K x (f a >>= fun _ => l.forM f) _ _ _ _
    rw [List.flatMap_cons]
    exact (hfol hf).bind fun _ _ _ hv => hrest hv

theorem Passes.follows {p : Program} {t u : TypeTable} (h : Passes s p t u)
    (hp : ∀ i ∈ p.items, Apart s b K x i) (hg : Good b K t) {t' : TypeTable}
    (hf : Faded K t t') :
    Follows K x (program (s.forgetType x) p) (fun _ => True) t' p.parts u := by
  obtain ⟨v, hsigns, hfits⟩ := h
  obtain ⟨hgv, hsig⟩ := follows_forM (f := signature (s.forgetType x)) Item.signatureParts hsigns
    (fun hm hs hg => hs.follows (hp _ (mem_signatureOrder.1 hm)) hg) hg
  obtain ⟨_, hbody⟩ := follows_forM (f := body (s.forgetType x)) Item.bodyParts hfits
    (fun hm hs hg => hs.follows (hp _ hm) hg) hgv
  have hall : Follows K x (program (s.forgetType x) p) (fun _ => True) t'
      ((signatureOrder p.items).flatMap Item.signatureParts ++ p.items.flatMap Item.bodyParts) u :=
    .after (yields_note t' _) ((hsig hf).bind fun _ _ _ hv => hbody hv)
  have horder : (signatureOrder p.items).Perm p.items :=
    List.filter_append_perm Item.isStruct p.items
  exact hall.reorder (((horder.flatMap_right _).append_right _).trans
    (List.flatMap_append_perm p.items Item.signatureParts Item.bodyParts))

end Check

/-! ## Units -/

/-- Type names mean primitive types or struct items, and struct literals name struct items. -/
structure Session.TypesBound (s : Session) : Prop where
  structPaths : ∀ q ∈ s.program.parts.filterMap Part.structPath?,
    ∀ decl ∈ s.scope.bindings.type? q.id.surface,
      ∀ id ∈ s.scope.registry.node? ⟨q.id.crate, decl⟩, id ∈ s.program.structs
  /-- Only the primitive types are no nodes of the program. -/
  typePaths : ∀ h ∈ s.program.parts.filterMap Part.typePath?,
    ∀ id ∈ Check.pathTarget? s.scope s.types h, id ∈ s.program.structs ∨ id ∉ s.program.ids

instance (s : Session) : Decidable s.TypesBound :=
  decidable_of_iff (_ ∧ _) ⟨fun h => ⟨h.1, h.2⟩, fun h => ⟨h.structPaths, h.typePaths⟩⟩

namespace Program

variable {p : Program}

/-- The nodes that calls and type names take types from: function and struct items, and what is no
node of the program. -/
def IsSource (p : Program) (id : IrId) : Prop :=
  (∃ i ∈ p.items, i.isSource = true ∧ i.head.id.ir = id) ∨ id ∉ p.ids

theorem isSource_of_structs {id : IrId} (h : id ∈ p.structs) : p.IsSource id := by
  obtain ⟨i, hi, rfl⟩ := List.mem_map.1 h
  obtain ⟨hi, hs⟩ := List.mem_filter.1 hi
  refine .inl ⟨i, hi, ?_, rfl⟩
  obtain ⟨g, k⟩ := i
  cases k with
  | struct d => rfl
  | _ => cases hs

theorem Item.head_mem_ids (i : Item) : i.head.id.ir ∈ i.ids :=
  List.mem_cons_self ..

/-- Of the nodes of an item only its own may be a source. -/
theorem IsSource.eq_head (hn : p.ids.Nodup) {i : Item} (hi : i ∈ p.items) {id : IrId}
    (hid : id ∈ i.ids) (h : p.IsSource id) : i.isSource = true ∧ i.head.id.ir = id := by
  rw [Program.ids_eq] at hn
  rcases h with ⟨j, hj, hs, rfl⟩ | hout
  · by_cases hij : i = j
    · rw [hij]
      exact ⟨hs, rfl⟩
    · exact absurd (Item.head_mem_ids j) (not_mem_of_nodup_flatMap hn hi hj hij hid)
  · rw [Program.ids_eq] at hout
    exact absurd (List.mem_flatMap.2 ⟨i, hi, hid⟩) hout

/-- The only part of which anything is reported is the annotation. -/
theorem missingAll_parts (hn : p.ids.Nodup) (hs : p.surfaces.Nodup) {g : Head} {name : String}
    (hg : .ascription (.path g name) ∈ p.parts) :
    Part.missingAll g.id.surface p.parts = [⟨.error, .unresolvedType name, g.locus⟩] := by
  have hother : ∀ c ∈ p.parts, c ≠ .ascription (.path g name) → c.missing g.id.surface = [] := by
    intro c hc hne
    cases c with
    | ascription a =>
      cases a with
      | path h n =>
        refine if_neg fun heq => hne ?_
        exact part_eq_of_surface hn hs hc hg heq
      | _ => rfl
    | _ => rfl
  have hdup := parts_nodup hn
  obtain ⟨l, r, hlr⟩ := List.append_of_mem hg
  rw [hlr] at hother hdup ⊢
  have hsplit := List.nodup_append.1 hdup
  have hl : l.flatMap (Part.missing g.id.surface) = [] := List.flatMap_eq_nil_iff.2 fun c hc =>
    hother c (List.mem_append_left _ hc) (hsplit.2.2 c hc _ (List.mem_cons_self ..))
  have hr : r.flatMap (Part.missing g.id.surface) = [] := List.flatMap_eq_nil_iff.2 fun c hc =>
    hother c (List.mem_append_right _ (List.mem_cons_of_mem _ hc)) fun heq =>
      (List.nodup_cons.1 hsplit.2.1).1 (heq ▸ hc)
  have hself : Part.missing g.id.surface (.ascription (.path g name)) =
      [⟨.error, .unresolvedType name, g.locus⟩] := if_pos rfl
  rw [Part.missingAll, List.flatMap_append, List.flatMap_cons, hl, hr, hself]
  rfl

end Program

namespace Session

theorem TypesBound.apart {s : Session} (hb : s.TypesBound) (hn : s.program.ids.Nodup)
    {x : SurfaceId} (hx : ∀ q, .path q ∈ s.program.parts → q.id.surface ≠ x) {i : Item}
    (hi : i ∈ s.program.items) : Check.Apart s.scope s.types s.program.IsSource x i := by
  have hin : ∀ p ∈ i.parts, p ∈ s.program.parts := fun p hp => List.mem_flatMap.2 ⟨i, hi, hp⟩
  have hfirm : i.firm = i.head.id.ir :: i.firm.tail := by
    obtain ⟨h, k⟩ := i
    cases k <;> rfl
  have hids : i.ids.Nodup := by
    rw [Program.ids_eq] at hn
    exact (List.nodup_flatMap.1 hn).1 i hi
  have hnodup := List.nodup_append.1 (i.ids_perm.nodup_iff.1 hids)
  refine ⟨⟨?_, ?_, ?_, ?_⟩, ?_, ?_, ?_⟩
  · intro p hp id hid hsource
    have hmem : id ∈ Part.irsAll i.parts := List.mem_flatMap.2 ⟨p, hp, hid⟩
    obtain ⟨_, rfl⟩ := hsource.eq_head hn hi (i.ids_perm.mem_iff.2 (List.mem_append_right _ hmem))
    exact hnodup.2.2 _ i.head_mem_firm _ hmem rfl
  · intro h n id hm htarget
    have hsource := hb.typePaths h (List.mem_filterMap.2 ⟨_, hin _ hm, rfl⟩) id htarget
    exact hsource.elim Program.isSource_of_structs .inr
  · intro h path fs decl id hm hd hid
    have hsource := hb.structPaths path (List.mem_filterMap.2 ⟨_, hin _ hm, rfl⟩) decl hd id hid
    exact Program.isSource_of_structs hsource
  · exact fun hm => hx _ (hin _ hm)
  · intro id hid hsource
    have hmem : id ∈ i.firm := List.mem_of_mem_tail hid
    obtain ⟨_, rfl⟩ := hsource.eq_head hn hi (i.ids_perm.mem_iff.2 (List.mem_append_left _ hmem))
    rw [hfirm] at hnodup
    exact (List.nodup_cons.1 hnodup.1).1 hid
  · intro hfalse hsource
    have hmem := i.ids_perm.mem_iff.2 (List.mem_append_left _ i.head_mem_firm)
    rw [(hsource.eq_head hn hi hmem).1] at hfalse
    cases hfalse
  · exact fun hsource => .inl ⟨i, hi, hsource, rfl⟩

variable {u : CompilationUnit}

/-- After a binding was forgotten that no struct literal needs, exactly the annotations at that
node are reported. -/
theorem Clean.forgetType (hclean : (ofUnit u).Clean) (hn : u.program.ids.Nodup)
    (hb : (ofUnit u).TypesBound) {x : SurfaceId}
    (hx : ∀ q, .path q ∈ u.program.parts → q.id.surface ≠ x) :
    ((ofUnit u).forgetType x).check.1 = .ok () ∧
      ((ofUnit u).forgetType x).check.2.diagnostics.Perm (Part.missingAll x u.program.parts) := by
  have hknown := known u
  have hfaded : Check.Faded u.program.IsSource (ofUnit u).types (ofUnit u).types := by
    refine ⟨rfl, rfl, ?_, ?_, ?_⟩
    · rw [hknown.returns]
      exact .nil
    · exact fun hget => ⟨_, hget, .refl (hknown.entries hget)⟩
    · exact fun _ hget => Ty.isError_eq_false (hknown.entries hget)
  obtain ⟨_, ds, _, hrun, _, hds, _⟩ := (hclean.passes rfl).follows
    (fun i hi => hb.apart hn hx hi) (hknown.good _) hfaded
  obtain ⟨q, hq, hdiag, _⟩ := hrun (ofUnit u).progress rfl
  have hcheck : ((ofUnit u).forgetType x).check =
      (.ok (), { (ofUnit u).forgetType x with progress := q }) := by
    rw [check_eq]
    exact congrArg (fun r => (r.1, { (ofUnit u).forgetType x with progress := r.2 })) hq
  rw [hcheck]
  exact ⟨rfl, (List.Perm.of_eq hdiag).trans hds⟩

/-- An annotation that names nothing is reported once, and nothing else is. -/
theorem check_forgetType (u : CompilationUnit) (hn : u.program.ids.Nodup)
    (hs : u.program.surfaces.Nodup) (hb : (ofUnit u).TypesBound) (hclean : (ofUnit u).Clean)
    {g : Head} {name : String} (hg : .ascription (.path g name) ∈ u.program.parts) :
    ((ofUnit u).forgetType g.id.surface).check.1 = .ok () ∧
      ((ofUnit u).forgetType g.id.surface).check.2.diagnostics =
        [⟨.error, .unresolvedType name, g.locus⟩] := by
  have hx : ∀ q, .path q ∈ u.program.parts → q.id.surface ≠ g.id.surface := by
    intro q hq heq
    cases Program.part_eq_of_surface hn hs hq hg heq
  obtain ⟨hok, hperm⟩ := hclean.forgetType hn hb hx
  rw [Program.missingAll_parts hn hs hg] at hperm
  exact ⟨hok, List.perm_singleton.1 hperm⟩

open Samples in
theorem check_forgetType_capturing : capturing.program.ids.Nodup ∧
    capturing.program.surfaces.Nodup ∧ (ofUnit capturing).TypesBound ∧ (ofUnit capturing).Clean ∧
    ((ofUnit capturing).forgetType (head 2).id.surface).check.1 = .ok () ∧
    ((ofUnit capturing).forgetType (head 2).id.surface).check.2.diagnostics =
      [⟨.error, .unresolvedType "i32", (head 2).locus⟩] := by
  have hn : capturing.program.ids.Nodup := by decide +kernel
  have hs : capturing.program.surfaces.Nodup := by decide +kernel
  have hb : (ofUnit capturing).TypesBound := by decide +kernel
  have hclean : (ofUnit capturing).Clean := by decide +kernel
  have hg : Part.ascription (.path (head 2) "i32") ∈ capturing.program.parts := .head _
  exact ⟨hn, hs, hb, hclean, check_forgetType capturing hn hs hb hclean hg⟩

open Samples in
/-- The callee of a call is looked up and not checked: an annotation in it that names nothing is
not reported. -/
theorem unreported_calleeBlock : calleeBlock.program.ids.Nodup ∧
    calleeBlock.program.surfaces.Nodup ∧ (ofUnit calleeBlock).TypesBound ∧
    (ofUnit calleeBlock).Clean ∧ (⟨7⟩, "i32") ∈ calleeBlock.program.typePaths ∧
    (∃ id ∉ calleeBlock.program.ids,
      Check.pathTarget? (ofUnit calleeBlock).scope (ofUnit calleeBlock).types (head 7) = some id) ∧
    ((ofUnit calleeBlock).forgetType ⟨7⟩).check.1 = .ok () ∧
    ((ofUnit calleeBlock).forgetType ⟨7⟩).check.2.diagnostics = [] := by
  have hn : calleeBlock.program.ids.Nodup := by decide +kernel
  have hb : (ofUnit calleeBlock).TypesBound := by decide +kernel
  have hclean : (ofUnit calleeBlock).Clean := by decide +kernel
  have htarget : (Check.pathTarget? (ofUnit calleeBlock).scope (ofUnit calleeBlock).types
      (head 7)).any (· ∉ calleeBlock.program.ids) = true := by
    decide +kernel
  obtain ⟨id, hid, hout⟩ := (Option.any_eq_true _ _).1 htarget
  have hx : ∀ q, .path q ∈ calleeBlock.program.parts → q.id.surface ≠ ⟨7⟩ := by
    intro q hq
    rcases hq with _ | ⟨_, _ | ⟨_, _ | ⟨_, h⟩⟩⟩
    cases h
  obtain ⟨hok, hperm⟩ := hclean.forgetType hn hb hx
  exact ⟨hn, by decide +kernel, hb, hclean, by decide +kernel, ⟨id, of_decide_eq_true hout, hid⟩,
    hok, List.perm_nil.1 hperm⟩

end Session

end MiddleEnd
