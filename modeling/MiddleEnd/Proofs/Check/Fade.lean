/-
  Runs of the checker that follow others from tables of which parts were lost.

  `Reports m t a ds u` says what a run comes to together with the diagnostics it adds. `Faded K t t'`
  relates two tables: the types in `t'` are faded, except that types of nodes in `K` were never lost
  as a whole. `Follows` puts both together: a run reports no more than that the type name at node `x`
  is not bound, and leaves faded tables again; runs after each other report after each other
  (`Follows.bind`).
-/
import MiddleEnd.Proofs.Check.Evolution
import MiddleEnd.Proofs.Check.Pass
import MiddleEnd.Proofs.Ty.Fade

namespace MiddleEnd.Check

variable {α β : Type} {s : Scope} {K : IrId → Prop} {x : SurfaceId}

/-! ## Runs with reports -/

/-- From tables `t` the run ends in `a` and `u`, and reports `ds`. -/
def Reports (m : Check α) (t : TypeTable) (a : α) (ds : List Diagnostic) (u : TypeTable) : Prop :=
  ∀ p : Progress, p.types = t →
    ∃ q, m.run.run p = (.ok a, q) ∧ q.diagnostics = p.diagnostics ++ ds ∧ q.types = u

theorem Yields.reports {m : Check α} {t u : TypeTable} {a : α} (h : Yields m t a u) :
    Reports m t a [] u := by
  intro p hp
  obtain ⟨q, hr, hd, hu⟩ := h p hp
  exact ⟨q, hr, by rw [hd, List.append_nil], hu⟩

theorem Reports.bind {m : Check α} {f : α → Check β} {t v u : TypeTable} {a : α} {b : β}
    {ds es : List Diagnostic} (hm : Reports m t a ds v) (hf : Reports (f a) v b es u) :
    Reports (m >>= f) t b (ds ++ es) u := by
  intro p hp
  obtain ⟨r, hr, hrd, hrt⟩ := hm p hp
  obtain ⟨q, hq, hqd, hqt⟩ := hf r hrt
  exact ⟨q, by rw [run_bind, hr]; exact hq, by rw [hqd, hrd, List.append_assoc], hqt⟩

theorem reports_get {f : Progress → Check α} {t u : TypeTable} {a : α} {ds : List Diagnostic}
    (h : ∀ p : Progress, p.types = t → Reports (f p) t a ds u) : Reports (get >>= f) t a ds u :=
  fun p hp => h p hp p hp

theorem reports_report (t : TypeTable) (l : Location) (p : Problem) :
    Reports (report l p) t () [⟨.error, p, l⟩] t :=
  fun q hq => ⟨q.report ⟨.error, p, l⟩, rfl, rfl, hq⟩

theorem reports_inFunction (r : Ty) {m : Check α} {t u : TypeTable} {a : α}
    {ds : List Diagnostic} (h : Reports m (t.pushReturn r) a ds u) :
    Reports (inFunction r m) t a ds u.popReturn.2 := by
  intro p hp
  obtain ⟨q, hr, hd, hu⟩ := h { p with types := p.types.pushReturn r } (by rw [hp])
  exact ⟨{ q with types := q.types.popReturn.2 }, by rw [run_inFunction, hr], hd, by rw [hu]⟩

/-! ## Faded tables -/

structure Faded (K : IrId → Prop) (t t' : TypeTable) : Prop where
  builtins : t'.builtins = t.builtins
  builtinIds : t'.builtinIds = t.builtinIds
  returns : List.Forall₂ Ty.Fades t.returns t'.returns
  entries : ∀ {id ty}, t.get? id = some ty → ∃ ty', t'.get? id = some ty' ∧ ty.Fades ty'
  whole : ∀ {id ty}, K id → t'.get? id = some ty → ty.isError = false

namespace Faded

variable {t t' : TypeTable}

theorem builtin? (h : Faded K t t') (name : String) : t'.builtin? name = t.builtin? name := by
  unfold TypeTable.builtin?
  rw [h.builtins]

theorem return? (h : Faded K t t') {ty : Ty} (hr : t.return? = some ty) :
    ∃ ty', t'.return? = some ty' ∧ ty.Fades ty' := by
  have hret := h.returns
  unfold TypeTable.return? at hr ⊢
  generalize t.returns = l at hr hret
  generalize t'.returns = l' at hret
  cases hret with
  | nil => cases hr
  | cons hty _ =>
    cases hr
    exact ⟨_, rfl, hty⟩

/-- A faded type is recorded; at a node of `K` it must not be lost as a whole. -/
theorem recordWhole (h : Faded K t t') {id : IrId} {ty ty' : Ty} (hty : ty.Fades ty')
    (hK : K id → ty'.isError = false) : Faded K (t.record id ty) (t'.record id ty') where
  builtins := h.builtins
  builtinIds := h.builtinIds
  returns := h.returns
  entries := by
    intro other found hg
    rw [TypeTable.get?_record] at hg ⊢
    split at hg
    · cases hg
      rename_i he
      rw [if_pos he]
      exact ⟨ty', rfl, hty⟩
    · rename_i hne
      rw [if_neg hne]
      exact h.entries hg
  whole := by
    intro other found ho hg
    rw [TypeTable.get?_record] at hg
    split at hg
    · cases hg
      rename_i he
      exact hK (he ▸ ho)
    · exact h.whole ho hg

theorem record (h : Faded K t t') {id : IrId} {ty ty' : Ty} (hty : ty.Fades ty') (hK : ¬ K id) :
    Faded K (t.record id ty) (t'.record id ty') :=
  h.recordWhole hty fun hid => absurd hid hK

theorem pushReturn (h : Faded K t t') {ty ty' : Ty} (hty : ty.Fades ty') :
    Faded K (t.pushReturn ty) (t'.pushReturn ty') where
  builtins := h.builtins
  builtinIds := h.builtinIds
  returns := .cons hty h.returns
  entries := h.entries
  whole := h.whole

theorem popReturn (h : Faded K t t') : Faded K t.popReturn.2 t'.popReturn.2 where
  builtins := h.builtins
  builtinIds := h.builtinIds
  returns := by
    show List.Forall₂ Ty.Fades t.returns.tail t'.returns.tail
    have hret := h.returns
    generalize t.returns = l at hret ⊢
    generalize t'.returns = l' at hret ⊢
    cases hret with
    | nil => exact .nil
    | cons _ hr => exact hr
  entries := h.entries
  whole := h.whole

theorem settled (h : Faded K t t') (target : Expr) {before before' after after' : Ty}
    (hb : before.Fades before') (ha : after.Fades after')
    (hK : before.isInfer = true → ∀ id, declaration s target = .ok id → ¬ K id) :
    Faded K (settled s t target before after) (settled s t' target before' after') := by
  unfold Check.settled
  rw [hb.isInfer_eq]
  split
  · rename_i hi
    cases hd : declaration s target with
    | ok id => exact h.record ha (hK hi id hd)
    | error p => exact h
  · exact h

end Faded

/-! ## Reports of a type name that is not bound -/

end MiddleEnd.Check

namespace MiddleEnd.Part

/-- What a check reports of a part if the type name at node `x` is not bound. -/
def missing (x : SurfaceId) : Part → List Diagnostic
  | .ascription (.path h name) =>
    if h.id.surface = x then [⟨.error, .unresolvedType name, h.locus⟩] else []
  | _ => []

def missingAll (x : SurfaceId) (ps : List Part) : List Diagnostic := ps.flatMap (missing x)

end MiddleEnd.Part

namespace MiddleEnd.Check

variable {α β : Type} {s : Scope} {K : IrId → Prop} {x : SurfaceId}

/-- From tables `t'` the run gives a result as `P` says, reports what is missing in the parts, and
leaves tables that `u` fades to. -/
def Follows (K : IrId → Prop) (x : SurfaceId) (m : Check α) (P : α → Prop) (t' : TypeTable)
    (ps : List Part) (u : TypeTable) : Prop :=
  ∃ a ds u', Reports m t' a ds u' ∧ P a ∧ ds.Perm (Part.missingAll x ps) ∧ Faded K u u'

/-- A type was found, and it is what the type fades to. -/
def FadedFrom (ty : Ty) (r : Option Ty) : Prop := ∃ ty', r = some ty' ∧ ty.Fades ty'

namespace Follows

variable {m : Check α} {f : α → Check β} {P : α → Prop} {Q : β → Prop} {t' u v : TypeTable}
  {ps qs : List Part}

theorem of_yields {a : α} {u' : TypeTable} (h : Yields m t' a u') (ha : P a)
    (hf : Faded K u u') : Follows K x m P t' [] u :=
  ⟨a, [], u', h.reports, ha, .nil, hf⟩

theorem bind (hm : Follows K x m P t' ps v)
    (hf : ∀ a v', P a → Faded K v v' → Follows K x (f a) Q v' qs u) :
    Follows K x (m >>= f) Q t' (ps ++ qs) u := by
  obtain ⟨a, ds, v', hr, ha, hds, hv⟩ := hm
  obtain ⟨b, es, u', hr', hb, hes, hu⟩ := hf a v' ha hv
  refine ⟨b, ds ++ es, u', hr.bind hr', hb, ?_, hu⟩
  unfold Part.missingAll
  rw [List.flatMap_append]
  exact hds.append hes

theorem mono {P' : α → Prop} (h : Follows K x m P t' ps u) (hP : ∀ a, P a → P' a) :
    Follows K x m P' t' ps u := by
  obtain ⟨a, ds, u', hr, ha, hds, hu⟩ := h
  exact ⟨a, ds, u', hr, hP a ha, hds, hu⟩

theorem reorder (h : Follows K x m P t' ps u) (hp : ps.Perm qs) : Follows K x m P t' qs u := by
  obtain ⟨a, ds, u', hr, ha, hds, hu⟩ := h
  exact ⟨a, ds, u', hr, ha, hds.trans (hp.flatMap_right _), hu⟩

/-- A part of which nothing is reported. -/
theorem skip (h : Follows K x m P t' ps u) {p : Part} (hp : p.missing x = []) :
    Follows K x m P t' (p :: ps) u := by
  obtain ⟨a, ds, u', hr, ha, hds, hu⟩ := h
  refine ⟨a, ds, u', hr, ha, ?_, hu⟩
  unfold Part.missingAll
  rw [List.flatMap_cons, hp]
  exact hds

/-- A first step that reports nothing. -/
theorem after {a : α} {v' : TypeTable} (hm : Yields m t' a v') (hf : Follows K x (f a) Q v' ps u) :
    Follows K x (m >>= f) Q t' ps u := by
  obtain ⟨b, ds, u', hr, hb, hds, hu⟩ := hf
  exact ⟨b, ds, u', hm.reports.bind hr, hb, hds, hu⟩

/-- A last step that reports nothing. -/
theorem finish (hm : Follows K x m P t' ps v)
    (hf : ∀ a v', P a → Faded K v v' → ∃ b u', Yields (f a) v' b u' ∧ Q b ∧ Faded K u u') :
    Follows K x (m >>= f) Q t' ps u := by
  have h : Follows K x (m >>= f) Q t' (ps ++ []) u := hm.bind fun a v' ha hv => by
    obtain ⟨b, u', hy, hb, hu⟩ := hf a v' ha hv
    exact .of_yields hy hb hu
  rwa [List.append_nil] at h

theorem inFunction {result : Ty} (h : Follows K x m P (t'.pushReturn result) ps u) :
    Follows K x (inFunction result m) P t' ps u.popReturn.2 := by
  obtain ⟨a, ds, u', hr, ha, hds, hu⟩ := h
  exact ⟨a, ds, u'.popReturn.2, reports_inFunction result hr, ha, hds, hu.popReturn⟩

theorem discard (h : Follows K x m P t' ps u) :
    Follows K x (discard m) (fun _ => True) t' ps u :=
  h.finish fun _ v' _ hv => ⟨PUnit.unit, v', yields_pure _ _, trivial, hv⟩

theorem recording {m : Check (Option Ty)} {ty : Ty} (h : Follows K x m (FadedFrom ty) t' ps u)
    {id : IrId} (hK : ¬ K id) :
    Follows K x (recording id m) (FadedFrom ty) t' ps (u.record id ty) := by
  refine h.finish ?_
  rintro _ v' ⟨ty', rfl, hty⟩ hv
  exact ⟨some ty', v'.record id ty', (yields_record v' id ty').bind (yields_pure _ _),
    ⟨ty', rfl, hty⟩, hv.record hty hK⟩

end Follows

end MiddleEnd.Check
