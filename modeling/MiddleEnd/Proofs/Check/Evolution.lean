/-
  How tables evolve while a body is checked. Nodes fall into those that belong to a variable
  (`V`), whose type may still be unsettled, those that are firm (`F`: items, parameters and
  primitive types), whose types are complete from the start, and all others.

  Every table in the course of a check is good: a recorded type is complete, or it is the unsettled
  type of a node that is not firm (`Good`). A derivation changes no entry outside the nodes it is
  about, but that an assignment may settle the type of a variable that had none (`Derives.evolve`).
-/
import MiddleEnd.Proofs.Check.Frame
import MiddleEnd.Proofs.Syntax.Parts
import MiddleEnd.Proofs.Ty.Alike

namespace MiddleEnd

namespace Check

/-- The parts a judgement is about. -/
def Judgement.parts : Judgement → List Part
  | .expr e _ _ => e.parts
  | .exprs es _ => Expr.partsAll es
  | .arguments _ es => Expr.partsAll es
  | .fields _ fs => FieldInit.partsAll fs
  | .stmt st => st.parts
  | .stmts sts => Stmt.partsAll sts

/-- The types that a judgement finds are complete. -/
def Judgement.Complete : Judgement → Prop
  | .expr _ _ ty => ty.complete = true
  | .exprs _ tys => ∀ ty ∈ tys, ty.complete = true
  | _ => True

/-- The types that a judgement is given are complete. -/
def Judgement.Given : Judgement → Prop
  | .arguments params _ => params.complete = true
  | .fields decls _ => decls.complete = true
  | _ => True

variable {s : Scope} {b : TypeTable} {V F : IrId → Prop}

/-! ## Good tables -/

/-- A type that may be recorded for a node: only nodes that are not firm may be unsettled. -/
def Allowed (F : IrId → Prop) (id : IrId) (ty : Ty) : Prop :=
  ty.complete = true ∨ (∃ r, ty = .infer r) ∧ ¬ F id

/-- A table in the course of a check that started from table `b`. -/
structure Good (b : TypeTable) (F : IrId → Prop) (t : TypeTable) : Prop where
  builtinIds : t.builtinIds = b.builtinIds
  builtins : ∀ {name ty}, t.builtin? name = some ty → ty.complete = true
  stack : ∀ ty ∈ t.returns, ty.complete = true
  entries : ∀ {id ty}, t.get? id = some ty → Allowed F id ty

theorem Good.record {t : TypeTable} (h : Good b F t) {id : IrId} {ty : Ty}
    (hty : Allowed F id ty) : Good b F (t.record id ty) where
  builtinIds := h.builtinIds
  builtins := h.builtins
  stack := h.stack
  entries := by
    intro other ty' hg
    rw [TypeTable.get?_record] at hg
    split at hg
    · rename_i he
      cases hg
      rw [he]
      exact hty
    · exact h.entries hg

theorem Good.returns {t : TypeTable} (h : Good b F t) {ty : Ty} (hr : t.return? = some ty) :
    ty.complete = true :=
  h.stack ty (List.mem_of_head? hr)

theorem Good.pushReturn {t : TypeTable} (h : Good b F t) {ty : Ty} (hty : ty.complete = true) :
    Good b F (t.pushReturn ty) where
  builtinIds := h.builtinIds
  builtins := h.builtins
  stack ty' hm := by
    rcases List.mem_cons.1 hm with rfl | hm
    · exact hty
    · exact h.stack ty' hm
  entries := h.entries

theorem Good.popReturn {t : TypeTable} (h : Good b F t) : Good b F t.popReturn.2 where
  builtinIds := h.builtinIds
  builtins := h.builtins
  stack ty hm := h.stack ty (List.mem_of_mem_tail hm)
  entries := h.entries

theorem Good.firm {t : TypeTable} (h : Good b F t) {id : IrId} {ty : Ty}
    (hg : t.get? id = some ty) (hF : F id) : ty.complete = true := by
  rcases h.entries hg with hc | ⟨_, hn⟩
  · exact hc
  · exact absurd hF hn

theorem Good.settled {t : TypeTable} (h : Good b F t) (target : Expr) (before : Ty) {after : Ty}
    (ha : after.complete = true) : Good b F (settled s t target before after) := by
  unfold Check.settled
  split
  · cases declaration s target with
    | ok id => exact h.record (.inl ha)
    | error p => exact h
  · exact h

theorem settled_of_complete {t : TypeTable} (target : Expr) {before : Ty} (after : Ty)
    (hb : before.complete = true) : settled s t target before after = t := by
  unfold Check.settled
  rw [Ty.isInfer_eq_false hb, if_neg Bool.false_ne_true]

theorem get?_settled_self {t : TypeTable} {target : Expr} {id r : IrId} {after : Ty}
    (hd : declaration s target = .ok id) :
    (settled s t target (.infer r) after).get? id = some after := by
  unfold Check.settled
  rw [hd]
  exact get?_record_self

theorem get?_settled_of_ne {t : TypeTable} {target : Expr} {id other : IrId} (before after : Ty)
    (hd : declaration s target = .ok id) (hne : id ≠ other) :
    (settled s t target before after).get? other = t.get? other := by
  unfold Check.settled
  rw [hd]
  split
  · exact get?_record_of_ne hne
  · rfl

theorem pathTarget?_congr {t u : TypeTable} (h : u.builtinIds = t.builtinIds) (g : Head) :
    pathTarget? s u g = pathTarget? s t g := by
  unfold pathTarget? TypeTable.builtinId?
  rw [h]

theorem Annotates.good {t u : TypeTable} {a : TypeExpr} {ty : Ty} (h : Annotates s t a ty u)
    (hg : Good b F t) (hp : ∀ {g name id}, .ascription (.path g name) ∈ a.parts →
      pathTarget? s b g = some id → F id) : Good b F u ∧ ty.complete = true := by
  induction h with
  | unit h => exact ⟨hg.record (.inl rfl), rfl⟩
  | array h capacity _ ih =>
    obtain ⟨hu, hc⟩ := ih fun hm => hp (List.mem_cons_of_mem _ hm)
    exact ⟨hu.record (.inl hc), hc⟩
  | path h name hpath =>
    obtain ⟨id, hid, hty⟩ := Option.bind_eq_some_iff.1 hpath
    rw [pathTarget?_congr hg.builtinIds] at hid
    have hc := hg.firm hty (hp (List.mem_singleton_self _) hid)
    exact ⟨hg.record (.inl hc), hc⟩

/-! ## Evolution -/

/-- An assignment among the parts has given the variable its type in table `u`. -/
def SettledBy (s : Scope) (parts : List Part) (u : TypeTable) (id : IrId) : Prop :=
  ∃ h g x v ty, .expr (.assign h (.identifier g x) v) ∈ parts ∧
    declaration s (.identifier g x) = .ok id ∧ ty.complete = true ∧ u.get? id = some ty ∧
    u.get? h.id.ir = some ty

/-- Entries of other nodes stay as they are, but for variables that get settled. The parts have
their identities among those nodes. -/
structure Evolves (s : Scope) (V : IrId → Prop) (ids : List IrId) (parts : List Part)
    (t u : TypeTable) : Prop where
  within : ∀ e, .expr e ∈ parts → e.ir ∈ ids ∧ ¬ V e.ir
  step : ∀ id, id ∉ ids → u.get? id = t.get? id ∨
    V id ∧ (∃ r, t.get? id = some (.infer r)) ∧ SettledBy s parts u id

namespace Evolves

variable {ids ids' : List IrId} {parts parts' : List Part} {t u v : TypeTable}

theorem refl (t : TypeTable) : Evolves s V [] [] t t where
  within _ he := absurd he List.not_mem_nil
  step _ _ := .inl rfl

theorem of_same {P : IrId → Prop} (h : SameBut P t u) (hP : ∀ id, P id → id ∈ ids) :
    Evolves s V ids [] t u where
  within _ he := absurd he List.not_mem_nil
  step id hid := .inl (h id fun hm => hid (hP id hm))

theorem record (t : TypeTable) (id : IrId) (ty : Ty) : Evolves s V [id] [] t (t.record id ty) :=
  of_same ((SameBut.refl t).record (P := (· = id)) rfl ty) fun _ h => List.mem_singleton.2 h

theorem congr (h : Evolves s V ids parts t u) {u' : TypeTable} (hu : ∀ id, u'.get? id = u.get? id) :
    Evolves s V ids parts t u' where
  within := h.within
  step id hid := by
    rw [hu]
    rcases h.step id hid with hs | ⟨hV, hi, a, g, x, v, ty, hm, hd, hc, hg, ha⟩
    · exact .inl hs
    · exact .inr ⟨hV, hi, a, g, x, v, ty, hm, hd, hc, (hu _).trans hg, (hu _).trans ha⟩

/-- A part that is no expression settles nothing. -/
theorem other (h : Evolves s V ids parts t u) (p : Part) (hp : ∀ e, p ≠ .expr e) :
    Evolves s V ids (p :: parts) t u where
  within e he := by
    rcases List.mem_cons.1 he with he | he
    · exact absurd he.symm (hp e)
    · exact h.within e he
  step id hid := by
    rcases h.step id hid with hs | ⟨hV, hi, a, g, x, v, ty, hm, hrest⟩
    · exact .inl hs
    · exact .inr ⟨hV, hi, a, g, x, v, ty, List.mem_cons_of_mem _ hm, hrest⟩

/-- Parts that are no expressions settle nothing. -/
theorem quiet (h : Evolves s V ids [] t u) (hparts : ∀ e, .expr e ∉ parts) :
    Evolves s V ids parts t u where
  within e he := absurd he (hparts e)
  step id hid := by
    rcases h.step id hid with hs | ⟨_, _, _, _, _, _, _, hm, _⟩
    · exact .inl hs
    · exact absurd hm List.not_mem_nil

theorem rearrange (h : Evolves s V ids parts t u) (hids : ∀ id ∈ ids, id ∈ ids')
    (hparts : ∀ p, p ∈ parts' ↔ p ∈ parts) : Evolves s V ids' parts' t u where
  within e he :=
    have hin := h.within e ((hparts _).1 he)
    ⟨hids _ hin.1, hin.2⟩
  step id hid := by
    rcases h.step id fun hm => hid (hids id hm) with hs | ⟨hV, hi, a, g, x, v, ty, hm, hrest⟩
    · exact .inl hs
    · exact .inr ⟨hV, hi, a, g, x, v, ty, (hparts _).2 hm, hrest⟩

theorem widen (h : Evolves s V ids parts t u) (hids : ∀ id ∈ ids, id ∈ ids') :
    Evolves s V ids' parts t u :=
  h.rearrange hids fun _ => Iff.rfl

theorem get?_eq_of_not_variable (h : Evolves s V ids parts t u) {id : IrId} (hid : id ∉ ids)
    (hv : ¬ V id) : u.get? id = t.get? id := by
  rcases h.step id hid with he | ⟨hV, _⟩
  · exact he
  · exact absurd hV hv

/-- A complete entry stays as it is. -/
theorem keeps (h : Evolves s V ids parts t u) {id : IrId} (hid : id ∉ ids) {ty : Ty}
    (hg : t.get? id = some ty) (hc : ty.complete = true) : u.get? id = some ty := by
  rcases h.step id hid with he | ⟨_, ⟨r, hi⟩, _⟩
  · rw [he, hg]
  · rw [hg] at hi
    cases hi
    cases hc

/-- Where there is no entry, there is none later. -/
theorem get?_eq_none (h : Evolves s V ids parts t u) {id : IrId} (hid : id ∉ ids)
    (hg : t.get? id = none) : u.get? id = none := by
  rcases h.step id hid with he | ⟨_, ⟨r, hi⟩, _⟩
  · rw [he, hg]
  · rw [hg] at hi
    cases hi

/-- Two steps after each other. What the first one settled stays settled, since the assignment that
did it is none of the nodes of the second. -/
theorem trans (h : Evolves s V ids parts t u) (k : Evolves s V ids' parts' u v)
    (hd : ∀ id ∈ ids, id ∉ ids') : Evolves s V (ids ++ ids') (parts ++ parts') t v where
  within e he := by
    rcases List.mem_append.1 he with he | he
    · exact ⟨List.mem_append_left _ (h.within e he).1, (h.within e he).2⟩
    · exact ⟨List.mem_append_right _ (k.within e he).1, (k.within e he).2⟩
  step id hid := by
    rw [List.mem_append, not_or] at hid
    rcases h.step id hid.1 with he | ⟨hv, hi, a, g, x, e, ty, hm, hdecl, hc, hu, ha⟩
    · rcases k.step id hid.2 with hk | ⟨hv, hi, a, g, x, e, ty, hm, hrest⟩
      · exact .inl (hk.trans he)
      · rw [he] at hi
        exact .inr ⟨hv, hi, a, g, x, e, ty, List.mem_append_right _ hm, hrest⟩
    · have ⟨hin, hnv⟩ := h.within _ hm
      exact .inr ⟨hv, hi, a, g, x, e, ty, List.mem_append_left _ hm, hdecl, hc,
        k.keeps hid.2 hu hc, (k.get?_eq_of_not_variable (hd _ hin) hnv).trans ha⟩

/-- Recording the type of an expression, after what happens at its parts. -/
theorem node (h : Evolves s V ids parts t u) (e : Expr) (hid : e.ir ∉ ids) (hv : ¬ V e.ir)
    (ty : Ty) : Evolves s V (e.ir :: ids) (.expr e :: parts) t (u.record e.ir ty) where
  within e' he := by
    rcases List.mem_cons.1 he with he | he
    · cases he
      exact ⟨List.mem_cons_self .., hv⟩
    · exact ⟨List.mem_cons_of_mem _ (h.within e' he).1, (h.within e' he).2⟩
  step id hid' := by
    rw [List.mem_cons, not_or] at hid'
    rw [get?_record_of_ne (Ne.symm hid'.1)]
    rcases h.step id hid'.2 with hs | ⟨hV, hi, a, g, x, v, ty', hm, hdecl, hc, hu, ha⟩
    · exact .inl hs
    · have hne : e.ir ≠ a.id.ir := fun he => hid (he ▸ (h.within _ hm).1)
      exact .inr ⟨hV, hi, a, g, x, v, ty', List.mem_cons_of_mem _ hm, hdecl, hc,
        (get?_record_of_ne (Ne.symm hid'.1)).trans hu, (get?_record_of_ne hne).trans ha⟩

/-- Recording the type of a node once more that is no assignment. -/
theorem again (h : Evolves s V ids parts t u) {id : IrId} (hid : id ∈ ids)
    (hn : ∀ a target v, .expr (.assign a target v) ∈ parts → a.id.ir ≠ id) (ty : Ty) :
    Evolves s V ids parts t (u.record id ty) where
  within := h.within
  step other ho := by
    have hne : id ≠ other := fun he => ho (he ▸ hid)
    rw [get?_record_of_ne hne]
    rcases h.step other ho with hs | ⟨hV, hi, a, g, x, v, ty', hm, hd, hc, hg, ha⟩
    · exact .inl hs
    · exact .inr ⟨hV, hi, a, g, x, v, ty', hm, hd, hc, (get?_record_of_ne hne).trans hg,
        (get?_record_of_ne (Ne.symm (hn a _ v hm))).trans ha⟩

/-- An assignment that settles the type of a variable. -/
theorem settle (h : Evolves s V ids parts t u) {a g : Head} {x : String} {value : Expr}
    {id r : IrId} {ty : Ty} (hd : declaration s (.identifier g x) = .ok id) (hV : V id)
    (hget : t.get? id = some (.infer r)) (hc : ty.complete = true) (ha : a.id.ir ∉ ids)
    (hav : ¬ V a.id.ir) :
    Evolves s V (a.id.ir :: ids) (.expr (.assign a (.identifier g x) value) :: parts) t
      ((settled s u (.identifier g x) (.infer r) ty).record a.id.ir ty) where
  within e he := by
    rcases List.mem_cons.1 he with he | he
    · cases he
      exact ⟨List.mem_cons_self .., hav⟩
    · exact ⟨List.mem_cons_of_mem _ (h.within e he).1, (h.within e he).2⟩
  step other ho := by
    rw [List.mem_cons, not_or] at ho
    by_cases he : other = id
    · rw [he] at ho ⊢
      refine .inr ⟨hV, ⟨r, hget⟩, a, g, x, value, ty, List.mem_cons_self .., hd, hc, ?_,
        get?_record_self⟩
      rw [get?_record_of_ne (Ne.symm ho.1)]
      exact get?_settled_self hd
    · rw [get?_record_of_ne (Ne.symm ho.1), get?_settled_of_ne _ _ hd (Ne.symm he)]
      rcases h.step other ho.2 with hs | ⟨hV', hi, b, g', x', v, ty', hm, hd', hc', hg, hb⟩
      · exact .inl hs
      · have ⟨hin, hbv⟩ := h.within _ hm
        have hba : a.id.ir ≠ b.id.ir := fun he => ha (he ▸ hin)
        have hbid : id ≠ b.id.ir := fun he => hbv (show V b.id.ir from he ▸ hV)
        refine .inr ⟨hV', hi, b, g', x', v, ty', List.mem_cons_of_mem _ hm, hd', hc', ?_, ?_⟩
        · rw [get?_record_of_ne (Ne.symm ho.1), get?_settled_of_ne _ _ hd (Ne.symm he)]
          exact hg
        · rw [get?_record_of_ne hba, get?_settled_of_ne _ _ hd hbid]
          exact hb

end Evolves

/-! ## Placed nodes -/

/-- Nodes that are distinct and of which none is firm, and parts among them whose names, callees
and type paths are bound as they should be. -/
structure Placed (s : Scope) (b : TypeTable) (V F : IrId → Prop) (ids : List IrId)
    (parts : List Part) : Prop where
  nodup : ids.Nodup
  loose : ∀ id ∈ ids, ¬ F id
  nodes : ∀ {p : Part}, p ∈ parts → (∀ h q, p ≠ .bind h q) → ∀ id ∈ p.irs, ¬ V id
  names : ∀ {g x id}, .expr (.identifier g x) ∈ parts →
    declaration s (.identifier g x) = .ok id → V id ∨ F id
  callees : ∀ {h f args decl id}, .expr (.call h f args) ∈ parts →
    s.bindings.name? f.surface = some decl → s.registry.node? ⟨h.id.crate, decl⟩ = some id → F id
  paths : ∀ {g name id}, .ascription (.path g name) ∈ parts → pathTarget? s b g = some id → F id
  structs : ∀ {h path fs decl id}, .expr (.struct h path fs) ∈ parts →
    s.bindings.type? path.id.surface = some decl →
    s.registry.node? ⟨path.id.crate, decl⟩ = some id → F id

namespace Placed

variable {ids ids' : List IrId} {parts parts' : List Part}

theorem sub (h : Placed s b V F ids parts) (hids : ids'.Sublist ids)
    (hparts : ∀ p ∈ parts', p ∈ parts) : Placed s b V F ids' parts' where
  nodup := h.nodup.sublist hids
  loose id hid := h.loose id (hids.mem hid)
  nodes hp := h.nodes (hparts _ hp)
  names he := h.names (hparts _ he)
  callees he := h.callees (hparts _ he)
  paths he := h.paths (hparts _ he)
  structs he := h.structs (hparts _ he)

theorem rearrange (h : Placed s b V F ids parts) (hids : ids'.Perm ids)
    (hparts : ∀ p ∈ parts', p ∈ parts) : Placed s b V F ids' parts' where
  nodup := hids.nodup_iff.2 h.nodup
  loose id hid := h.loose id (hids.mem_iff.1 hid)
  nodes hp := h.nodes (hparts _ hp)
  names he := h.names (hparts _ he)
  callees he := h.callees (hparts _ he)
  paths he := h.paths (hparts _ he)
  structs he := h.structs (hparts _ he)

theorem expr (h : Placed s b V F ids parts) {e : Expr} (he : .expr e ∈ parts) : ¬ V e.ir :=
  h.nodes he nofun e.ir (List.mem_singleton_self _)

theorem tail {id : IrId} {p : Part} (h : Placed s b V F (id :: ids) (p :: parts)) :
    Placed s b V F ids parts :=
  h.sub (List.sublist_cons_self ..) fun _ hp => List.mem_cons_of_mem _ hp

theorem left (h : Placed s b V F (ids ++ ids') (parts ++ parts')) : Placed s b V F ids parts :=
  h.sub (List.sublist_append_left ..) fun _ hp => List.mem_append_left _ hp

theorem right (h : Placed s b V F (ids ++ ids') (parts ++ parts')) : Placed s b V F ids' parts' :=
  h.sub (List.sublist_append_right ..) fun _ hp => List.mem_append_right _ hp

theorem not_mem_tail {id : IrId} (h : Placed s b V F (id :: ids) parts) : id ∉ ids :=
  (List.nodup_cons.1 h.nodup).1

theorem disjoint (h : Placed s b V F (ids ++ ids') parts) : ∀ id ∈ ids, id ∉ ids' :=
  fun id hid hid' => (List.nodup_append.1 h.nodup).2.2 id hid id hid' rfl

end Placed

theorem not_mem_singleton_of_not_mem {ids : List IrId} {id : IrId} (h : id ∉ ids) :
    ∀ other ∈ ids, other ∉ [id] := by
  intro other ho hm
  rw [List.mem_singleton] at hm
  exact h (hm ▸ ho)

/-- Where a judgement about these nodes leads. -/
structure Evolved (s : Scope) (b : TypeTable) (V F : IrId → Prop) (j : Judgement)
    (t u : TypeTable) : Prop where
  good : Good b F u
  found : j.Complete
  evolves : Evolves s V j.ids j.parts t u

/-! ## Bodies -/

theorem Derives.get?_self {t u : TypeTable} {e : Expr} {final : Bool} {ty : Ty}
    (h : Derives s t (.expr e final ty) u) : u.get? e.ir = some ty := by
  cases h <;> exact get?_record_self

theorem combineAll?_complete {ty : Ty} : ∀ {tys : List Ty} {c : Ty}, ty.complete = true →
    (∀ t ∈ tys, t.complete = true) → ty.combineAll? tys = some c → c = ty ∧ ∀ t ∈ tys, t.Alike ty
  | [], _, _, _, h => ⟨(Option.some.inj h).symm, fun _ hm => absurd hm List.not_mem_nil⟩
  | t :: rest, c, hty, hall, h => by
    obtain ⟨x, hx, hrest⟩ := Option.bind_eq_some_iff.1 h
    obtain ⟨rfl, halike⟩ := Ty.combine?_complete hty (hall t (List.mem_cons_self ..)) hx
    obtain ⟨hc, htail⟩ := combineAll?_complete hty
      (fun t' hm => hall t' (List.mem_cons_of_mem _ hm)) hrest
    refine ⟨hc, ?_⟩
    intro t' hm
    rcases List.mem_cons.1 hm with rfl | hm
    · exact halike.symm
    · exact htail t' hm

/-- What an assignment leads to whose target has a type already, or gets that of the value. -/
theorem complete_of_assigned {id : IrId} {tt vt ty : Ty} (ht : Allowed F id tt)
    (hv : vt.complete = true) (h : tt.combine? vt = some ty) : ty.complete = true := by
  rcases ht with hc | ⟨⟨r, rfl⟩, _⟩
  · rw [(Ty.combine?_complete hc hv h).1]
    exact hc
  · rw [Ty.combine?_infer (Ty.isError_eq_false hv) h]
    exact hv

theorem complete_of_bound {annotated : Option Ty} {vt ty : Ty}
    (ha : ∀ a, annotated = some a → a.complete = true) (hv : vt.complete = true)
    (h : boundType? annotated vt = some ty) : ty.complete = true := by
  cases annotated with
  | none =>
    cases h
    exact hv
  | some a =>
    rw [(Ty.combine?_complete (ha a rfl) hv h).1]
    exact ha a rfl

theorem good_of_annotates? {t u : TypeTable} {a : Option TypeExpr} {ty : Option Ty}
    (h : Annotates? s t a ty u) (hg : Good b F t)
    (hp : ∀ {g name id}, .ascription (.path g name) ∈ TypeExpr.partsOf a →
      pathTarget? s b g = some id → F id) :
    Good b F u ∧ ∀ x, ty = some x → x.complete = true := by
  cases h with
  | none => exact ⟨hg, by simp⟩
  | some h =>
    obtain ⟨hu, hc⟩ := h.good hg hp
    refine ⟨hu, ?_⟩
    intro x hx
    cases hx
    exact hc

/-- How tables evolve along a derivation. -/
theorem Derives.evolve {t u : TypeTable} {j : Judgement} (h : Derives s t j u) :
    Placed s b V F j.ids j.parts → j.Given → Good b F t → Evolved s b V F j t u := by
  induction h with
  | @literal t ty h lit final hl =>
    intro hp _ hg
    have hv : ¬ V h.id.ir := hp.expr (List.mem_singleton_self _)
    have hc : ty.complete = true := hg.builtins hl
    exact ⟨hg.record (.inl hc), hc,
      (Evolves.refl t).node (.literal h lit) List.not_mem_nil hv ty⟩
  | @identifier t id ty h name final hd hget hi =>
    intro hp _ hg
    have hv : ¬ V h.id.ir := hp.expr (List.mem_singleton_self _)
    have hc : ty.complete = true := by
      rcases hg.entries hget with hc | ⟨⟨r, rfl⟩, _⟩
      · exact hc
      · cases hi
    exact ⟨hg.record (.inl hc), hc,
      (Evolves.refl t).node (.identifier h name) List.not_mem_nil hv ty⟩
  | @retUnit t result ty h final hr hcomb =>
    intro hp _ hg
    have hv : ¬ V h.id.ir := hp.expr (List.mem_singleton_self _)
    have hc : ty.complete = true := by
      rw [(Ty.combine?_complete (hg.returns hr) rfl hcomb).1]
      exact hg.returns hr
    exact ⟨hg.record (.inl hc), hc,
      (Evolves.refl t).node (.ret h none) List.not_mem_nil hv ty⟩
  | @ret t u result vt ty h value final hr _ hcomb ih =>
    intro hp _ hg
    simp only [Judgement.ids, Judgement.parts, Expr.ids_ret, Expr.parts] at hp
    obtain ⟨hu, hvt, he⟩ := ih hp.tail trivial hg
    have hc : ty.complete = true := by
      rw [(Ty.combine?_complete (hg.returns hr) hvt hcomb).1]
      exact hg.returns hr
    exact ⟨hu.record (.inl hc), hc, he.node (.ret h (some value)) hp.not_mem_tail
      (hp.expr (List.mem_cons_self ..)) ty⟩
  | @binary t u v lt rt ty h op lhs rhs final _ _ hcomb ihl ihr =>
    intro hp _ hg
    simp only [Judgement.ids, Judgement.parts, Expr.ids_binary, Expr.parts] at hp
    obtain ⟨hu, hlt, hl⟩ := ihl hp.tail.left trivial hg
    obtain ⟨hv, hrt, hr⟩ := ihr hp.tail.right trivial hu
    have hc : ty.complete = true := by
      rw [(Ty.combine?_complete hlt hrt hcomb).1]
      exact hlt
    have hlr := hl.trans hr hp.tail.disjoint
    refine ⟨hv.record (.inl hc), hc, ?_⟩
    simp only [Judgement.ids, Judgement.parts, Expr.ids_binary, Expr.parts]
    exact hlr.node (.binary h op lhs rhs) hp.not_mem_tail (hp.expr (List.mem_cons_self ..)) ty
  | @call t u decl id r params result h callee args final hn hs hget hlen _ ih =>
    intro hp _ hg
    simp only [Judgement.ids, Judgement.parts, Expr.ids_call, Expr.parts] at hp
    have hF : F id := hp.callees (List.mem_cons_self ..) hn hs
    have hfn := hg.firm hget hF
    unfold Ty.complete at hfn
    rw [Bool.and_eq_true] at hfn
    have hargs : Placed s b V F (callee.ids ++ Expr.idsAll args)
        ([.callee callee] ++ Expr.partsAll args) := hp.tail
    obtain ⟨hu, _, he⟩ := ih hargs.right hfn.1 hg
    refine ⟨hu.record (.inl hfn.2), hfn.2, ?_⟩
    simp only [Judgement.ids, Judgement.parts, Expr.ids_call, Expr.parts]
    exact ((he.widen fun _ hm => List.mem_append_right _ hm).other (.callee callee) (by simp)).node
      (.call h callee args) hp.not_mem_tail (hp.expr (List.mem_cons_self ..)) result
  | @callError t u decl id r tys h callee args final hn hs hget _ _ =>
    -- a callee is firm, so its type is complete and no error
    intro hp _ hg
    simp only [Judgement.ids, Judgement.parts, Expr.ids_call, Expr.parts] at hp
    exact absurd (hg.firm hget (hp.callees (List.mem_cons_self ..) hn hs))
      Bool.false_ne_true
  | @assignName t u id tt vt ty h g name value final hd hget _ hcomb ih =>
    intro hp _ hg
    simp only [Judgement.ids, Judgement.parts, Expr.ids_assign, Expr.ids_identifier, Expr.parts]
      at hp
    have hvar : V id ∨ F id := hp.tail.left.names (List.mem_singleton_self _) hd
    have hgv : ¬ V g.id.ir := hp.tail.left.expr (List.mem_singleton_self _)
    have hhv : ¬ V h.id.ir := hp.expr (List.mem_cons_self ..)
    have hgF : ¬ F g.id.ir := hp.tail.left.loose _ (List.mem_singleton_self _)
    have htt : Allowed F g.id.ir tt := by
      rcases hg.entries hget with hc | ⟨hi, _⟩
      · exact .inl hc
      · exact .inr ⟨hi, hgF⟩
    obtain ⟨hu, hvt, he⟩ := ih hp.tail.right trivial (hg.record htt)
    have hc : ty.complete = true := complete_of_assigned htt hvt hcomb
    refine ⟨((hu.record (.inl hc)).settled _ _ hc).record (.inl hc), hc, ?_⟩
    simp only [Judgement.ids, Judgement.parts, Expr.ids_assign, Expr.ids_identifier, Expr.parts]
    have hbefore : Evolves s V [g.id.ir] [.expr (.identifier g name)] t (t.record g.id.ir tt) :=
      (Evolves.refl t).node (.identifier g name) List.not_mem_nil hgv tt
    have hnot : ∀ a target v, .expr (.assign a target v) ∈
        [.expr (.identifier g name)] ++ value.parts → a.id.ir ≠ g.id.ir := by
      intro a target v hm heq
      rcases List.mem_append.1 hm with hm | hm
      · cases List.mem_singleton.1 hm
      · exact hp.tail.disjoint _ (List.mem_singleton_self _) (heq ▸ (he.within _ hm).1)
    have hafter := (hbefore.trans he hp.tail.disjoint).again
      (List.mem_append_left _ (List.mem_singleton_self _)) hnot ty
    rcases hg.entries hget with hct | ⟨⟨r, rfl⟩, hnF⟩
    · rw [settled_of_complete _ ty hct]
      exact hafter.node (.assign h (.identifier g name) value) hp.not_mem_tail hhv ty
    · have hV : V id := hvar.resolve_right hnF
      exact hafter.settle hd hV hget hc hp.not_mem_tail hhv
  | @assign t u v tt vt ty h target value final hn ht _ hcomb iht ihv =>
    intro hp _ hg
    simp only [Judgement.ids, Judgement.parts, Expr.ids_assign, Expr.parts] at hp
    obtain ⟨hu, htt, het⟩ := iht hp.tail.left trivial hg
    obtain ⟨hv, hvt, hev⟩ := ihv hp.tail.right trivial hu
    obtain ⟨rfl, _⟩ := Ty.combine?_complete htt hvt hcomb
    have hir : target.ir ∉ value.ids := hp.tail.disjoint _ (Expr.ir_mem_ids target)
    have hsame : v.get? target.ir = some ty := hev.keeps hir ht.get?_self htt
    rw [settled_of_complete target ty htt]
    refine ⟨(hv.record (.inl htt)).record (.inl htt), htt, ?_⟩
    simp only [Judgement.ids, Judgement.parts, Expr.ids_assign, Expr.parts]
    -- the target is recorded once more, with the type it has
    have hagain : ∀ id, (v.record target.ir ty).get? id = v.get? id := by
      intro id
      rw [TypeTable.get?_record]
      split
      · rename_i he
        rw [he, hsame]
      · rfl
    exact ((het.trans hev hp.tail.disjoint).congr hagain).node (.assign h target value)
      hp.not_mem_tail (hp.expr (List.mem_cons_self ..)) ty
  | @ifOnly t u v ct bt h condition body final _ _ ihc ihb =>
    intro hp _ hg
    simp only [Judgement.ids, Judgement.parts, Expr.ids_ifOnly, Expr.parts] at hp
    obtain ⟨hu, _, hc⟩ := ihc hp.tail.left trivial hg
    obtain ⟨hv, _, hb⟩ := ihb hp.tail.right trivial hu
    refine ⟨hv.record (.inl rfl), rfl, ?_⟩
    simp only [Judgement.ids, Judgement.parts, Expr.ids_ifOnly, Expr.parts]
    exact (hc.trans hb hp.tail.disjoint).node (.ifOnly h condition body) hp.not_mem_tail
      (hp.expr (List.mem_cons_self ..)) _
  | @ifElse t u v w ct tt et h condition thenBody elseBody _ _ _ ihc iht ihe =>
    intro hp _ hg
    simp only [Judgement.ids, Judgement.parts, Expr.ids_ifElse, Expr.parts] at hp
    obtain ⟨hu, _, hc⟩ := ihc hp.tail.left trivial hg
    obtain ⟨hv, _, ht⟩ := iht hp.tail.right.left trivial hu
    obtain ⟨hw, _, he⟩ := ihe hp.tail.right.right trivial hv
    refine ⟨hw.record (.inl rfl), rfl, ?_⟩
    simp only [Judgement.ids, Judgement.parts, Expr.ids_ifElse, Expr.parts]
    exact (hc.trans (ht.trans he hp.tail.right.disjoint) hp.tail.disjoint).node
      (.ifElse h condition thenBody elseBody) hp.not_mem_tail (hp.expr (List.mem_cons_self ..)) _
  | @ifElseFinal t u v w expected ct tt et both ty h condition thenBody elseBody hr _ _ _ hct hce
      ihc iht ihe =>
    intro hp _ hg
    simp only [Judgement.ids, Judgement.parts, Expr.ids_ifElse, Expr.parts] at hp
    obtain ⟨hu, _, hc⟩ := ihc hp.tail.left trivial hg
    obtain ⟨hv, htt, ht⟩ := iht hp.tail.right.left trivial hu
    obtain ⟨hw, het, he⟩ := ihe hp.tail.right.right trivial hv
    have hexp := hg.returns hr
    obtain ⟨rfl, _⟩ := Ty.combine?_complete hexp htt hct
    obtain ⟨rfl, _⟩ := Ty.combine?_complete hexp het hce
    refine ⟨hw.record (.inl hexp), hexp, ?_⟩
    simp only [Judgement.ids, Judgement.parts, Expr.ids_ifElse, Expr.parts]
    exact (hc.trans (ht.trans he hp.tail.right.disjoint) hp.tail.disjoint).node
      (.ifElse h condition thenBody elseBody) hp.not_mem_tail (hp.expr (List.mem_cons_self ..)) _
  | @ifElseIf t u v w ct tt et h condition thenBody elseIf final _ _ _ ihc iht ihe =>
    intro hp _ hg
    simp only [Judgement.ids, Judgement.parts, Expr.ids_ifElseIf, Expr.parts] at hp
    obtain ⟨hu, _, hc⟩ := ihc hp.tail.left trivial hg
    obtain ⟨hv, _, ht⟩ := iht hp.tail.right.left trivial hu
    obtain ⟨hw, _, he⟩ := ihe hp.tail.right.right trivial hv
    refine ⟨hw.record (.inl rfl), rfl, ?_⟩
    simp only [Judgement.ids, Judgement.parts, Expr.ids_ifElseIf, Expr.parts]
    exact (hc.trans (ht.trans he hp.tail.right.disjoint) hp.tail.disjoint).node
      (.ifElseIf h condition thenBody elseIf) hp.not_mem_tail (hp.expr (List.mem_cons_self ..)) _
  | @blockUnit t u h body final _ ih =>
    intro hp _ hg
    simp only [Judgement.ids, Judgement.parts, Expr.ids_block_none, Expr.parts] at hp
    obtain ⟨hu, _, he⟩ := ih hp.tail trivial hg
    exact ⟨hu.record (.inl rfl), rfl, he.node (.block h body none) hp.not_mem_tail
      (hp.expr (List.mem_cons_self ..)) _⟩
  | @block t u v ty h body tail final _ _ ihb iht =>
    intro hp _ hg
    simp only [Judgement.ids, Judgement.parts, Expr.ids_block, Expr.parts] at hp
    obtain ⟨hu, _, hb⟩ := ihb hp.tail.left trivial hg
    obtain ⟨hv, hc, ht⟩ := iht hp.tail.right trivial hu
    refine ⟨hv.record (.inl hc), hc, ?_⟩
    simp only [Judgement.ids, Judgement.parts, Expr.ids_block, Expr.parts]
    exact (hb.trans ht hp.tail.disjoint).node (.block h body (some tail)) hp.not_mem_tail
      (hp.expr (List.mem_cons_self ..)) _
  | @index t u v pt both element r capacity h base position final _ _ _ ihp ihb =>
    intro hp _ hg
    simp only [Judgement.ids, Judgement.parts, Expr.ids_index, Expr.parts] at hp
    obtain ⟨hu, _, hpos⟩ := ihp hp.tail.right trivial hg
    obtain ⟨hv, hc, hbase⟩ := ihb hp.tail.left trivial hu
    have hc : element.complete = true := hc
    refine ⟨hv.record (.inl hc), hc, ?_⟩
    simp only [Judgement.ids, Judgement.parts, Expr.ids_index, Expr.parts]
    have hd : ∀ id ∈ position.ids, id ∉ base.ids := fun id hm hb => hp.tail.disjoint id hb hm
    have hboth : Evolves s V (base.ids ++ position.ids) (base.parts ++ position.parts) t v :=
      (hpos.trans hbase hd).rearrange (fun id hm => by
        rw [List.mem_append] at hm ⊢
        exact hm.symm) fun p => by rw [List.mem_append, List.mem_append, or_comm]; rfl
    exact hboth.node (.index h base position) hp.not_mem_tail (hp.expr (List.mem_cons_self ..)) _
  | @indexError t u v pt both r h base position final _ _ _ ihp ihb =>
    -- the type of the array is complete, so it is no error
    intro hp _ hg
    simp only [Judgement.ids, Judgement.parts, Expr.ids_index, Expr.parts] at hp
    obtain ⟨hu, _, _⟩ := ihp hp.tail.right trivial hg
    exact absurd (ihb hp.tail.left trivial hu).found Bool.false_ne_true
  | @array t u v ft element tys h first rest final _ _ hcomb ihf ihr =>
    intro hp _ hg
    simp only [Judgement.ids, Judgement.parts, Expr.ids_array, Expr.idsAll_cons, Expr.parts,
      Expr.partsAll] at hp
    obtain ⟨hu, hft, hf⟩ := ihf hp.tail.left trivial hg
    obtain ⟨hv, htys, hr⟩ := ihr hp.tail.right trivial hu
    obtain ⟨rfl, _⟩ := combineAll?_complete hft htys hcomb
    refine ⟨hv.record (.inl hft), hft, ?_⟩
    simp only [Judgement.ids, Judgement.parts, Expr.ids_array, Expr.idsAll_cons, Expr.parts,
      Expr.partsAll]
    exact (hf.trans hr hp.tail.disjoint).node (.array h (first :: rest)) hp.not_mem_tail
      (hp.expr (List.mem_cons_self ..)) _
  | @copies t u ty h element count final _ ih =>
    intro hp _ hg
    simp only [Judgement.ids, Judgement.parts, Expr.ids_copies, Expr.parts] at hp
    obtain ⟨hu, hc, he⟩ := ih hp.tail trivial hg
    exact ⟨hu.record (.inl hc), hc, he.node (.copies h element count) hp.not_mem_tail
      (hp.expr (List.mem_cons_self ..)) _⟩
  | @struct t u decl id r name decls h path fields final hn hs hget _ _ ih =>
    intro hp _ hg
    simp only [Judgement.ids, Judgement.parts, Expr.ids_struct, Expr.parts] at hp
    have hc := hg.firm hget (hp.structs (List.mem_cons_self ..) hn hs)
    obtain ⟨hu, _, he⟩ := ih hp.tail.tail hc hg
    exact ⟨hu.record (.inl hc), hc,
      ((he.widen fun _ hm => List.mem_cons_of_mem _ hm).other (.path path) (by simp)).node
        (.struct h path fields) hp.not_mem_tail (hp.expr (List.mem_cons_self ..)) _⟩
  | exprsNil t => exact fun _ _ hg => ⟨hg, fun _ hm => absurd hm List.not_mem_nil, .refl t⟩
  | @exprsCons t u v ty tys e es _ _ ihe ihr =>
    intro hp _ hg
    simp only [Judgement.ids, Judgement.parts, Expr.idsAll_cons, Expr.partsAll] at hp
    obtain ⟨hu, hc, he⟩ := ihe hp.left trivial hg
    obtain ⟨hv, hcs, hr⟩ := ihr hp.right trivial hu
    refine ⟨hv, ?_, ?_⟩
    · intro ty' hm
      rcases List.mem_cons.1 hm with rfl | hm
      · exact hc
      · exact hcs ty' hm
    · simp only [Judgement.ids, Judgement.parts, Expr.idsAll_cons, Expr.partsAll]
      exact he.trans hr hp.disjoint
  | argumentsNil t => exact fun _ _ hg => ⟨hg, trivial, .refl t⟩
  | @argumentsCons t u v ty both name param params e es _ _ _ ihe ihr =>
    intro hp hgiven hg
    simp only [Judgement.ids, Judgement.parts, Expr.idsAll_cons, Expr.partsAll] at hp
    simp only [Judgement.Given, Members.complete, Bool.and_eq_true] at hgiven
    obtain ⟨hu, _, he⟩ := ihe hp.left trivial hg
    obtain ⟨hv, _, hr⟩ := ihr hp.right hgiven.2 hu
    refine ⟨hv, trivial, ?_⟩
    simp only [Judgement.ids, Judgement.parts, Expr.idsAll_cons, Expr.partsAll]
    exact he.trans hr hp.disjoint
  | fieldsNil decls t => exact fun _ _ hg => ⟨hg, trivial, .refl t⟩
  | @fieldsCons t u v dt vt ty decls h name value rest _ hf hcomb _ ihv ihr =>
    intro hp hgiven hg
    simp only [Judgement.ids, Judgement.parts, FieldInit.idsAll_cons, FieldInit.partsAll] at hp
    have hvalue := hp.tail
    obtain ⟨hu, hvt, hv⟩ := ihv hvalue.left trivial hg
    obtain ⟨rfl, _⟩ := Ty.combine?_complete (Members.complete_find? hgiven hf) hvt hcomb
    have hc : ty.complete = true := Members.complete_find? hgiven hf
    obtain ⟨hv', _, hr⟩ := ihr hvalue.right hgiven (hu.record (.inl hc))
    refine ⟨hv', trivial, ?_⟩
    simp only [Judgement.ids, Judgement.parts, FieldInit.idsAll_cons, FieldInit.partsAll]
    have hh := hp.not_mem_tail
    rw [List.mem_append, not_or] at hh
    have hnode : Evolves s V (value.ids ++ [h.id.ir]) (value.parts ++ []) t
        (u.record h.id.ir ty) :=
      hv.trans (.record u h.id.ir ty) fun id hm he => hh.1 (List.mem_singleton.1 he ▸ hm)
    have hall := hnode.trans hr fun id hm => by
      rcases List.mem_append.1 hm with hm | hm
      · exact hvalue.disjoint id hm
      · exact List.mem_singleton.1 hm ▸ hh.2
    refine (hall.rearrange ?_ ?_).other (.field h) (by simp)
    · intro id hm
      simp only [Judgement.ids, List.mem_append, List.mem_singleton] at hm
      simp only [List.mem_cons, List.mem_append]
      rcases hm with (hm | hm) | hm
      · exact .inr (.inl hm)
      · exact .inl hm
      · exact .inr (.inr hm)
    · intro p
      rw [List.append_nil]
      rfl
  | @effect t u ty e _ ih =>
    intro hp _ hg
    obtain ⟨hu, _, he⟩ := ih hp trivial hg
    exact ⟨hu, trivial, he⟩
  | @declare t u annotated h pattern ascribed ha =>
    intro hp _ hg
    simp only [Judgement.ids, Judgement.parts, Stmt.ids_bind_none, Stmt.parts] at hp
    obtain ⟨hu, hc⟩ := good_of_annotates? ha hg fun hm => hp.paths (List.mem_cons_of_mem _ hm)
    have hallowed : ∀ id, ¬ F id → Allowed F id (annotated.getD (.infer h.id.ir)) := by
      intro id hid
      cases annotated with
      | none => exact .inr ⟨⟨_, rfl⟩, hid⟩
      | some a => exact .inl (hc a rfl)
    have hpF : ¬ F pattern.id.ir := hp.loose _ (by simp)
    have hhF : ¬ F h.id.ir := hp.loose _ (by simp)
    refine ⟨(hu.record (hallowed _ hpF)).record (hallowed _ hhF), trivial, ?_⟩
    simp only [Judgement.ids, Judgement.parts, Stmt.ids_bind_none, Stmt.parts]
    have hsame : SameBut (· ∈ h.id.ir :: pattern.id.ir :: TypeExpr.idsOf ascribed) t u :=
      ha.frame fun id hm => List.mem_cons_of_mem _ (List.mem_cons_of_mem _ hm)
    exact ((Evolves.of_same ((hsame.record (by simp) _).record (by simp) _) fun _ hm => hm).quiet
      (TypeExpr.noExpr_partsOf ascribed)).other (.bind h pattern) (by simp)
  | @bind t u v annotated vt ty h pattern ascribed init ha _ hb ih =>
    intro hp _ hg
    simp only [Judgement.ids, Judgement.parts, Stmt.ids_bind, Stmt.parts] at hp
    obtain ⟨hu, hca⟩ := good_of_annotates? ha hg fun hm =>
      hp.paths (List.mem_cons_of_mem _ (List.mem_append_left _ hm))
    have hinner : Placed s b V F (TypeExpr.idsOf ascribed ++ init.ids)
        (TypeExpr.partsOf ascribed ++ init.parts) :=
      hp.sub ((List.sublist_cons_self ..).trans (List.sublist_cons_self ..))
        fun _ hm => List.mem_cons_of_mem _ hm
    obtain ⟨hv, hvt, hi⟩ := ih hinner.right trivial hu
    have hc : ty.complete = true := complete_of_bound hca hvt hb
    refine ⟨(hv.record (.inl hc)).record (.inl hc), trivial, ?_⟩
    simp only [Judgement.ids, Judgement.parts, Stmt.ids_bind, Stmt.parts]
    have hsame : Evolves s V (TypeExpr.idsOf ascribed) (TypeExpr.partsOf ascribed) t u :=
      (Evolves.of_same (ha.frame fun _ hm => hm) fun _ hm => hm).quiet
        (TypeExpr.noExpr_partsOf ascribed)
    have hn := hp.nodup
    rw [List.nodup_cons, List.nodup_cons, List.mem_cons, not_or] at hn
    have hp₁ : Evolves s V _ _ t (v.record pattern.id.ir ty) :=
      (hsame.trans hi hinner.disjoint).trans (.record v pattern.id.ir ty)
        fun id hm he => hn.2.1 (List.mem_singleton.1 he ▸ hm)
    have hp₂ := hp₁.trans (.record _ h.id.ir ty) fun id hm he => by
      rw [List.mem_singleton] at he
      rcases List.mem_append.1 hm with hm | hm
      · exact hn.1.2 (he ▸ hm)
      · exact hn.1.1 (he ▸ List.mem_singleton.1 hm)
    refine (hp₂.rearrange ?_ ?_).other (.bind h pattern) (by simp)
    · intro id hm
      simp only [Judgement.ids, List.mem_append, List.mem_singleton] at hm
      simp only [List.mem_cons, List.mem_append]
      rcases hm with (hm | hm) | hm
      · exact .inr (.inr hm)
      · exact .inr (.inl hm)
      · exact .inl hm
    · intro p
      rw [List.append_nil, List.append_nil]
      rfl
  | stmtsNil t => exact fun _ _ hg => ⟨hg, trivial, .refl t⟩
  | @stmtsCons t u v st rest _ _ ihs ihr =>
    intro hp _ hg
    simp only [Judgement.ids, Judgement.parts, Stmt.idsAll_cons, Stmt.partsAll] at hp
    obtain ⟨hu, _, he⟩ := ihs hp.left trivial hg
    obtain ⟨hv, _, hr⟩ := ihr hp.right trivial hu
    refine ⟨hv, trivial, ?_⟩
    simp only [Judgement.ids, Judgement.parts, Stmt.idsAll_cons, Stmt.partsAll]
    exact he.trans hr hp.disjoint

end Check

end MiddleEnd
