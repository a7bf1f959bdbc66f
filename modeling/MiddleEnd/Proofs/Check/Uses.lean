/-
  The declarations a check goes by. Wherever a name or a call stands in a body, the check comes to
  it with tables that have a type for its declaration, and what it then records for the use follows
  from that type (`Derives.passage`, `Passes.goesBy`).
-/
import MiddleEnd.Proofs.Check.Evolution

namespace MiddleEnd

/-- The expression is the use of a declared name: of a variable, a constant or a function. -/
def Expr.isUse : Expr → Bool
  | .identifier .. | .call .. => true
  | _ => false

theorem Expr.isBlock_of_isUse {e : Expr} (h : e.isUse = true) : e.isBlock = false := by
  cases e with
  | block => cases h
  | _ => rfl

namespace Check

variable {s : Scope}

/-! ## Tables on the way -/

/-- Tables that come of `t`: types are recorded, functions entered and left. -/
inductive Leads (t : TypeTable) : TypeTable → Prop
  | refl : Leads t t
  | record {u : TypeTable} (id : IrId) (ty : Ty) : Leads t u → Leads t (u.record id ty)
  | enter {u : TypeTable} (result : Ty) : Leads t u → Leads t (u.pushReturn result)
  | leave {u : TypeTable} : Leads t u → Leads t u.popReturn.2

theorem Leads.trans {t u v : TypeTable} (h : Leads t u) (h' : Leads u v) : Leads t v := by
  induction h' with
  | refl => exact h
  | record id ty _ ih => exact .record id ty ih
  | enter result _ ih => exact .enter result ih
  | leave _ ih => exact .leave ih

/-- With tables `t`, the type `ty` of the use follows from the type of declaration `id`. -/
inductive Consults (s : Scope) (t : TypeTable) : Expr → IrId → Ty → Prop
  | name {id : IrId} {ty : Ty} (h : Head) (name : String) :
    declaration s (.identifier h name) = .ok id →
    t.get? id = some ty →
    Consults s t (.identifier h name) id ty
  | call {decl : SurfaceId} {id r : IrId} {params : Members} {result : Ty} (h : Head)
      (callee : Expr) (args : List Expr) :
    s.bindings.name? callee.surface = some decl →
    s.registry.node? ⟨h.id.crate, decl⟩ = some id →
    t.get? id = some (.fn r params result) →
    Consults s t (.call h callee args) id result
  | callError {decl : SurfaceId} {id r : IrId} (h : Head) (callee : Expr) (args : List Expr) :
    s.bindings.name? callee.surface = some decl →
    s.registry.node? ⟨h.id.crate, decl⟩ = some id →
    t.get? id = some (.error r) →
    Consults s t (.call h callee args) id (.error r)

/-- The node of a call's declaration stands in the crate of the call. -/
theorem Consults.node {t : TypeTable} {h : Head} {callee : Expr} {args : List Expr} {id : IrId}
    {ty : Ty} (hf : Consults s t (.call h callee args) id ty) : ∃ decl,
      s.bindings.name? callee.surface = some decl ∧
        s.registry.node? ⟨h.id.crate, decl⟩ = some id := by
  cases hf with
  | call _ _ _ hdecl hid _ => exact ⟨_, hdecl, hid⟩
  | callError _ _ _ hdecl hid _ => exact ⟨_, hdecl, hid⟩

/-- Between tables `t` and `u` the use `e` is met, and a type that follows from the one of
declaration `id` is recorded for it. -/
def GoesBy (s : Scope) (t u : TypeTable) (e : Expr) (id : IrId) : Prop :=
  ∃ t₁ t₂ ty, Leads t t₁ ∧ Consults s t₁ e id ty ∧ Leads t₁ t₂ ∧ Leads (t₂.record e.ir ty) u

theorem GoesBy.mono {t t' u u' : TypeTable} {e : Expr} {id : IrId} (h : GoesBy s t u e id)
    (ht : Leads t' t) (hu : Leads u u') : GoesBy s t' u' e id := by
  obtain ⟨t₁, t₂, ty, hfrom, hf, hto, hrest⟩ := h
  exact ⟨t₁, t₂, ty, ht.trans hfrom, hf, hto, hrest.trans hu⟩

/-! ## Expressions -/

/-- The tables lead from `t` to `u`, and every use among the parts is met on the way. -/
structure Passage (s : Scope) (t u : TypeTable) (ps : List Part) : Prop where
  leads : Leads t u
  uses : ∀ e, .expr e ∈ ps → e.isUse = true → ∃ id, GoesBy s t u e id

namespace Passage

variable {t u v : TypeTable} {ps qs : List Part}

theorem nil (h : Leads t u) : Passage s t u [] :=
  ⟨h, fun _ he => absurd he List.not_mem_nil⟩

theorem congr (h : Passage s t u ps) (hs : qs ⊆ ps) : Passage s t u qs :=
  ⟨h.leads, fun e he => h.uses e (hs he)⟩

theorem append (h : Passage s t u ps) (h' : Passage s u v qs) : Passage s t v (ps ++ qs) := by
  refine ⟨h.leads.trans h'.leads, fun e he hu => ?_⟩
  rcases List.mem_append.1 he with he | he
  · obtain ⟨id, hid⟩ := h.uses e he hu
    exact ⟨id, hid.mono .refl h'.leads⟩
  · obtain ⟨id, hid⟩ := h'.uses e he hu
    exact ⟨id, hid.mono h.leads .refl⟩

/-- Parts that are met in the other order. -/
theorem swap (h : Passage s t u ps) (h' : Passage s u v qs) : Passage s t v (qs ++ ps) :=
  (h.append h').congr fun _ hp => List.mem_append.2 (List.mem_append.1 hp).symm

theorem after (h : Passage s t u ps) (h' : Leads u v) : Passage s t v ps := by
  have hall := h.append (.nil h')
  rwa [List.append_nil] at hall

/-- A part that is no use. -/
theorem skip (h : Passage s t u ps) (p : Part) (hp : ∀ e, p = .expr e → e.isUse = false) :
    Passage s t u (p :: ps) := by
  refine ⟨h.leads, fun e he hu => ?_⟩
  rcases List.mem_cons.1 he with heq | he
  · rw [hp e heq.symm] at hu
    cases hu
  · exact h.uses e he hu

/-- An expression that is no use, with its type. -/
theorem node (h : Passage s t u ps) (e : Expr) (he : e.isUse = false) (ty : Ty) :
    Passage s t (u.record e.ir ty) (.expr e :: ps) :=
  (h.after (.record _ ty .refl)).skip (.expr e) fun _ hf => Part.expr.inj hf ▸ he

/-- A use, with what is met before its type is recorded. -/
theorem use (h : Passage s t u ps) {e : Expr} {id : IrId} {ty : Ty} (hf : Consults s t e id ty) :
    Passage s t (u.record e.ir ty) (.expr e :: ps) := by
  refine ⟨.record _ _ h.leads, fun f he hu => ?_⟩
  rcases List.mem_cons.1 he with heq | he
  · cases heq
    exact ⟨id, t, u, ty, .refl, hf, h.leads, .refl⟩
  · obtain ⟨id', hid⟩ := h.uses f he hu
    exact ⟨id', hid.mono .refl (.record _ _ .refl)⟩

end Passage

theorem Annotates.leads {t u : TypeTable} {a : TypeExpr} {ty : Ty} (h : Annotates s t a ty u) :
    Leads t u := by
  induction h with
  | unit h => exact .record _ _ .refl
  | array h capacity _ ih => exact .record _ _ ih
  | path h name _ => exact .record _ _ .refl

theorem Annotates?.passage {t u : TypeTable} {a : Option TypeExpr} {ty : Option Ty}
    (h : Annotates? s t a ty u) : Passage s t u (TypeExpr.partsOf a) where
  leads := by
    cases h with
    | none => exact .refl
    | some h => exact h.leads
  uses e he := absurd he (TypeExpr.noExpr_partsOf a e)

theorem leads_settled (u : TypeTable) (target : Expr) (before after : Ty) :
    Leads u (settled s u target before after) := by
  unfold settled
  split
  · split
    · exact .record _ _ .refl
    · exact .refl
  · exact .refl

/-- A derivation meets every use in what it is about. -/
theorem Derives.passage {t u : TypeTable} {j : Judgement} (h : Derives s t j u) :
    Passage s t u j.parts := by
  induction h with
  | literal h lit final _ => exact (Passage.nil .refl).node (.literal h lit) rfl _
  | identifier h name final hd hget _ => exact (Passage.nil .refl).use (.name h name hd hget)
  | retUnit h final _ _ => exact (Passage.nil .refl).node (.ret h none) rfl _
  | ret h value final _ _ _ ih => exact ih.node (.ret h (some value)) rfl _
  | call h callee args final hn hs hget _ _ ih =>
    exact (ih.skip (.callee callee) nofun).use (.call h callee args hn hs hget)
  | callError h callee args final hn hs hget _ ih =>
    exact (ih.skip (.callee callee) nofun).use (.callError h callee args hn hs hget)
  | @assignName t u id tt vt ty h g name value final hd hget _ _ ih =>
    have htarget : Passage s t (t.record g.id.ir tt) [.expr (.identifier g name)] :=
      (Passage.nil .refl).use (.name g name hd hget)
    exact ((htarget.append ih).after ((Leads.record g.id.ir ty .refl).trans
      (leads_settled _ (.identifier g name) tt ty))).node
        (.assign h (.identifier g name) value) rfl _
  | assign h target value final _ _ _ _ iht ihv =>
    exact ((iht.append ihv).after ((Leads.record _ _ .refl).trans (leads_settled _ _ _ _))).node
      (.assign h target value) rfl _
  | binary h op lhs rhs final _ _ _ ihl ihr => exact (ihl.append ihr).node (.binary h op lhs rhs) rfl _
  | ifOnly h condition body final _ _ ihc ihb => exact (ihc.append ihb).node (.ifOnly h condition body) rfl _
  | ifElse h condition thenBody elseBody _ _ _ ihc iht ihe =>
    exact (ihc.append (iht.append ihe)).node (.ifElse h condition thenBody elseBody) rfl _
  | ifElseFinal h condition thenBody elseBody _ _ _ _ _ _ ihc iht ihe =>
    exact (ihc.append (iht.append ihe)).node (.ifElse h condition thenBody elseBody) rfl _
  | ifElseIf h condition thenBody elseIf final _ _ _ ihc iht ihe =>
    exact (ihc.append (iht.append ihe)).node (.ifElseIf h condition thenBody elseIf) rfl _
  | blockUnit h body final _ ih => exact ih.node (.block h body none) rfl _
  | block h body tail final _ _ ihs iht => exact (ihs.append iht).node (.block h body (some tail)) rfl _
  | index h base position final _ _ _ ihp ihb =>
    exact (ihp.swap ihb).node (.index h base position) rfl _
  | indexError h base position final _ _ _ ihp ihb =>
    exact (ihp.swap ihb).node (.index h base position) rfl _
  | array h first rest final _ _ _ ihf ihr =>
    exact (ihf.append ihr).node (.array h (first :: rest)) rfl _
  | copies h element count final _ ih => exact ih.node (.copies h element count) rfl _
  | struct h path fields final _ _ _ _ _ ih =>
    exact (ih.skip (.path path) nofun).node (.struct h path fields) rfl _
  | exprsNil t => exact .nil .refl
  | exprsCons e es _ _ ih ihs => exact ih.append ihs
  | argumentsNil t => exact .nil .refl
  | argumentsCons name param params e es _ _ _ ih ihs => exact ih.append ihs
  | fieldsNil decls t => exact .nil .refl
  | fieldsCons decls h name value rest _ _ _ _ ih ihr =>
    exact ((ih.after (.record _ _ .refl)).append ihr).skip (.field h) nofun
  | effect e _ ih => exact ih
  | declare h pattern ascribed ha =>
    exact (ha.passage.after (.record _ _ (.record _ _ .refl))).skip _ nofun
  | bind h pattern ascribed init ha _ _ ih =>
    exact ((ha.passage.append ih).after (.record _ _ (.record _ _ .refl))).skip _ nofun
  | stmtsNil t => exact .nil .refl
  | stmtsCons st rest _ _ ih ihs => exact ih.append ihs

/-! ## Programs -/

theorem HasParams.leads {t u : TypeTable} {ps : List Param} {ms : Members}
    (h : HasParams s t ps ms u) : Leads t u := by
  induction h with
  | nil t => exact .refl
  | cons ha _ ih => exact (Leads.record _ _ (.record _ _ ha.leads)).trans ih

theorem HasFields.leads {t u : TypeTable} {fs : List FieldDecl} {ms : Members}
    (h : HasFields s t fs ms u) : Leads t u := by
  induction h with
  | nil t => exact .refl
  | cons ha _ ih => exact (Leads.record _ _ ha.leads).trans ih

theorem Signs.leads {t u : TypeTable} {i : Item} (h : Signs s t i u) : Leads t u := by
  obtain ⟨ty, v, h, rfl⟩ := h
  refine .record _ _ ?_
  cases h with
  | function h d hp ha => exact hp.leads.trans ha.passage.leads
  | struct h d hf => exact hf.leads
  | constant h d ha => exact ha.leads
  | static h d ha => exact ha.leads

/-- Checking a body meets every use in it. -/
theorem Fits.passage {t u : TypeTable} {i : Item} (h : Fits s t i u) :
    Passage s t u i.bodyParts := by
  cases h with
  | function h d _ hb _ =>
    have hbody := (Passage.nil (s := s) (.enter _ .refl)).append hb.passage
    exact hbody.after (.leave .refl)
  | struct h d => exact .nil .refl
  | constant h d _ hv _ => exact hv.passage
  | static h d _ hv _ => exact hv.passage

theorem leads_of_chain {α : Type} {R : TypeTable → α → TypeTable → Prop} {t u : TypeTable}
    {l : List α} (hR : ∀ {t a u}, R t a u → Leads t u) (h : Chain R t l u) : Leads t u := by
  induction h with
  | nil t => exact .refl
  | cons ha _ ih => exact (hR ha).trans ih

/-- Checking a program meets every use in the bodies of its items. -/
theorem Passes.goesBy {p : Program} {t u : TypeTable} (h : Passes s p t u) {i : Item}
    (hi : i ∈ p.items) {e : Expr} (he : .expr e ∈ i.bodyParts) (hu : e.isUse = true) :
    ∃ id, GoesBy s t u e id := by
  obtain ⟨v, hsigns, hfits⟩ := h
  obtain ⟨before, after, hitems⟩ := List.append_of_mem hi
  rw [hitems] at hfits
  obtain ⟨w, hbefore, hrest⟩ := hfits.split
  cases hrest with
  | cons hfit hafter =>
    obtain ⟨id, hid⟩ := hfit.passage.uses e he hu
    have hstart : Leads t w :=
      (leads_of_chain Signs.leads hsigns).trans
        (leads_of_chain (fun hf => hf.passage.leads) hbefore)
    exact ⟨id, hid.mono hstart (leads_of_chain (fun hf => hf.passage.leads) hafter)⟩

end Check

end MiddleEnd
