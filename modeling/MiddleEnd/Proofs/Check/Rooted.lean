/-
  Tables stay rooted. Whatever comes of a check, and however often it is repeated, every type in the
  table comes from the primitive types known before and from struct items, and nothing is recorded
  but at nodes of the program (`Session.rooted_checks`). Nothing is assumed about bindings here: a
  type name may mean any node, and an assignment may record a type at any node.
-/
import MiddleEnd.Proofs.Check.Idempotent
import MiddleEnd.Proofs.Check.Judgement
import MiddleEnd.Proofs.Tables.Primitives
import MiddleEnd.Proofs.Runs
import MiddleEnd.Proofs.Syntax.Parts
import MiddleEnd.Proofs.Ty.Rooted

namespace MiddleEnd

namespace Check

variable {α : Type} {R : Roots} {b : TypeTable} {K : IrId → Prop} {s : Scope}

/-- All types in the table are rooted, and the table differs from `b` at nodes of `K` only. -/
structure Grown (R : Roots) (b : TypeTable) (K : IrId → Prop) (t : TypeTable) : Prop where
  builtins : t.builtins = b.builtins
  builtinIds : t.builtinIds = b.builtinIds
  rooted : ∀ id ty, t.get? id = some ty → ty.Rooted R
  returns : ∀ ty ∈ t.returns, ty.Rooted R
  kept : ∀ id, ¬ K id → t.get? id = b.get? id

/-- The primitive types are rooted. -/
def Footed (R : Roots) (b : TypeTable) : Prop := ∀ name ty, b.builtin? name = some ty → ty.Rooted R

/-- What the parts own, and what the targets of assignments among them are bound to, is in `K`. -/
structure Confined (K : IrId → Prop) (s : Scope) (parts : List Part) : Prop where
  nodes : ∀ p ∈ parts, ∀ id ∈ p.irs, K id
  targets : ∀ h target value id, .expr (.assign h target value) ∈ parts →
    declaration s target = .ok id → K id

/-- The step keeps tables rooted, and what it gives satisfies `Q`. -/
abbrev Grows (R : Roots) (b : TypeTable) (K : IrId → Prop) (Q : α → Prop) (m : Check α) : Prop :=
  Throughout (fun p => Grown R b K p.types) Q m

/-- A type that may be missing is rooted. -/
def Rooted? (R : Roots) (r : Option Ty) : Prop := ∀ ty ∈ r, ty.Rooted R

theorem rooted?_none : Rooted? R none := nofun

theorem rooted?_some {t : Ty} (h : t.Rooted R) : Rooted? R (some t) := by
  rintro _ ⟨⟩
  exact h

theorem Rooted?.some {t : Ty} (h : Rooted? R (some t)) : t.Rooted R := h t rfl

namespace Confined

variable {parts parts' : List Part}

theorem mono (h : Confined K s parts) (hp : parts' ⊆ parts) : Confined K s parts' where
  nodes p hm := h.nodes p (hp hm)
  targets g target value id hm := h.targets g target value id (hp hm)

theorem tail {p : Part} (h : Confined K s (p :: parts)) : Confined K s parts :=
  h.mono (List.subset_cons_self ..)

theorem left (h : Confined K s (parts ++ parts')) : Confined K s parts :=
  h.mono (List.subset_append_left ..)

theorem right (h : Confined K s (parts ++ parts')) : Confined K s parts' :=
  h.mono (List.subset_append_right ..)

theorem node {e : Expr} (h : Confined K s e.parts) : K e.ir :=
  h.nodes _ e.self_mem_parts _ (List.mem_singleton_self _)

theorem ascribed {a : Option TypeExpr} (h : Confined K s (TypeExpr.partsOf a)) :
    ∀ id ∈ TypeExpr.idsOf a, K id := by
  intro id hid
  rw [← TypeExpr.irsAll_partsOf] at hid
  obtain ⟨p, hp, hid⟩ := List.mem_flatMap.1 hid
  exact h.nodes p hp id hid

end Confined

/-! ## Single steps -/

theorem grows_note (e : Event) : Grows R b K (fun _ => True) (note e) := .modify fun _ h => h

theorem grows_defect {Q : α → Prop} (d : Defect) : Grows R b K Q (defect d) := .throw _

theorem grows_report (l : Location) (p : Problem) : Grows R b K (fun _ => True) (report l p) :=
  .modify fun _ h => h

theorem grows_reject (l : Location) (p : Problem) : Grows R b K (Rooted? R) (reject l p) :=
  (grows_report l p).bind fun _ _ => .pure rooted?_none

theorem grows_fatal {Q : α → Prop} (l : Location) (p : Problem) : Grows R b K Q (fatal l p) :=
  (Throughout.modify fun _ h => h).bind fun _ _ => .throw _

theorem grows_typeOf? (id : IrId) : Grows R b K (Rooted? R) (typeOf? id) :=
  .get fun _ h => .pure fun ty hty => h.rooted id ty hty

theorem grows_return? : Grows R b K (Rooted? R) return? :=
  .get fun _ h => .pure fun ty hty => h.returns ty (List.mem_of_mem_head? hty)

theorem grows_record {id : IrId} {t : Ty} (hid : K id) (ht : t.Rooted R) :
    Grows R b K (fun _ => True) (record id t) := by
  refine .modify fun p h => ⟨h.builtins, h.builtinIds, fun other ty hty => ?_, h.returns,
    fun other hother => ?_⟩
  · have hty : (p.types.record id t).get? other = some ty := hty
    rw [TypeTable.get?_record] at hty
    split at hty
    · cases hty
      exact ht
    · exact h.rooted other ty hty
  · show (p.types.record id t).get? other = b.get? other
    rw [TypeTable.get?_record, if_neg (fun he : other = id => hother (he ▸ hid))]
    exact h.kept other hother

theorem grows_recording {id : IrId} {m : Check (Option Ty)} (hid : K id)
    (h : Grows R b K (Rooted? R) m) : Grows R b K (Rooted? R) (recording id m) := by
  refine h.bind fun r hr => ?_
  cases r with
  | none => exact .pure rooted?_none
  | some t => exact (grows_record hid hr.some).bind fun _ _ => .pure hr

theorem grows_reconcile {x y : Ty} (hx : x.Rooted R) (hy : y.Rooted R) (l : Location) :
    Grows R b K (Rooted? R) (reconcile x y l) := by
  have hcombine : Grows R b K (fun r => ∀ t, r = .ok t → t.Rooted R) (combine x y) := by
    refine (Throughout.modify fun _ h => h).bind fun _ _ => .pure fun t ht => ?_
    unfold Ty.combine at ht
    cases hc : x.combine? y with
    | none =>
      rw [hc] at ht
      cases ht
    | some c =>
      rw [hc] at ht
      cases ht
      exact hx.combine? hy hc
  refine hcombine.bind fun r hr => ?_
  cases r with
  | ok t => exact .pure (rooted?_some (hr t rfl))
  | error m => exact grows_reject l _

theorem grows_fits {x : Ty} {r : Option Ty} (hx : x.Rooted R) (hr : Rooted? R r) (l : Location) :
    Grows R b K (fun _ => True) (fits x r l) := by
  cases r with
  | none => exact .pure trivial
  | some t => exact (grows_reconcile hx hr.some l).bind fun _ _ => .pure trivial

theorem grows_inFunction {Q : α → Prop} {t : Ty} {m : Check α} (ht : t.Rooted R)
    (h : Grows R b K Q m) : Grows R b K Q (inFunction t m) := by
  intro p hp
  have hpush : Grown R b K (p.types.pushReturn t) :=
    ⟨hp.builtins, hp.builtinIds, hp.rooted, List.forall_mem_cons.2 ⟨ht, hp.returns⟩, hp.kept⟩
  obtain ⟨hstate, hresult⟩ := h (s := { p with types := p.types.pushReturn t }) hpush
  exact ⟨⟨hstate.builtins, hstate.builtinIds, hstate.rooted,
    fun ty hty => hstate.returns ty (List.mem_of_mem_tail hty), hstate.kept⟩, hresult⟩

/-! ## Names -/

theorem grows_identifier (e : Expr) (isTarget : Bool) :
    Grows R b K (Rooted? R) (identifier s e isTarget) := by
  unfold identifier
  split
  · exact grows_reject _ _
  · refine (grows_typeOf? _).bind fun r hr => ?_
    cases r with
    | none => exact grows_reject _ _
    | some t =>
      dsimp only
      split
      · exact grows_reject _ _
      · exact .pure hr

theorem grows_calleeType (e callee : Expr) : Grows R b K (Rooted? R) (calleeType s e callee) := by
  unfold calleeType
  split
  · exact grows_reject _ _
  · split
    · exact grows_reject _ _
    · refine (grows_typeOf? _).bind fun r hr => ?_
      cases r with
      | none => exact grows_reject _ _
      | some t => exact .pure hr

theorem grows_structType (e : Expr) (path : StructPath) :
    Grows R b K (Rooted? R) (structType s e path) := by
  unfold structType
  split
  · exact grows_reject _ _
  · split
    · exact grows_reject _ _
    · refine (grows_typeOf? _).bind fun r hr => ?_
      cases r with
      | none => exact grows_reject _ _
      | some t => exact .pure hr

theorem grows_literal (hf : Footed R b) (lit : Literal) :
    Grows R b K (·.Rooted R) (literal lit) := by
  refine .get fun p hp => ?_
  cases ht : p.types.builtin? lit.primitive.name with
  | none => exact grows_defect _
  | some t =>
    have hname : b.builtin? lit.primitive.name = some t := by
      rw [← ht, TypeTable.builtin?, TypeTable.builtin?, hp.builtins]
    exact .pure (hf _ t hname)

/-! ## Several types at once -/

theorem grows_settle : ∀ {types : List (Ty × Location)} {element : Ty}, element.Rooted R →
    (∀ t ∈ types, t.1.Rooted R) → Grows R b K (Rooted? R) (settle element types)
  | [], _, he, _ => .pure (rooted?_some he)
  | (t, l) :: rest, _, he, ht => by
    obtain ⟨hfirst, hrest⟩ := List.forall_mem_cons.1 ht
    refine (grows_reconcile he hfirst l).bind fun r hr => ?_
    cases r with
    | none => exact .pure rooted?_none
    | some next => exact grows_settle hr.some hrest

theorem grows_missingFields (l : Location) (struct : String) (given : List String) :
    ∀ decls : Members, Grows R b K (fun _ => True) (missingFields l struct given decls)
  | .nil => .pure trivial
  | .cons name t rest => by
    unfold missingFields
    split
    · exact grows_missingFields l struct given rest
    · exact (grows_report l _).bind fun _ _ =>
        (grows_missingFields l struct given rest).discard.bind fun _ _ => .pure trivial

theorem grows_fieldInit {h : Head} {declared value : Option Ty} (p : Problem) (hid : K h.id.ir)
    (hd : Rooted? R declared) (hv : Rooted? R value) :
    Grows R b K (fun _ => True) (fieldInit h declared p value) := by
  cases declared with
  | none => exact (grows_report _ p).bind fun _ _ => .pure trivial
  | some t =>
    cases value with
    | none => exact .pure trivial
    | some v =>
      exact (grows_recording hid (grows_reconcile hd.some hv.some _)).bind fun _ _ => .pure trivial

theorem grows_checkIndex (id : IrId) (position : Option Ty) :
    Grows R b K (fun _ => True) (checkIndex id position) := by
  cases position with
  | none => exact .pure trivial
  | some t =>
    -- what an index combines to is dropped, so it need not be rooted
    have hcombine : Grows R b K (fun _ => True) (combine (.int id .w32) t) :=
      (Throughout.modify fun _ h => h).bind fun _ _ => .pure trivial
    refine hcombine.bind fun r _ => ?_
    cases r with
    | ok _ => exact .pure trivial
    | error m => exact grows_defect _

theorem grows_combined {l : Location} {lhs rhs : Option Ty} (hl : Rooted? R lhs)
    (hr : Rooted? R rhs) : Grows R b K (Rooted? R) (combined l lhs rhs) := by
  unfold combined
  split
  · exact grows_reconcile hl.some hr.some l
  · exact .pure rooted?_none

theorem grows_branches {expected : Ty} {thenType elseType : Option Ty} (he : expected.Rooted R)
    (h₁ : Rooted? R thenType) (h₂ : Rooted? R elseType) (l₁ l₂ : Location) :
    Grows R b K (Rooted? R) (branches expected thenType elseType l₁ l₂) := by
  unfold branches
  split
  · refine (grows_reconcile he h₁.some l₁).bind fun r hr => ?_
    cases r with
    | none => exact .pure rooted?_none
    | some t => exact grows_reconcile hr.some h₂.some l₂
  · exact .pure rooted?_none

theorem grows_elementOf {base : Option Ty} (hb : Rooted? R base) (position : Option Ty)
    (l : Location) : Grows R b K (Rooted? R) (elementOf base position l) := by
  unfold elementOf
  split
  · have hr := hb.some
    exact .pure (rooted?_some hr)
  · exact .pure (rooted?_some (Ty.rooted_error _))
  · exact grows_fatal l _
  · exact .pure rooted?_none

theorem rooted_of_mapM {types : List (Option Ty)} :
    ∀ {ts : List Ty}, (∀ r ∈ types, Rooted? R r) → types.mapM id = some ts →
      ∀ t ∈ ts, t.Rooted R := by
  induction types with
  | nil =>
    rintro _ _ ⟨⟩
    exact nofun
  | cons r types ih =>
    intro ts h hts
    obtain ⟨hr, hrest⟩ := List.forall_mem_cons.1 h
    rw [List.mapM_cons] at hts
    cases r with
    | none => cases hts
    | some t =>
      cases hus : types.mapM id with
      | none =>
        rw [hus] at hts
        cases hts
      | some us =>
        rw [hus] at hts
        cases hts
        exact List.forall_mem_cons.2 ⟨hr.some, ih hrest hus⟩

theorem grows_arrayOf (id : IrId) {first : Option Ty} {rest : List (Option Ty)}
    (hf : Rooted? R first) (hr : ∀ r ∈ rest, Rooted? R r) (loci : List Location) :
    Grows R b K (Rooted? R) (arrayOf id first rest loci) := by
  unfold arrayOf
  split
  · rename_i t types htypes
    have hzip : ∀ p ∈ types.zip loci, p.1.Rooted R := fun p hp =>
      rooted_of_mapM hr htypes p.1 (List.of_mem_zip hp).1
    refine (grows_settle hf.some hzip).bind fun r hr => ?_
    cases r with
    | none => exact .pure rooted?_none
    | some element =>
      have helement := hr.some
      exact .pure (rooted?_some helement)
  · exact .pure rooted?_none

theorem grows_letType (id : IrId) {annotated : Option Ty} {init : Option (Option Ty × Location)}
    (ha : Rooted? R annotated) (hi : ∀ v ∈ init, Rooted? R v.1) :
    Grows R b K (·.Rooted R) (letType id annotated init) := by
  unfold letType
  split
  · refine (grows_reconcile ha.some (hi _ rfl).some _).bind fun r hr => ?_
    cases r with
    | none => exact .pure ha.some
    | some both => exact .pure hr.some
  · exact .pure ha.some
  · exact .pure (hi _ rfl).some
  · exact .pure trivial
  · exact .pure trivial

theorem grows_settleDeclaration {target : Expr} (hd : ∀ id, declaration s target = .ok id → K id)
    (before : Ty) {after : Ty} (ha : after.Rooted R) :
    Grows R b K (fun _ => True) (settleDeclaration s target before after) := by
  unfold settleDeclaration
  split
  · split
    · rename_i id hid
      exact grows_record (hd id hid) ha
    · exact .pure trivial
  · exact .pure trivial

theorem grows_assigned (h : Head) {target : Expr} {tt vt : Option Ty} (hid : K target.ir)
    (hd : ∀ id, declaration s target = .ok id → K id) (ht : Rooted? R tt) (hv : Rooted? R vt) :
    Grows R b K (Rooted? R) (assigned s h target tt vt) := by
  unfold assigned
  split
  · refine (grows_recording hid (grows_reconcile ht.some hv.some h.locus)).bind fun r hr => ?_
    cases r with
    | none => exact .pure rooted?_none
    | some t => exact (grows_settleDeclaration hd _ hr.some).bind fun _ _ => .pure hr
  · exact .pure rooted?_none

/-! ## Annotations -/

theorem grows_typeExpr : ∀ {a : TypeExpr}, (∀ id ∈ a.ids, K id) →
    Grows R b K (·.Rooted R) (typeExpr s a)
  | .unit h, hk => by
    rw [typeExpr]
    exact (grows_record (hk _ List.mem_cons_self) (Ty.rooted_unit _)).bind fun _ _ =>
      .pure (Ty.rooted_unit _)
  | .array h element capacity, hk => by
    obtain ⟨hid, helement⟩ := List.forall_mem_cons.1 hk
    rw [typeExpr]
    refine (grows_typeExpr helement).bind fun t ht => ?_
    have harray : (Ty.array h.id.ir t capacity.toNat).Rooted R := ht
    exact (grows_record hid harray).bind fun _ _ => .pure harray
  | .path h name, hk => by
    have hid := hk _ List.mem_cons_self
    rw [typeExpr]
    refine .get fun p hp => ?_
    split
    · rename_i t ht
      obtain ⟨id, _, hget⟩ := Option.bind_eq_some_iff.1 ht
      have hrooted := hp.rooted id t hget
      exact (grows_record hid hrooted).bind fun _ _ => .pure hrooted
    · exact (grows_report _ _).bind fun _ _ =>
        (grows_record hid (Ty.rooted_error _)).bind fun _ _ => .pure (Ty.rooted_error _)

theorem grows_typeExpr? : ∀ {a : Option TypeExpr}, (∀ id ∈ TypeExpr.idsOf a, K id) →
    Grows R b K (Rooted? R) (typeExpr? s a)
  | none, _ => .pure rooted?_none
  | some _, hk => (grows_typeExpr hk).bind fun _ ht => .pure (rooted?_some ht)

/-! ## Expressions -/

/-- What the target of `e` is bound to, if `e` is an assignment, is in `K`. -/
def OwnTarget (K : IrId → Prop) (s : Scope) (e : Expr) : Prop :=
  ∀ h target value id, e = .assign h target value → declaration s target = .ok id → K id

/-- Up to the record of its own type, checking the expression keeps tables rooted wherever the parts
in it are confined to `K`. -/
def Growing (R : Roots) (b : TypeTable) (K : IrId → Prop) (s : Scope) (e : Expr) (final : Bool) :
    Prop :=
  Confined K s e.parts.tail → OwnTarget K s e →
    ∃ m, expr s e final = recording e.ir m ∧ Grows R b K (Rooted? R) m

theorem growing_of {e : Expr} {final : Bool} {m : Check (Option Ty)}
    (he : expr s e final = recording e.ir m)
    (h : Confined K s e.parts.tail → OwnTarget K s e → Grows R b K (Rooted? R) m) :
    Growing R b K s e final :=
  fun hk ht => ⟨m, he, h hk ht⟩

theorem Growing.grows {e : Expr} {final : Bool} (h : Growing R b K s e final)
    (hk : Confined K s e.parts) : Grows R b K (Rooted? R) (expr s e final) := by
  have hown : OwnTarget K s e := by
    rintro g target value id rfl
    exact hk.targets g target value id (Expr.self_mem_parts _)
  obtain ⟨m, he, hm⟩ := h (hk.mono (List.tail_sublist _).subset) hown
  rw [he]
  exact grows_recording hk.node hm

mutual

theorem growing_expr (hf : Footed R b) : ∀ (e : Expr) (final : Bool), Growing R b K s e final
  | .literal h lit, _ => by
    refine growing_of (by rw [expr]; rfl) fun _ _ => ?_
    exact (grows_literal hf lit).bind fun _ ht => .pure (rooted?_some ht)
  | .identifier h name, _ => by
    exact growing_of (by rw [expr]; rfl) fun _ _ => grows_identifier _ false
  | .ret h none, _ => by
    refine growing_of (by rw [expr]; rfl) fun _ _ => grows_return?.bind fun r hr => ?_
    cases r with
    | none => exact grows_defect _
    | some result => exact grows_reconcile hr.some (Ty.rooted_unit _) h.locus
  | .ret h (some value), _ => by
    refine growing_of (by rw [expr]; rfl) fun hk _ => grows_return?.bind fun r hr => ?_
    cases r with
    | none => exact grows_defect _
    | some result =>
      refine ((growing_expr hf value false).grows hk).bind fun v hv => ?_
      cases v with
      | none => exact .pure rooted?_none
      | some t => exact grows_reconcile hr.some hv.some h.locus
  | .call h callee args, _ => by
    refine growing_of (by rw [expr]; rfl) fun hk _ =>
      (grows_calleeType _ callee).bind fun r hr => ?_
    cases r with
    | none => exact .pure rooted?_none
    | some t =>
      cases t with
      | error r =>
        exact (grows_exprs hf args hk.tail).discard.bind fun _ _ =>
          .pure (rooted?_some (Ty.rooted_error _))
      | fn r params result =>
        obtain ⟨hparams, hresult⟩ := hr.some
        dsimp only
        split
        · exact grows_reject h.locus _
        · refine (grows_arguments hf params args hparams hk.tail).bind fun ok _ => .pure ?_
          cases ok with
          | false => exact rooted?_none
          | true => exact rooted?_some hresult
      | _ => exact grows_reject h.locus _
  | .assign h target value, _ => by
    by_cases hn : ∀ g name, target ≠ .identifier g name
    · refine growing_of (by rw [expr_assign hn]; rfl) fun hk ht => ?_
      exact ((growing_expr hf target false).grows hk.left).bind fun tt htt =>
        ((growing_expr hf value false).grows hk.right).bind fun vt hvt =>
        grows_assigned h hk.left.node (fun id => ht h target value id rfl) htt hvt
    · obtain ⟨g, name, rfl⟩ : ∃ g name, target = .identifier g name := by simpa using hn
      refine growing_of (by rw [expr]; rfl) fun hk ht => ?_
      have hir : K g.id.ir := hk.left.node (e := .identifier g name)
      exact (grows_recording hir (grows_identifier _ true)).bind fun tt htt =>
        ((growing_expr hf value false).grows hk.right).bind fun vt hvt =>
        grows_assigned h hir (fun id => ht h _ value id rfl) htt hvt
  | .binary h op lhs rhs, _ => by
    refine growing_of (by rw [expr]; rfl) fun hk _ => ?_
    exact ((growing_expr hf lhs false).grows hk.left).bind fun l hl =>
      ((growing_expr hf rhs false).grows hk.right).bind fun r hr => grows_combined hl hr
  | .ifOnly h condition body, _ => by
    refine growing_of (by rw [expr]; rfl) fun hk _ => ?_
    exact ((growing_expr hf condition false).grows hk.left).discard.bind fun _ _ =>
      ((growing_expr hf body false).grows hk.right).discard.bind fun _ _ =>
      .pure (rooted?_some (Ty.rooted_unit _))
  | .ifElse h condition thenBody elseBody, false => by
    refine growing_of (by rw [expr]; rfl) fun hk _ => ?_
    exact ((growing_expr hf condition false).grows hk.left).discard.bind fun _ _ =>
      ((growing_expr hf thenBody false).grows hk.right.left).discard.bind fun _ _ =>
      ((growing_expr hf elseBody false).grows hk.right.right).discard.bind fun _ _ =>
      .pure (rooted?_some (Ty.rooted_unit _))
  | .ifElse h condition thenBody elseBody, true => by
    refine growing_of (by rw [expr]; rfl) fun hk _ => grows_return?.bind fun r hr => ?_
    cases r with
    | none => exact grows_defect _
    | some expected =>
      exact ((growing_expr hf condition false).grows hk.left).discard.bind fun _ _ =>
        ((growing_expr hf thenBody true).grows hk.right.left).bind fun tt htt =>
        ((growing_expr hf elseBody true).grows hk.right.right).bind fun et het =>
        grows_branches hr.some htt het thenBody.locus elseBody.locus
  | .ifElseIf h condition thenBody elseIf, _ => by
    refine growing_of (by rw [expr]; rfl) fun hk _ => ?_
    exact ((growing_expr hf condition false).grows hk.left).discard.bind fun _ _ =>
      ((growing_expr hf thenBody false).grows hk.right.left).discard.bind fun _ _ =>
      ((growing_expr hf elseIf false).grows hk.right.right).discard.bind fun _ _ =>
      .pure (rooted?_some (Ty.rooted_unit _))
  | .block h body none, _ => by
    refine growing_of (by rw [expr]; rfl) fun hk _ => ?_
    exact (grows_stmts hf body hk).bind fun _ _ => .pure (rooted?_some (Ty.rooted_unit _))
  | .block h body (some tail), final => by
    refine growing_of (by rw [expr]; rfl) fun hk _ => ?_
    exact (grows_stmts hf body hk.left).bind fun _ _ => (growing_expr hf tail final).grows hk.right
  | .index h base position, _ => by
    refine growing_of (by rw [expr]; rfl) fun hk _ => ?_
    exact ((growing_expr hf position false).grows hk.right).bind fun pt _ =>
      (grows_checkIndex position.ir pt).bind fun _ _ =>
      ((growing_expr hf base false).grows hk.left).bind fun _ hbt =>
      grows_elementOf hbt pt base.locus
  | .array h [], _ => by
    exact growing_of (by rw [expr]; rfl) fun _ _ => grows_reject h.locus _
  | .array h (first :: rest), _ => by
    refine growing_of (by rw [expr]; rfl) fun hk _ => ?_
    exact ((growing_expr hf first false).grows hk.left).bind fun ft hft =>
      (grows_exprs hf rest hk.right).bind fun types htypes =>
      grows_arrayOf h.id.ir hft htypes (rest.map Expr.locus)
  | .copies h element count, _ => by
    refine growing_of (by rw [expr]; rfl) fun hk _ =>
      ((growing_expr hf element false).grows hk).bind fun r hr => ?_
    cases r with
    | none => exact .pure rooted?_none
    | some t =>
      have harray : (Ty.array h.id.ir t count.toNat).Rooted R := hr.some
      exact .pure (rooted?_some harray)
  | .struct h path fields, _ => by
    refine growing_of (by rw [expr]; rfl) fun hk _ =>
      (grows_structType _ path).bind fun r hr => ?_
    cases r with
    | none => exact .pure rooted?_none
    | some t =>
      cases t with
      | struct r name decls =>
        refine (grows_fieldInits hf name fields hr.some.2 hk.tail).bind fun ok _ =>
          (grows_missingFields h.locus name (fields.map FieldInit.name) decls).bind fun full _ =>
          .pure ?_
        cases ok <;> cases full <;> first | exact hr | exact rooted?_none
      | _ => exact grows_reject h.locus _

theorem grows_exprs (hf : Footed R b) : ∀ es : List Expr, Confined K s (Expr.partsAll es) →
    Grows R b K (fun rs => ∀ r ∈ rs, Rooted? R r) (exprs s es)
  | [], _ => .pure nofun
  | e :: rest, hk => by
    rw [exprs]
    exact ((growing_expr hf e false).grows hk.left).bind fun _ hr =>
      (grows_exprs hf rest hk.right).bind fun _ hrs => .pure (List.forall_mem_cons.2 ⟨hr, hrs⟩)

theorem grows_arguments (hf : Footed R b) : ∀ (params : Members) (es : List Expr),
    params.Rooted R → Confined K s (Expr.partsAll es) →
      Grows R b K (fun _ => True) (arguments s params es)
  | .nil, _, _, _ => by
    rw [arguments]
    · exact .pure trivial
    · simp
  | .cons _ _ _, [], _, _ => .pure trivial
  | .cons _ param params, e :: rest, hp, hk => by
    rw [arguments]
    exact ((growing_expr hf e false).grows hk.left).bind fun _ ht =>
      (grows_fits hp.1 ht e.locus).bind fun _ _ =>
      (grows_arguments hf params rest hp.2 hk.right).bind fun _ _ => .pure trivial

theorem grows_fieldInits (hf : Footed R b) (struct : String) {decls : Members} :
    ∀ fs : List FieldInit, decls.Rooted R → Confined K s (FieldInit.partsAll fs) →
      Grows R b K (fun _ => True) (fieldInits s struct decls fs)
  | [], _, _ => .pure trivial
  | .mk h name value :: rest, hd, hk => by
    have hid : K h.id.ir := hk.nodes _ (List.mem_cons_self ..) _ (List.mem_singleton_self _)
    have hdeclared : Rooted? R (decls.find? name) := fun _ ht => hd.find? ht
    rw [fieldInits]
    exact ((growing_expr hf value false).grows hk.tail.left).bind fun _ ht =>
      (grows_fieldInit _ hid hdeclared ht).bind fun _ _ =>
      (grows_fieldInits hf struct rest hd hk.tail.right).bind fun _ _ => .pure trivial

theorem grows_stmt (hf : Footed R b) : ∀ st : Stmt, Confined K s st.parts →
    Grows R b K (fun _ => True) (stmt s st)
  | .expr e, hk => by
    rw [stmt]
    exact ((growing_expr hf e false).grows hk).discard
  | .bind h pattern annotated none, hk => by
    have hids := hk.nodes _ (List.mem_cons_self ..)
    have hid := hids _ (List.mem_cons_self ..)
    have hpattern := hids _ (List.mem_cons_of_mem _ (List.mem_singleton_self _))
    rw [stmt]
    exact (grows_typeExpr? hk.tail.ascribed).bind fun _ ha =>
      (grows_letType h.id.ir ha fun _ hv => absurd hv (Option.not_mem_none _)).bind fun _ ht =>
      (grows_record hpattern ht).bind fun _ _ => grows_record hid ht
  | .bind h pattern annotated (some init), hk => by
    have hids := hk.nodes _ (List.mem_cons_self ..)
    have hid := hids _ (List.mem_cons_self ..)
    have hpattern := hids _ (List.mem_cons_of_mem _ (List.mem_singleton_self _))
    rw [stmt]
    exact (grows_typeExpr? hk.tail.left.ascribed).bind fun _ ha =>
      ((growing_expr hf init false).grows hk.tail.right).bind fun v hv =>
      (grows_letType h.id.ir ha fun w hw => Option.some.inj hw ▸ hv).bind fun _ ht =>
      (grows_record hpattern ht).bind fun _ _ => grows_record hid ht

theorem grows_stmts (hf : Footed R b) : ∀ sts : List Stmt, Confined K s (Stmt.partsAll sts) →
    Grows R b K (fun _ => True) (stmts s sts)
  | [], _ => .pure trivial
  | st :: rest, hk => by
    rw [stmts]
    exact (grows_stmt hf st hk.left).bind fun _ _ => grows_stmts hf rest hk.right

end

/-! ## Programs -/

theorem grows_params : ∀ {ps : List Param}, (∀ id ∈ ps.flatMap Param.ids, K id) →
    Grows R b K (·.Rooted R) (params s ps)
  | [], _ => .pure trivial
  | p :: rest, hk => by
    simp only [List.flatMap_cons, Param.ids_eq, List.forall_mem_append, List.forall_mem_cons] at hk
    obtain ⟨⟨hid, hpattern, htype⟩, hrest⟩ := hk
    rw [params]
    exact (grows_typeExpr htype).bind fun _ ht => (grows_record hid ht).bind fun _ _ =>
      (grows_record hpattern ht).bind fun _ _ =>
      (grows_params hrest).bind fun _ hms => .pure ⟨ht, hms⟩

theorem grows_fieldDecls : ∀ {fs : List FieldDecl}, (∀ id ∈ fs.flatMap FieldDecl.ids, K id) →
    Grows R b K (fun ms => ms.Rooted R ∧ ms.names = fs.map FieldDecl.name) (fieldDecls s fs)
  | [], _ => .pure ⟨trivial, rfl⟩
  | f :: rest, hk => by
    simp only [List.flatMap_cons, FieldDecl.ids_eq, List.forall_mem_append,
      List.forall_mem_cons] at hk
    obtain ⟨⟨hid, htype⟩, hrest⟩ := hk
    rw [fieldDecls]
    refine (grows_typeExpr htype).bind fun t ht => ?_
    have hfield : (Ty.field f.head.id.ir f.name t).Rooted R := ht
    exact (grows_record hid hfield).bind fun _ _ =>
      (grows_fieldDecls hrest).bind fun _ hms =>
        .pure ⟨⟨ht, hms.1⟩, congrArg (f.name :: ·) hms.2⟩

theorem grows_functionType (id : IrId) {d : FunctionDecl}
    (hp : ∀ id ∈ d.params.flatMap Param.ids, K id)
    (hr : ∀ id ∈ TypeExpr.idsOf d.returns, K id) :
    Grows R b K (·.Rooted R) (functionType s id d) := by
  refine (grows_params hp).bind fun ps hps => ?_
  cases hreturns : d.returns with
  | none => exact .pure ⟨hps, trivial⟩
  | some t =>
    rw [hreturns] at hr
    exact (grows_typeExpr hr).bind fun _ ht => .pure ⟨hps, ht⟩

/-- What an item needs for its type to be rooted: a struct item is a root. -/
def RootedItem (R : Roots) (i : Item) : Prop :=
  ∀ d ms, i.kind = .struct d → ms.names = d.fields.map FieldDecl.name →
    R.struct i.head.id.ir d.name ms

theorem grows_signature {i : Item} (hR : RootedItem R i) (hk : ∀ id ∈ i.signatureIds, K id) :
    Grows R b K (fun _ => True) (signature s i) := by
  have htype : Grows R b K (·.Rooted R) (signatureType s i) := by
    obtain ⟨h, k⟩ := i
    obtain ⟨hid, hk⟩ := List.forall_mem_cons.1 hk
    cases k with
    | function d =>
      obtain ⟨hp, hr⟩ := List.forall_mem_append.1 hk
      exact grows_functionType _ hp hr
    | struct d => exact (grows_fieldDecls hk).bind fun ms hms => .pure ⟨hR d ms rfl hms.2, hms.1⟩
    | constant d => exact grows_typeExpr hk
    | static d => exact grows_typeExpr hk
  exact htype.bind fun _ ht => grows_record (hk _ i.head_mem_signatureIds) ht

theorem grows_functionBody (hf : Footed R b) (id : IrId) {d : FunctionDecl}
    (hk : Confined K s d.body.parts) : Grows R b K (fun _ => True) (functionBody s id d) := by
  refine (grows_typeOf? id).bind fun r hr => ?_
  split
  · have hresult := hr.some.2
    have hbody := (growing_expr hf d.body true).grows hk
    refine (grows_note _).bind fun _ _ => (grows_inFunction hresult hbody).bind fun _ hty => ?_
    split
    · exact (grows_reconcile hresult hty.some _).discard
    · exact .pure trivial
  · exact grows_defect _

theorem grows_initialValue (hf : Footed R b) (i : Item) {value : Expr}
    (hk : Confined K s value.parts) : Grows R b K (fun _ => True) (initialValue s i value) := by
  refine (grows_typeOf? i.head.id.ir).bind fun r hr => ?_
  cases r with
  | none => exact grows_defect _
  | some declared =>
    refine ((growing_expr hf value false).grows hk).bind fun v hv => ?_
    cases v with
    | none => exact .pure trivial
    | some t => exact (grows_reconcile hr.some hv.some _).discard

theorem grows_body (hf : Footed R b) {i : Item} (hk : Confined K s i.bodyParts) :
    Grows R b K (fun _ => True) (body s i) := by
  obtain ⟨h, k⟩ := i
  cases k with
  | function d => exact grows_functionBody hf _ hk
  | struct d => exact .pure trivial
  | constant d => exact grows_initialValue hf _ hk
  | static d => exact grows_initialValue hf _ hk

theorem grows_program (hf : Footed R b) (hd : ∀ site id, s.registry.node? site = some id → K id)
    {p : Program} (hR : ∀ i ∈ p.items, RootedItem R i) (hk : ∀ id ∈ p.ids, K id) :
    Grows R b K (fun _ => True) (program s p) := by
  have hsignature : ∀ i ∈ p.items, ∀ id ∈ i.signatureIds, K id := fun i hi id hid =>
    hk id (Program.mem_ids_of_item hi (i.ids_eq ▸ List.mem_append_left _ hid))
  have hbody : ∀ i ∈ p.items, Confined K s i.bodyParts := fun i hi =>
    { nodes := fun part hpart id hid => by
        have hbody : id ∈ i.bodyIds := i.irsAll_bodyParts ▸ List.mem_flatMap.2 ⟨part, hpart, hid⟩
        exact hk id (Program.mem_ids_of_item hi (i.ids_eq ▸ List.mem_append_right _ hbody))
      targets := fun h target value id _ hid => by
        obtain ⟨site, hsite⟩ := declaration_ok hid
        exact hd site id hsite }
  have hmem : ∀ i ∈ signatureOrder p.items, i ∈ p.items := fun i hi =>
    (List.mem_append.1 hi).elim (fun h => (List.mem_filter.1 h).1) fun h => (List.mem_filter.1 h).1
  exact (grows_note _).bind fun _ _ =>
    (Throughout.forM fun i hi => grows_signature (hR i (hmem i hi)) (hsignature i (hmem i hi))).bind
      fun _ _ => .forM fun i hi => grows_body hf (hbody i hi)

end Check

/-! ## Sessions -/

namespace Session

/-- The roots of a unit: the primitive types known before any check, and the struct items. -/
def roots (u : CompilationUnit) : Roots where
  primitive r q := (ofUnit u).types.get? r = some (.ofPrimitive r q)
  struct r name fields := ∃ i ∈ u.program.items, ∃ d, i.kind = .struct d ∧ i.head.id.ir = r ∧
    d.name = name ∧ fields.names = d.fields.map FieldDecl.name

variable {u : CompilationUnit}

theorem grown_ofUnit (hroom : (ofUnit u).HasRoom) :
    Check.Grown (roots u) (ofUnit u).types (· ∈ u.program.ids) (ofUnit u).types where
  builtins := rfl
  builtinIds := rfl
  rooted id ty hty := by
    rcases (based hroom).known hty with hunit | ⟨b, _, _, rfl⟩
    · exact Ty.rooted_of_isUnit hunit
    · exact Ty.rooted_ofPrimitive.2 hty
  returns ty hty := by
    rw [(based hroom).returns] at hty
    cases hty
  kept _ _ := rfl

theorem footed_ofUnit (hroom : (ofUnit u).HasRoom) :
    Check.Footed (roots u) (ofUnit u).types := by
  intro name ty h
  rcases (based hroom).named h with ⟨_, hunit⟩ | ⟨b, hb, _, r, hr, rfl⟩
  · exact Ty.rooted_of_isUnit hunit
  · obtain ⟨r', hr', hget⟩ := (based hroom).listed b hb
    cases hr.symm.trans hr'
    exact Ty.rooted_ofPrimitive.2 hget

/-- However often a unit is checked, and whatever comes of it, all types stay rooted. -/
theorem rooted_checks (hroom : (ofUnit u).HasRoom) : ∀ n,
    Check.Grown (roots u) (ofUnit u).types (· ∈ u.program.ids) ((ofUnit u).checks n).types
  | 0 => grown_ofUnit hroom
  | n + 1 => by
    have hprogram : Check.Grows (roots u) (ofUnit u).types (· ∈ u.program.ids) (fun _ => True)
        (Check.program ((ofUnit u).checks n).scope ((ofUnit u).checks n).program) := by
      rw [checks_scope, checks_program, ofUnit_program]
      exact Check.grows_program (footed_ofUnit hroom) (fun _ _ => mem_ids_of_node?)
        (fun i hi d _ hd hnames => ⟨i, hi, d, hd, rfl, rfl, hnames⟩) fun _ h => h
    exact (hprogram (rooted_checks hroom n)).1

end Session

end MiddleEnd
