/-
  Type soundness of a clean check. The first check of a unit with distinct identities and proper
  bindings, where it reports nothing, leaves a table that types the whole program if and only if
  assignments to a variable agree with the assignments to it inside their values
  (`Session.typed_iff`).

  A single assignment settles a variable that has no type yet. Its target is looked at before its
  value, so that an assignment inside the value settles the variable first, and the outer one
  settles it again, to another type perhaps: `{ let x; x = { x = 5; }; }` is reported clean.
-/
import MiddleEnd.Proofs.Check.Binding
import MiddleEnd.Proofs.Check.Signatures
import MiddleEnd.Proofs.Syntax.Samples

namespace MiddleEnd

namespace Check

variable {s : Scope} {b T : TypeTable}

/-! ## Items -/

/-- The signatures of a program whose nodes are variables (`V`), firm (`F`) or others. -/
structure SignaturesPlaced (s : Scope) (b : TypeTable) (V F : IrId → Prop) (p : Program) :
    Prop where
  separate : ∀ id, F id → ¬ V id
  firm : ∀ i ∈ p.items, ∀ id ∈ i.firm, F id
  signatures : ∀ i ∈ p.items, Placed s b V F (Part.irsAll i.signatureParts) i.signatureParts

/-- The items of such a program. -/
structure ItemsPlaced (s : Scope) (b : TypeTable) (V F : IrId → Prop) (p : Program) : Prop
    extends SignaturesPlaced s b V F p where
  bodies : ∀ i ∈ p.items, Placed s b V F (Part.irsAll i.bodyParts) i.bodyParts

/-- Tables with the signatures of some items left to record. -/
structure Signing (b : TypeTable) (F : IrId → Prop) (p : Program) (l : List Item)
    (t : TypeTable) : Prop where
  good : Good b F t
  outside : t.returns = []
  items : ∀ i ∈ l, i ∈ p.items
  unrecorded : Unrecorded (l.flatMap Item.signatureIds ++ p.items.flatMap Item.bodyIds) t

/-- Tables with the bodies of some items left to check. -/
structure Fitting (b : TypeTable) (F : IrId → Prop) (p : Program) (l : List Item)
    (t : TypeTable) : Prop where
  good : Good b F t
  outside : t.returns = []
  items : ∀ i ∈ l, i ∈ p.items
  unrecorded : Unrecorded (l.flatMap Item.bodyIds) t

variable {V F : IrId → Prop} {p : Program}

theorem SignaturesPlaced.sign (hp : SignaturesPlaced s b V F p) {t u : TypeTable} {i : Item} {l : List Item}
    (hi : Signing b F p (i :: l) t) (h : Signs s t i u) :
    Signing b F p l u ∧ (Knows V u T →
      Knows V t T ∧ ∃ ty, TypedSignature s T i ty ∧ T.get? i.head.id.ir = some ty) := by
  obtain ⟨ty, v, h, rfl⟩ := h
  have hm := hi.items i (List.mem_cons_self ..)
  have hvar : ∀ id ∈ i.firm, ¬ V id := fun id hid => hp.separate id (hp.firm i hm id hid)
  have hall := hi.unrecorded
  rw [List.flatMap_cons, List.append_assoc] at hall
  have hcons : i.signatureIds = i.head.id.ir :: i.signatureIds.tail := rfl
  rw [hcons, List.cons_append] at hall
  obtain ⟨⟨hg, hc⟩, hk⟩ := h.typed (T := T) hp.separate hvar (hp.signatures i hm) hi.good
    hall.tail.left
  have hrest := hall.rotate.after (h.frame (P := (· ∈ i.signatureIds.tail)) fun _ hid => hid).none
  refine ⟨⟨hg.record (.inl hc), ?_, fun j hj => hi.items j (List.mem_cons_of_mem _ hj),
    hrest.record ty⟩, ?_⟩
  · exact (h.setting.returns).trans hi.outside
  · intro hku
    obtain ⟨hty, hkt⟩ := hk (hku.of_record hrest.head)
    exact ⟨hkt, ty, hty, hku.get?_self hc (hvar _ i.head_mem_firm)⟩

theorem ItemsPlaced.fit (hp : ItemsPlaced s b V F p) {t u : TypeTable} {i : Item} {l : List Item}
    (hi : Fitting b F p (i :: l) t) (h : Fits s t i u) :
    Fitting b F p l u ∧ (Knows V u T → Knows V t T ∧ (AssignsAlike s T i.bodyParts →
      ∀ ty, T.get? i.head.id.ir = some ty → TypedBody s T i ty)) := by
  have hm := hi.items i (List.mem_cons_self ..)
  have hall := hi.unrecorded
  rw [List.flatMap_cons] at hall
  obtain ⟨hg, he, hk⟩ := h.typed (T := T) hp.separate (hp.firm i hm _ i.head_mem_firm)
    ((hp.bodies i hm).of_irsAll i.irsAll_bodyParts) hi.good hi.outside hall.left.fresh
  exact ⟨⟨hg, h.setting.returns.trans hi.outside, fun j hj => hi.items j (List.mem_cons_of_mem _ hj),
    hall.after he.none⟩, hk⟩

/-! ## Programs -/

theorem signatureOrder_perm (items : List Item) : (signatureOrder items).Perm items :=
  List.filter_append_perm Item.isStruct items

theorem ids_perm_of_order (p : Program) :
    p.ids.Perm ((signatureOrder p.items).flatMap Item.signatureIds ++
      p.items.flatMap Item.bodyIds) := by
  have hids : p.ids = p.items.flatMap fun i => i.signatureIds ++ i.bodyIds := by
    rw [Program.ids_eq]
    exact congrArg (fun f => p.items.flatMap f) (funext Item.ids_eq)
  rw [hids]
  refine (List.flatMap_append_perm p.items Item.signatureIds Item.bodyIds).symm.trans ?_
  exact ((signatureOrder_perm p.items).symm.flatMap_right _).append_right _

theorem mem_parts_of_bodyParts {i : Item} (hi : i ∈ p.items) {a : Part} (ha : a ∈ i.bodyParts) :
    a ∈ p.parts :=
  List.mem_flatMap.2 ⟨i, hi, List.mem_append_right _ ha⟩

/-- The signatures of a program, recorded in a table without types for its nodes: the bodies are
left to check, and what the signatures say holds in any table that knows what was recorded. -/
theorem SignaturesPlaced.signed (hp : SignaturesPlaced s b V F p) {v : TypeTable}
    (h : Chain (Signs s) b (signatureOrder p.items) v) (hg : Good b F b) (hr : b.returns = [])
    (hn : p.ids.Nodup) (hfresh : ∀ id ∈ p.ids, b.get? id = none) :
    Fitting b F p p.items v ∧ (Knows V v T →
      ∀ i ∈ p.items, ∃ ty, TypedSignature s T i ty ∧ T.get? i.head.id.ir = some ty) := by
  have horder := ids_perm_of_order p
  have hsigning : Signing b F p (signatureOrder p.items) b :=
    ⟨hg, hr, fun i hi => mem_signatureOrder.1 hi, horder.nodup_iff.1 hn,
      fun id hid => hfresh id (horder.mem_iff.2 hid)⟩
  obtain ⟨hv, hsigned⟩ := h.each (hp.sign (T := T)) hsigning
  refine ⟨⟨hv.good, hv.outside, fun i hi => hi, hv.unrecorded⟩, ?_⟩
  intro hk i hi
  exact (hsigned hk).2 i (mem_signatureOrder.2 hi)

/-- A pass over a program that starts without types for its nodes types it. -/
theorem Passes.typed (h : Passes s p b T) (hp : ItemsPlaced s b V F p)
    (hg : Good b F b) (hr : b.returns = []) (hn : p.ids.Nodup)
    (hfresh : ∀ id ∈ p.ids, b.get? id = none) (hka : AssignsAlike s T p.parts) :
    TypedProgram s T p := by
  obtain ⟨v, hsigns, hfits⟩ := h
  obtain ⟨hfitting, hsigned⟩ := hp.signed (T := T) hsigns hg hr hn hfresh
  obtain ⟨_, hfitted⟩ := hfits.each (hp.fit (T := T)) hfitting
  obtain ⟨hk, hbodies⟩ := hfitted (.refl T)
  intro i hi
  obtain ⟨ty, hty, hget⟩ := hsigned hk i hi
  have hbody := hbodies i hi (hka.sub fun a ha => mem_parts_of_bodyParts hi ha)
  exact ⟨ty, hty, hget, hbody ty hget⟩

/-! ## Assignments in typed programs -/

/-- The judgement that holds of an expression inside a typed one. -/
def Within (s : Scope) (T : TypeTable) (result : Option Ty) (parts : List Part) : Prop :=
  ∀ e, .expr e ∈ parts → ∃ final ty, Typed s T result (.expr e final ty)

namespace Within

variable {result : Option Ty} {parts parts' : List Part}

theorem nil : Within s T result [] := fun _ he => absurd he List.not_mem_nil

theorem append (h : Within s T result parts) (k : Within s T result parts') :
    Within s T result (parts ++ parts') := by
  intro e he
  rcases List.mem_append.1 he with he | he
  · exact h e he
  · exact k e he

theorem node (h : Within s T result parts) {e : Expr} {final : Bool} {ty : Ty}
    (ht : Typed s T result (.expr e final ty)) : Within s T result (.expr e :: parts) := by
  intro e' he
  rcases List.mem_cons.1 he with he | he
  · cases he
    exact ⟨final, ty, ht⟩
  · exact h e' he

theorem other (h : Within s T result parts) (a : Part) (ha : ∀ e, a ≠ .expr e) :
    Within s T result (a :: parts) := by
  intro e he
  rcases List.mem_cons.1 he with he | he
  · exact absurd he.symm (ha e)
  · exact h e he

end Within

/-- Every expression in a typed judgement is typed. -/
theorem Typed.within {result : Option Ty} {j : Judgement} (h : Typed s T result j) :
    Within s T result j.parts := by
  have hascription : ∀ a : Option TypeExpr, Within s T result (TypeExpr.partsOf a) :=
    fun a e he => absurd he (TypeExpr.noExpr_partsOf a e)
  induction h with
  | literal h lit final hl hg => exact Within.nil.node (.literal h lit final hl hg)
  | identifier h name final hd hg ha hT => exact Within.nil.node (.identifier h name final hd hg ha hT)
  | retUnit h final hr ha hT => exact Within.nil.node (.retUnit h final hr ha hT)
  | ret h value final hr hv ha hT ih => exact ih.node (.ret h value final hr hv ha hT)
  | call h callee args final hn hs hg hl ha hT ih =>
    exact (ih.other (.callee callee) nofun).node (.call h callee args final hn hs hg hl ha hT)
  | assign h target value final ht hv hta hva hT iht ihv =>
    exact (iht.append ihv).node (.assign h target value final ht hv hta hva hT)
  | binary h op lhs rhs final hl hr hla hra hT ihl ihr =>
    exact (ihl.append ihr).node (.binary h op lhs rhs final hl hr hla hra hT)
  | ifOnly h condition body final hc hb hT ihc ihb =>
    exact (ihc.append ihb).node (.ifOnly h condition body final hc hb hT)
  | ifElse h condition thenBody elseBody hc ht he hT ihc iht ihe =>
    exact (ihc.append (iht.append ihe)).node (.ifElse h condition thenBody elseBody hc ht he hT)
  | ifElseFinal h condition thenBody elseBody hr hc ht he hta hea hT ihc iht ihe =>
    exact (ihc.append (iht.append ihe)).node
      (.ifElseFinal h condition thenBody elseBody hr hc ht he hta hea hT)
  | ifElseIf h condition thenBody elseIf final hc ht he hT ihc iht ihe =>
    exact (ihc.append (iht.append ihe)).node (.ifElseIf h condition thenBody elseIf final hc ht he hT)
  | blockUnit h body final hb hT ih => exact ih.node (.blockUnit h body final hb hT)
  | block h body tail final hb ht hT ihb iht =>
    exact (ihb.append iht).node (.block h body tail final hb ht hT)
  | index h base position final hp ha hb hT ihp ihb =>
    exact (ihb.append ihp).node (.index h base position final hp ha hb hT)
  | array h first rest final hf hr ha hT ihf ihr =>
    exact (ihf.append ihr).node (.array h first rest final hf hr ha hT)
  | copies h element count final he hT ih => exact ih.node (.copies h element count final he hT)
  | struct h path fields final hn hs hg hf hall hT ih =>
    exact (ih.other (.path path) nofun).node (.struct h path fields final hn hs hg hf hall hT)
  | exprsNil | argumentsNil | fieldsNil | stmtsNil => exact Within.nil
  | exprsCons e es _ _ ihe ihr => exact ihe.append ihr
  | argumentsCons name param params e es _ _ _ ihe ihr => exact ihe.append ihr
  | fieldsCons decls h name value rest _ _ _ _ _ ihv ihr =>
    exact (ihv.append ihr).other (.field h) nofun
  | effect e _ ih => exact ih
  | declare h pattern ascribed _ _ => exact (hascription ascribed).other (.bind h pattern) nofun
  | bind h pattern ascribed init _ _ _ _ _ ih =>
    exact ((hascription ascribed).append ih).other (.bind h pattern) nofun
  | stmtsCons st rest _ _ ihs ihr => exact ihs.append ihr

/-- An assignment to a name has the type of its declaration. -/
theorem Typed.assigned {result : Option Ty} {a g : Head} {x : String} {v : Expr} {final : Bool}
    {ty : Ty} {id : IrId}
    (h : Typed s T result (.expr (.assign a (.identifier g x) v) final ty))
    (hd : declaration s (.identifier g x) = .ok id) :
    T.get? a.id.ir = some ty ∧ ∃ declared, T.get? id = some declared ∧ ty.Alike declared := by
  cases h with
  | assign _ _ _ _ ht _ hta _ hT =>
    cases ht with
    | identifier _ _ _ hd' hg ha _ =>
      cases hd.symm.trans hd'
      exact ⟨hT, _, hg, hta.symm.trans ha⟩

theorem noExpr_signatureParts (i : Item) (e : Expr) : .expr e ∉ i.signatureParts := by
  intro he
  obtain ⟨_, hb⟩ := Item.eq_ascription_of_mem_signatureParts he
  cases hb

/-- Every expression of a typed program is typed, with the result of its function. -/
theorem TypedProgram.within (h : TypedProgram s T p) {e : Expr} (he : .expr e ∈ p.parts) :
    ∃ result final ty, Typed s T result (.expr e final ty) := by
  obtain ⟨i, hi, hpart⟩ := List.mem_flatMap.1 he
  rcases List.mem_append.1 hpart with hpart | hpart
  · exact absurd hpart (noExpr_signatureParts i e)
  · obtain ⟨_, _, _, hbody⟩ := h i hi
    cases hbody with
    | function g d ht _ => exact ⟨_, ht.within e hpart⟩
    | struct g d => exact absurd hpart List.not_mem_nil
    | constant g d ht _ => exact ⟨_, ht.within e hpart⟩
    | static g d ht _ => exact ⟨_, ht.within e hpart⟩

theorem TypedProgram.assignsAlike (h : TypedProgram s T p) : AssignsAlike s T p.parts := by
  intro a g x v hm a' g' x' v' hin id hd hd' ty ty' hget hget'
  obtain ⟨result, final, outer, hty⟩ := h.within hm
  obtain ⟨hT, declared, hdecl, ha⟩ := hty.assigned hd
  have hvalue : ∃ final vt, Typed s T result (.expr v final vt) := by
    cases hty with
    | assign _ _ _ _ _ hv _ _ _ => exact ⟨_, _, hv⟩
  obtain ⟨_, _, hv⟩ := hvalue
  obtain ⟨_, _, hty'⟩ := hv.within _ hin
  obtain ⟨hT', declared', hdecl', ha'⟩ := hty'.assigned hd'
  cases hdecl.symm.trans hdecl'
  cases hget.symm.trans hT
  cases hget'.symm.trans hT'
  exact ha.trans ha'.symm

end Check

/-! ## Sessions -/

namespace Session

variable {u : CompilationUnit}

theorem Bound.itemsPlaced (hb : (ofUnit u).Bound) (hn : u.program.ids.Nodup) :
    Check.ItemsPlaced (ofUnit u).scope (ofUnit u).types (· ∈ u.program.lets) u.program.IsFirm
      u.program where
  separate _ hF := Program.not_mem_lets_of_isFirm hn hF
  firm _ hi _ hid := .inl (List.mem_flatMap.2 ⟨_, hi, hid⟩)
  signatures _ hi := hb.placed hn
    ((List.sublist_append_left ..).trans (Program.parts_sublist hi))
  bodies _ hi := hb.placed hn
    ((List.sublist_append_right ..).trans (Program.parts_sublist hi))

/-- A clean first check types the program, unless an assignment settles a variable once more. -/
theorem typed_iff (u : CompilationUnit) (hroom : (ofUnit u).HasRoom) (hn : u.program.ids.Nodup)
    (hb : (ofUnit u).Bound) (hclean : (ofUnit u).Clean) :
    Check.TypedProgram (ofUnit u).scope (ofUnit u).check.2.types u.program ↔
      Check.AssignsAlike (ofUnit u).scope (ofUnit u).check.2.types u.program.parts := by
  constructor
  · exact fun h => h.assignsAlike
  · intro hka
    have hfresh : ∀ id ∈ u.program.ids, (ofUnit u).types.get? id = none := by
      intro id hid
      by_contra hne
      exact fresh_of_get? hroom hne hid
    exact (hclean.passes rfl).typed (hb.itemsPlaced hn) ((known u).good _) (known u).returns hn
      hfresh hka

open Samples in
/-- `fn f() { let x; x = { x = 5; }; }` is reported clean: the outer assignment does not see that `x`
has got a type meanwhile. -/
theorem typed_iff_resettling : (ofUnit resettling).HasRoom ∧ resettling.program.ids.Nodup ∧
    (ofUnit resettling).Bound ∧ (ofUnit resettling).Clean ∧
    ¬ Check.TypedProgram (ofUnit resettling).scope (ofUnit resettling).check.2.types
      resettling.program := by
  have hroom : (ofUnit resettling).HasRoom := by decide +kernel
  have hn : resettling.program.ids.Nodup := by decide +kernel
  have hb : (ofUnit resettling).Bound := by decide +kernel
  have hclean : (ofUnit resettling).Clean := by decide +kernel
  refine ⟨hroom, hn, hb, hclean, ?_⟩
  intro htyped
  have hka := (typed_iff resettling hroom hn hb hclean).1 htyped
  have houter : Part.expr (.assign (head 5) (.identifier (head 6) "x") resettledValue) ∈
      resettling.program.parts := .tail _ (.tail _ (.head _))
  have hinner : Part.expr (.assign (head 9) (.identifier (head 10) "x") (number 11 "5")) ∈
      resettledValue.parts := .tail _ (.head _)
  have hd : Check.declaration (ofUnit resettling).scope (.identifier (head 6) "x") = .ok ⟨3⟩ := by
    decide +kernel
  have hd' : Check.declaration (ofUnit resettling).scope (.identifier (head 10) "x") = .ok ⟨3⟩ := by
    decide +kernel
  have hunit : ((ofUnit resettling).check.2.types.get? (head 5).id.ir).any Ty.isUnit = true := by
    decide +kernel
  have hint : ((ofUnit resettling).check.2.types.get? (head 9).id.ir).any (!·.isUnit) = true := by
    decide +kernel
  obtain ⟨ty, hty, hu⟩ := (Option.any_eq_true _ _).1 hunit
  obtain ⟨ty', hty', hi⟩ := (Option.any_eq_true _ _).1 hint
  have halike := hka _ _ _ _ houter _ _ _ _ hinner ⟨3⟩ hd hd' ty ty' hty hty'
  rw [halike.isUnit_eq] at hu
  rw [hu] at hi
  cases hi

end Session

end MiddleEnd
