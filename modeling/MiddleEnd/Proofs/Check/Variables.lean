/-
  The two nodes of a variable. A `let` or parameter and the pattern in it get one type together
  (`Check.Held` is what is left of that later), but an assignment settles only the one node that
  its target is bound to. So the two types are the same, or the pattern is still unsettled and the
  declaration was assigned to (`Session.variables_typed`).
-/
import Mathlib.Data.List.Nodup
import MiddleEnd.Proofs.Check.Coverage
import MiddleEnd.Proofs.Check.Silence
import MiddleEnd.Proofs.Check.Whole

namespace MiddleEnd

namespace Check

/-! ## The types of a variable -/

section

variable {s : Scope} {all : List Part} {d p : IrId} {o : Option Ty} {t u : TypeTable}

/-- The nodes `d` and `p` of a variable, among all parts of a program: assignments have names for
targets where they are bound to `d`, and no target is bound to `p`. -/
structure Regular (s : Scope) (all : List Part) (d p : IrId) : Prop where
  ne : d ≠ p
  pattern : ¬ IsTarget s all p
  places : ¬ Strays s all d
  /-- Only the `let` of the variable holds its nodes. -/
  apart : ∀ a ∈ all, d ∈ a.irs ∨ p ∈ a.irs → ∃ g q, a = .bind g q ∧ g.id.ir = d ∧ q.id.ir = p

/-- What the table has for a variable that was not met yet, or got the type `ty` for both its nodes.
The pattern keeps that; so does the declaration, if the type is settled or nothing assigns to it. -/
def Held (s : Scope) (all : List Part) (d p : IrId) : Option Ty → TypeTable → Prop
  | none, t => t.get? d = none
  | some ty, t => t.get? p = some ty ∧
    (ty.isInfer = false ∨ ¬ IsTarget s all d → t.get? d = some ty)

theorem Held.congr (h : Held s all d p o t) (hd : u.get? d = t.get? d) (hp : u.get? p = t.get? p) :
    Held s all d p o u := by
  cases o with
  | none => exact hd.trans h
  | some ty => exact ⟨hp.trans h.1, fun hty => hd.trans (h.2 hty)⟩

theorem Held.record (h : Held s all d p o t) {id : IrId} (hd : id ≠ d) (hp : id ≠ p) (ty : Ty) :
    Held s all d p o (t.record id ty) :=
  h.congr (get?_record_of_ne hd) (get?_record_of_ne hp)

/-- What is read for the declaration is the type of the variable, if that is settled. -/
theorem Held.read (h : Held s all d p o t) {tt : Ty} (hget : t.get? d = some tt) :
    ∃ ty, o = some ty ∧ (ty.isInfer = false → tt = ty) := by
  cases o with
  | none => exact absurd (hget.symm.trans h) (by simp)
  | some ty => exact ⟨ty, rfl, fun hty => Option.some.inj (hget.symm.trans (h.2 (.inl hty)))⟩

/-- An assignment to a name that was read as `tt`. -/
theorem Held.settledName (hu : Held s all d p o u) (hr : Regular s all d p) {h g : Head}
    {name : String} {value : Expr} {id : IrId} {tt ty : Ty}
    (hm : .expr (.assign h (.identifier g name) value) ∈ all)
    (hdecl : declaration s (.identifier g name) = .ok id)
    (hread : id = d → ∃ ty, o = some ty ∧ (ty.isInfer = false → tt = ty)) :
    Held s all d p o (settled s u (.identifier g name) tt ty) := by
  have htarget : IsTarget s all id := ⟨h, _, value, hm, hdecl⟩
  have hpattern : id ≠ p := fun he => hr.pattern (he ▸ htarget)
  unfold settled
  rw [hdecl]
  split
  · next hinfer =>
    by_cases he : id = d
    · obtain ⟨ty₀, rfl, htt⟩ := hread he
      subst he
      refine ⟨(get?_record_of_ne hr.ne).trans hu.1, fun hty => ?_⟩
      -- a settled declaration would have been read as such, and this one is assigned to
      rcases hty with hty | hty
      · rw [htt hty, hty] at hinfer
        cases hinfer
      · exact absurd htarget hty
    · exact hu.record he hpattern ty
  · exact hu

/-- An assignment to any other place. -/
theorem Held.settledPlace (hu : Held s all d p o u) (hr : Regular s all d p) {h : Head}
    {target value : Expr} {tt ty : Ty} (hm : .expr (.assign h target value) ∈ all)
    (hname : ∀ g name, target ≠ .identifier g name) :
    Held s all d p o (settled s u target tt ty) := by
  unfold settled
  split
  · split
    · next id hdecl =>
      refine hu.record (fun he => ?_) (fun he => ?_) ty
      · exact hr.places ⟨target, List.mem_filterMap.2 ⟨_, hm, Part.place?_assign hname⟩, he ▸ hdecl⟩
      · exact hr.pattern ⟨h, target, value, hm, he ▸ hdecl⟩
    · exact hu
  · exact hu

end

/-! ## Tables along a derivation -/

/-- Parts among those of a program, with distinct nodes. -/
structure Among (all parts : List Part) : Prop where
  sub : parts ⊆ all
  nodup : (Part.irsAll parts).Nodup

/-- Between the tables, a variable outside of the parts keeps its types, and one that a `let` among
them introduces gets a type for both its nodes. -/
structure Tracks (s : Scope) (all : List Part) (d p : IrId) (parts : List Part)
    (t u : TypeTable) : Prop where
  later : d ∉ Part.irsAll parts → ∀ o, Held s all d p o t → Held s all d p o u
  introduced : d ∈ Part.irsAll parts → Held s all d p none t → ∃ ty, Held s all d p (some ty) u

section

variable {s : Scope} {all parts parts' : List Part} {d p : IrId} {t u v : TypeTable}

namespace Among

theorem of_sublist (h : Among all parts') (hs : parts.Sublist parts') : Among all parts where
  sub := List.Subset.trans hs.subset h.sub
  nodup := h.nodup.sublist (Part.irsAll_sublist hs)

theorem tail {a : Part} (h : Among all (a :: parts)) : Among all parts :=
  h.of_sublist (List.sublist_cons_self ..)

theorem head {a : Part} (h : Among all (a :: parts)) : a ∈ all := h.sub (List.mem_cons_self ..)

theorem left (h : Among all (parts ++ parts')) : Among all parts :=
  h.of_sublist (List.sublist_append_left ..)

theorem right (h : Among all (parts ++ parts')) : Among all parts' :=
  h.of_sublist (List.sublist_append_right ..)

theorem disjoint (h : Among all (parts ++ parts')) (hd : d ∈ Part.irsAll parts) :
    d ∉ Part.irsAll parts' := by
  have hn := h.nodup
  rw [Part.irsAll_append, List.nodup_append] at hn
  exact fun hd' => hn.2.2 d hd d hd' rfl

end Among

namespace Tracks

theorem refl (t : TypeTable) : Tracks s all d p [] t t where
  later _ _ ho := ho
  introduced hd := absurd hd List.not_mem_nil

/-- A further step that keeps the types of the variable. -/
theorem andThen (h : Tracks s all d p parts t u)
    (hstep : ∀ o, Held s all d p o u → Held s all d p o v) : Tracks s all d p parts t v where
  later hn o ho := hstep o (h.later hn o ho)
  introduced hm ho := (h.introduced hm ho).imp fun ty => hstep (some ty)

theorem of_record {id : IrId} (h : Tracks s all d p parts t u) (hd : id ≠ d) (hp : id ≠ p)
    (ty : Ty) : Tracks s all d p parts t (u.record id ty) :=
  h.andThen fun _ hu => hu.record hd hp ty

theorem both (h : Tracks s all d p parts t u) (k : Tracks s all d p parts' u v)
    (ha : Among all (parts ++ parts')) : Tracks s all d p (parts ++ parts') t v where
  later hn o ho := by
    rw [Part.irsAll_append, List.mem_append, not_or] at hn
    exact k.later hn.2 o (h.later hn.1 o ho)
  introduced hm ho := by
    rw [Part.irsAll_append, List.mem_append] at hm
    by_cases hd : d ∈ Part.irsAll parts
    · obtain ⟨ty, hu⟩ := h.introduced hd ho
      exact ⟨ty, k.later (ha.disjoint hd) _ hu⟩
    · exact k.introduced (hm.resolve_left hd) (h.later hd _ ho)

/-- Parts in another order than that in which they are looked at. -/
theorem swapped (h : Tracks s all d p parts t u) (k : Tracks s all d p parts' u v)
    (ha : Among all (parts' ++ parts)) : Tracks s all d p (parts' ++ parts) t v where
  later hn o ho := by
    rw [Part.irsAll_append, List.mem_append, not_or] at hn
    exact k.later hn.1 o (h.later hn.2 o ho)
  introduced hm ho := by
    rw [Part.irsAll_append, List.mem_append] at hm
    by_cases hd : d ∈ Part.irsAll parts'
    · exact k.introduced hd (h.later (ha.disjoint hd) _ ho)
    · obtain ⟨ty, hu⟩ := h.introduced (hm.resolve_left hd) ho
      exact ⟨ty, k.later hd _ hu⟩

/-- A part that holds neither node. -/
theorem skip (h : Tracks s all d p parts t u) {a : Part} (ha : d ∉ a.irs) :
    Tracks s all d p (a :: parts) t u where
  later hn o ho := by
    rw [Part.irsAll_cons, List.mem_append, not_or] at hn
    exact h.later hn.2 o ho
  introduced hm ho := by
    rw [Part.irsAll_cons, List.mem_append] at hm
    exact h.introduced (hm.resolve_left ha) ho

end Tracks

/-- Only a `let` holds a node of the variable. -/
theorem Regular.not_mem (hr : Regular s all d p) {a : Part} (ha : a ∈ all)
    (hbind : ∀ g q, a ≠ .bind g q) : d ∉ a.irs ∧ p ∉ a.irs := by
  rw [← not_or]
  intro h
  obtain ⟨g, q, rfl, -⟩ := hr.apart a ha h
  exact hbind g q rfl

theorem Regular.ne_of_mem (hr : Regular s all d p) {a : Part} (ha : a ∈ all)
    (hbind : ∀ g q, a ≠ .bind g q) {id : IrId} (hid : id ∈ a.irs) : id ≠ d ∧ id ≠ p :=
  have hn := hr.not_mem ha hbind
  ⟨fun he => hn.1 (he ▸ hid), fun he => hn.2 (he ▸ hid)⟩

/-- Recording a type for a part, after what happens at the parts in it. -/
theorem Tracks.put (h : Tracks s all d p parts t u) (hr : Regular s all d p) {a : Part}
    (ha : Among all (a :: parts)) (hbind : ∀ g q, a ≠ .bind g q) {id : IrId} (hid : id ∈ a.irs)
    (ty : Ty) : Tracks s all d p (a :: parts) t (u.record id ty) :=
  have hne := hr.ne_of_mem ha.head hbind hid
  (h.skip (hr.not_mem ha.head hbind).1).of_record hne.1 hne.2 ty

theorem Tracks.node (h : Tracks s all d p parts t u) (hr : Regular s all d p) {e : Expr}
    (ha : Among all (.expr e :: parts)) (ty : Ty) :
    Tracks s all d p (.expr e :: parts) t (u.record e.ir ty) :=
  h.put hr ha (fun _ _ => nofun) (List.mem_singleton_self e.ir) ty

/-- The type of a variable is recorded for its `let` and for its pattern. -/
theorem Tracks.bind (h : Tracks s all d p parts t u) (hr : Regular s all d p) {g : Head}
    {q : Pattern} (ha : Among all (.bind g q :: parts)) (ty : Ty) :
    Tracks s all d p (.bind g q :: parts) t ((u.record q.id.ir ty).record g.id.ir ty) := by
  by_cases hm : d ∈ (Part.bind g q).irs ∨ p ∈ (Part.bind g q).irs
  · obtain ⟨_, _, ⟨⟩, rfl, rfl⟩ := hr.apart _ ha.head hm
    refine ⟨fun hn => absurd ?_ hn, fun _ _ => ⟨ty, ?_, fun _ => get?_record_self⟩⟩
    · rw [Part.irsAll_cons]
      exact List.mem_append_left _ (List.mem_cons_self ..)
    · exact (get?_record_of_ne hr.ne).trans get?_record_self
  · simp only [Part.irs, List.mem_cons, List.not_mem_nil, or_false, not_or] at hm
    obtain ⟨⟨hdg, hdq⟩, hpg, hpq⟩ := hm
    have hd : d ∉ (Part.bind g q).irs := by simp [Part.irs, hdg, hdq]
    exact ((h.skip hd).of_record (Ne.symm hdq) (Ne.symm hpq) ty).of_record (Ne.symm hdg)
      (Ne.symm hpg) ty

theorem Annotates.tracks {a : TypeExpr} {ty : Ty} (h : Annotates s t a ty u)
    (hr : Regular s all d p) : Among all a.parts → Tracks s all d p a.parts t u := by
  induction h with
  | unit h | path h name _ =>
    exact fun ha => (Tracks.refl _).put hr ha (fun _ _ => nofun) (List.mem_singleton_self h.id.ir) _
  | array h capacity _ ih =>
    exact fun ha => (ih ha.tail).put hr ha (fun _ _ => nofun) (List.mem_singleton_self h.id.ir) _

theorem Annotates?.tracks {a : Option TypeExpr} {ty : Option Ty} (h : Annotates? s t a ty u)
    (hr : Regular s all d p) (ha : Among all (TypeExpr.partsOf a)) :
    Tracks s all d p (TypeExpr.partsOf a) t u := by
  cases h with
  | none => exact .refl t
  | some h => exact h.tracks hr ha

/-- A derivation keeps the types of variables it does not introduce. -/
theorem Derives.tracks (hr : Regular s all d p) {j : Judgement} (h : Derives s t j u) :
    Among all j.parts → Tracks s all d p j.parts t u := by
  induction h with
  | literal h lit final _ => exact fun ha => (Tracks.refl _).node hr ha _
  | identifier h name final _ _ _ => exact fun ha => (Tracks.refl _).node hr ha _
  | retUnit h final _ _ => exact fun ha => (Tracks.refl _).node hr ha _
  | ret h value final _ _ _ ih => exact fun ha => (ih ha.tail).node hr ha _
  | call h callee args final _ _ _ _ _ ih =>
    intro ha
    exact ((ih ha.tail.tail).skip (hr.not_mem ha.tail.head fun _ _ => nofun).1).node hr ha _
  | callError h callee args final _ _ _ _ ih =>
    intro ha
    exact ((ih ha.tail.tail).skip (hr.not_mem ha.tail.head fun _ _ => nofun).1).node hr ha _
  | @assignName t u id tt vt ty h g name value final hdecl hget _ _ ih =>
    intro ha
    have hg := hr.ne_of_mem ha.tail.head (fun _ _ => nofun) (List.mem_singleton_self g.id.ir)
    have hvalue := ih ha.tail.right
    have hname : d ∉ (Part.expr (.identifier g name)).irs :=
      (hr.not_mem ha.tail.head fun _ _ => nofun).1
    have hall : Tracks s all d p ([.expr (.identifier g name)] ++ value.parts) t
        (settled s (u.record g.id.ir ty) (.identifier g name) tt ty) := by
      refine Tracks.skip ⟨fun hn o ho => ?_, fun hm ho => ?_⟩ hname
      · have hu := hvalue.later hn o (ho.record hg.1 hg.2 tt)
        exact (hu.record hg.1 hg.2 ty).settledName hr ha.head hdecl
          fun he => ho.read (he ▸ hget)
      · -- the variable was not met when the target was read
        obtain ⟨ty', hu⟩ := hvalue.introduced hm (ho.record hg.1 hg.2 tt)
        exact ⟨ty', (hu.record hg.1 hg.2 ty).settledName hr ha.head hdecl
          fun he => absurd (hget.symm.trans (he ▸ ho)) (by simp)⟩
    exact hall.node hr ha _
  | @assign t u v tt vt ty h target value final hn _ _ _ iht ihv =>
    intro ha
    have hmem : .expr target ∈ all := ha.tail.left.sub target.self_mem_parts
    have htarget := hr.ne_of_mem hmem (fun _ _ => nofun) (List.mem_singleton_self target.ir)
    have hboth := (iht ha.tail.left).both (ihv ha.tail.right) ha.tail
    have hall := hboth.of_record htarget.1 htarget.2 ty
    exact (hall.andThen fun _ hu => hu.settledPlace hr ha.head hn).node hr ha _
  | binary h op lhs rhs final _ _ _ ihl ihr =>
    intro ha
    exact ((ihl ha.tail.left).both (ihr ha.tail.right) ha.tail).node hr ha _
  | ifOnly h condition body final _ _ ihc ihb =>
    intro ha
    exact ((ihc ha.tail.left).both (ihb ha.tail.right) ha.tail).node hr ha _
  | ifElse h condition thenBody elseBody _ _ _ ihc iht ihe =>
    intro ha
    have hbranches := (iht ha.tail.right.left).both (ihe ha.tail.right.right) ha.tail.right
    exact ((ihc ha.tail.left).both hbranches ha.tail).node hr ha _
  | ifElseFinal h condition thenBody elseBody _ _ _ _ _ _ ihc iht ihe =>
    intro ha
    have hbranches := (iht ha.tail.right.left).both (ihe ha.tail.right.right) ha.tail.right
    exact ((ihc ha.tail.left).both hbranches ha.tail).node hr ha _
  | ifElseIf h condition thenBody elseIf final _ _ _ ihc iht ihe =>
    intro ha
    have hbranches := (iht ha.tail.right.left).both (ihe ha.tail.right.right) ha.tail.right
    exact ((ihc ha.tail.left).both hbranches ha.tail).node hr ha _
  | blockUnit h body final _ ih => exact fun ha => (ih ha.tail).node hr ha _
  | block h body tail final _ _ ihb iht =>
    intro ha
    exact ((ihb ha.tail.left).both (iht ha.tail.right) ha.tail).node hr ha _
  | index h base position final _ _ _ ihp ihb =>
    intro ha
    exact ((ihp ha.tail.right).swapped (ihb ha.tail.left) ha.tail).node hr ha _
  | indexError h base position final _ _ _ ihp ihb =>
    intro ha
    exact ((ihp ha.tail.right).swapped (ihb ha.tail.left) ha.tail).node hr ha _
  | array h first rest final _ _ _ ihf ihr =>
    intro ha
    exact ((ihf ha.tail.left).both (ihr ha.tail.right) ha.tail).node hr ha _
  | copies h element count final _ ih => exact fun ha => (ih ha.tail).node hr ha _
  | struct h path fields final _ _ _ _ _ ih =>
    intro ha
    exact ((ih ha.tail.tail).skip (hr.not_mem ha.tail.head fun _ _ => nofun).1).node hr ha _
  | exprsNil | argumentsNil | fieldsNil | stmtsNil => exact fun _ => .refl _
  | exprsCons e es _ _ ihe ihr => exact fun ha => (ihe ha.left).both (ihr ha.right) ha
  | argumentsCons name param params e es _ _ _ ihe ihr =>
    exact fun ha => (ihe ha.left).both (ihr ha.right) ha
  | fieldsCons decls h name value rest _ _ _ _ ihv ihr =>
    intro ha
    have hne := hr.ne_of_mem ha.head (fun _ _ => nofun) (List.mem_singleton_self h.id.ir)
    exact (((ihv ha.tail.left).of_record hne.1 hne.2 _).both (ihr ha.tail.right) ha.tail).skip
      (hr.not_mem ha.head fun _ _ => nofun).1
  | effect e _ ih => exact ih
  | declare h pattern ascribed hann => exact fun ha => (hann.tracks hr ha.tail).bind hr ha _
  | bind h pattern ascribed init hann _ _ ih =>
    intro ha
    exact ((hann.tracks hr ha.tail.left).both (ih ha.tail.right) ha.tail).bind hr ha _
  | stmtsCons st rest _ _ ihs ihr => exact fun ha => (ihs ha.left).both (ihr ha.right) ha

/-! ## Items -/

theorem Fits.tracks (hr : Regular s all d p) {i : Item} (h : Fits s t i u)
    (ha : Among all i.bodyParts) : Tracks s all d p i.bodyParts t u := by
  cases h with
  | function g f _ hb _ =>
    -- entering and leaving the function changes no entry
    have hbody := hb.tracks hr ha
    exact ⟨fun hn o ho => (hbody.later hn o (ho.congr rfl rfl)).congr rfl rfl,
      fun hm ho => (hbody.introduced hm ho).imp fun _ hu => ⟨hu.1, hu.2⟩⟩
  | struct g f => exact .refl t
  | constant g f _ hv _ => exact hv.tracks hr ha
  | static g f _ hv _ => exact hv.tracks hr ha

theorem tracks_bodies (hr : Regular s all d p) {items : List Item} (h : Chain (Fits s) t items u) :
    Among all (items.flatMap Item.bodyParts) →
      Tracks s all d p (items.flatMap Item.bodyParts) t u := by
  induction h with
  | nil t => exact fun _ => .refl t
  | @cons t u v i rest hi _ ih =>
    intro ha
    rw [List.flatMap_cons] at ha ⊢
    exact (hi.tracks hr ha.left).both (ih ha.right) ha

/-- A parameter and its pattern get the same type. -/
theorem HasParams.held {ps : List Param} {ms : Members} (h : HasParams s t ps ms u)
    (hn : (ps.flatMap Param.ids).Nodup) {x : Param} (hx : x ∈ ps) :
    ∃ ty, u.get? x.head.id.ir = some ty ∧ u.get? x.pattern.id.ir = some ty := by
  induction h with
  | nil t => exact absurd hx List.not_mem_nil
  | @cons t u v y rest ty ms _ hrest ih =>
    rw [List.flatMap_cons, List.nodup_append] at hn
    obtain ⟨hy, hrestn, hdisjoint⟩ := hn
    rcases List.mem_cons.1 hx with rfl | hx
    · have hne : x.pattern.id.ir ≠ x.head.id.ir := fun he => by simp [he] at hy
      have hframe := hrest.frame (P := (· ∈ rest.flatMap Param.ids)) fun _ hid => hid
      refine ⟨ty, ?_, ?_⟩
      · rw [hframe _ fun hid => hdisjoint _ (by simp) _ hid rfl, get?_record_of_ne hne]
        exact get?_record_self
      · rw [hframe _ fun hid => hdisjoint _ (by simp) _ hid rfl]
        exact get?_record_self
    · exact ih hrestn hx

theorem Signs.held_param {g : Head} {f : FunctionDecl} (h : Signs s t ⟨g, .function f⟩ u)
    (hn : (Item.signatureIds ⟨g, .function f⟩).Nodup) {x : Param} (hx : x ∈ f.params) :
    ∃ ty, u.get? x.head.id.ir = some ty ∧ u.get? x.pattern.id.ir = some ty := by
  obtain ⟨ty, v, hsig, rfl⟩ := h
  simp only [Item.signatureIds, List.nodup_cons, List.nodup_append, List.mem_append] at hn
  obtain ⟨hg, hparams, -, hreturns⟩ := hn
  cases hsig with
  | function _ _ hp ha =>
    obtain ⟨ty, hd, hq⟩ := hp.held hparams hx
    have hids : ∀ id ∈ x.ids, id ∈ f.params.flatMap Param.ids := fun id hid =>
      List.mem_flatMap.2 ⟨x, hx, hid⟩
    have hkept : ∀ id ∈ x.ids, ∀ ty', (TypeTable.record _ g.id.ir ty').get? id = _ :=
      fun id hid _ =>
        (get?_record_of_ne fun he => hg (.inl (by rw [he]; exact hids id hid))).trans
          (ha.frame (P := (· ∈ TypeExpr.idsOf f.returns)) (fun _ h => h) id
            fun hr => hreturns id (hids id hid) id hr rfl)
    exact ⟨ty, (hkept _ (by simp) _).trans hd, (hkept _ (by simp) _).trans hq⟩

/-- Signatures leave all other nodes alone. -/
theorem frame_signatures {items : List Item} (h : Chain (Signs s) t items u) :
    SameBut (· ∈ items.flatMap Item.signatureIds) t u :=
  frame_of_chain h fun hi hs => hs.frame fun _ hid => List.mem_flatMap.2 ⟨_, hi, hid⟩

end

end Check

/-! ## Programs -/

/-- A `let` among the parts, or in a callee among them, where nothing is evaluated. -/
inductive Lets : List Part → Head → Pattern → Prop
  | here {parts : List Part} {h : Head} {q : Pattern} : .bind h q ∈ parts → Lets parts h q
  | within {parts : List Part} {callee : Expr} {h : Head} {q : Pattern} :
    .callee callee ∈ parts → Lets callee.parts h q → Lets parts h q

/-- The variables of a program: its parameters and what its `let`s introduce. -/
inductive Program.Introduces (p : Program) : Head → Pattern → Prop
  | param {g : Head} {f : FunctionDecl} {x : Param} :
    ⟨g, .function f⟩ ∈ p.items → x ∈ f.params → p.Introduces x.head x.pattern
  | bind {h : Head} {q : Pattern} : Lets p.parts h q → p.Introduces h q

theorem Lets.mem_irsAll {parts : List Part} {h : Head} {q : Pattern} (hl : Lets parts h q) :
    h.id.ir ∈ Part.irsAll parts ∧ q.id.ir ∈ Part.irsAll parts := by
  induction hl with
  | here hm =>
    exact ⟨List.mem_flatMap.2 ⟨_, hm, by simp [Part.irs]⟩,
      List.mem_flatMap.2 ⟨_, hm, by simp [Part.irs]⟩⟩
  | @within _ callee _ _ hm _ ih =>
    rw [callee.irsAll_parts] at ih
    exact ⟨List.mem_flatMap.2 ⟨_, hm, ih.1⟩, List.mem_flatMap.2 ⟨_, hm, ih.2⟩⟩

namespace Check

section

variable {s : Scope} {p : Program} {d q : IrId} {t u v : TypeTable}

theorem mem_bodies {a : Part} (ha : a ∈ p.parts) (hn : ∀ b, a ≠ .ascription b) :
    a ∈ p.items.flatMap Item.bodyParts := by
  obtain ⟨i, hi, hp⟩ := List.mem_flatMap.1 ha
  rcases List.mem_append.1 hp with hp | hp
  · obtain ⟨b, rfl⟩ := Item.eq_ascription_of_mem_signatureParts hp
    exact absurd rfl (hn b)
  · exact List.mem_flatMap.2 ⟨i, hi, hp⟩

theorem irsAll_bodies : Part.irsAll (p.items.flatMap Item.bodyParts) =
    p.items.flatMap Item.bodyIds := by
  rw [irsAll_flatMap]
  exact congrArg (p.items.flatMap ·) (funext Item.irsAll_bodyParts)

theorem among_bodies (hn : p.ids.Nodup) : Among p.parts (p.items.flatMap Item.bodyParts) where
  sub a ha := by
    obtain ⟨i, hi, ha⟩ := List.mem_flatMap.1 ha
    exact mem_parts_of_bodyParts hi ha
  nodup := by
    rw [irsAll_bodies]
    exact (List.nodup_append.1 ((ids_perm_of_order p).nodup_iff.1 hn)).2.1

/-- A parameter has the same type as its pattern after the signatures. -/
theorem held_of_signatures (hn : p.ids.Nodup) (h : Chain (Signs s) t (signatureOrder p.items) u)
    {g : Head} {f : FunctionDecl} {x : Param} (hi : ⟨g, .function f⟩ ∈ p.items)
    (hx : x ∈ f.params) :
    ∃ ty, u.get? x.head.id.ir = some ty ∧ u.get? x.pattern.id.ir = some ty := by
  have hnodup := (List.nodup_append.1 ((ids_perm_of_order p).nodup_iff.1 hn)).1
  obtain ⟨before, after, horder⟩ := List.append_of_mem (mem_signatureOrder.2 hi)
  rw [horder] at h hnodup
  rw [List.flatMap_append, List.flatMap_cons, List.nodup_append] at hnodup
  obtain ⟨-, hrest, -⟩ := hnodup
  rw [List.nodup_append] at hrest
  obtain ⟨hitem, -, hdisjoint⟩ := hrest
  obtain ⟨v, -, hafter⟩ := h.split
  cases hafter with
  | cons hsign hlater =>
    obtain ⟨ty, hd, hq⟩ := hsign.held_param hitem hx
    have hkept : ∀ id ∈ x.ids, id ∉ after.flatMap Item.signatureIds := fun id hid hm =>
      hdisjoint id (List.mem_cons_of_mem _
        (List.mem_append_left _ (List.mem_flatMap.2 ⟨x, hx, hid⟩))) id hm rfl
    exact ⟨ty, (frame_signatures hlater _ (hkept _ (by simp))).trans hd,
      (frame_signatures hlater _ (hkept _ (by simp))).trans hq⟩

/-- What the bodies make of a variable that holds the type `ty` when they are through. -/
theorem typed_of_held {all : List Part} {ty : Ty} (h : Held s all d q (some ty) t) :
    t.get? d = t.get? q ∨ IsTarget s all d ∧ ∃ r, t.get? q = some (.infer r) := by
  by_cases hd : ty.isInfer = false ∨ ¬ IsTarget s all d
  · exact .inl ((h.2 hd).trans h.1.symm)
  · rw [not_or, Classical.not_not, Bool.not_eq_false] at hd
    obtain ⟨r, rfl⟩ : ∃ r, ty = .infer r := by
      cases ty <;> first | exact ⟨_, rfl⟩ | cases hd.1
    exact .inr ⟨hd.2, r, h.1⟩

theorem Regular.of_param (hn : p.ids.Nodup) {g : Head} {f : FunctionDecl} {x : Param}
    (hi : ⟨g, .function f⟩ ∈ p.items) (hx : x ∈ f.params)
    (hq : ¬ IsTarget s p.parts x.pattern.id.ir) (hd : ¬ Strays s p.parts x.head.id.ir) :
    Regular s p.parts x.head.id.ir x.pattern.id.ir where
  ne he := by
    rw [Program.ids_eq] at hn
    have hitem := (List.nodup_flatMap.1 hn).1 _ hi
    rw [Item.ids_eq] at hitem
    have hsig := (List.nodup_cons.1 (List.nodup_append.1 hitem).1).2
    have hparam := (List.nodup_flatMap.1 (List.nodup_append.1 hsig).1).1 x hx
    rw [Param.ids_eq, he] at hparam
    exact (List.nodup_cons.1 hparam).1 (List.mem_cons_self ..)
  pattern := hq
  places := hd
  apart a ha hm := by
    have hfirm : ∀ id ∈ [x.head.id.ir, x.pattern.id.ir], id ∈ p.firm := fun id hid =>
      List.mem_flatMap.2 ⟨_, hi, List.mem_cons_of_mem _ (List.mem_flatMap.2 ⟨x, hx, hid⟩)⟩
    rcases hm with hm | hm
    · exact absurd (hfirm _ (by simp)) (p.not_mem_firm hn ha hm)
    · exact absurd (hfirm _ (by simp)) (p.not_mem_firm hn ha hm)

theorem Regular.of_bind (hn : p.ids.Nodup) {h : Head} {x : Pattern} (hm : .bind h x ∈ p.parts)
    (hq : ¬ IsTarget s p.parts x.id.ir) (hd : ¬ Strays s p.parts h.id.ir) :
    Regular s p.parts h.id.ir x.id.ir where
  ne he := by
    have hparts := (List.nodup_append.1 (p.ids_perm.nodup_iff.1 hn)).2.1
    have hbind := (List.nodup_flatMap.1 hparts).1 _ hm
    exact (List.nodup_cons.1 hbind).1 (by simp [he])
  pattern := hq
  places := hd
  apart a ha hid := by
    by_cases he : a = .bind h x
    · exact ⟨h, x, he, rfl, rfl⟩
    · have hnot : ∀ id ∈ a.irs, id ∉ (Part.bind h x).irs := fun id hid =>
        p.not_mem_irs hn ha hm he hid
      rcases hid with hid | hid
      · exact absurd (List.mem_cons_self ..) (hnot _ hid)
      · exact absurd (List.mem_cons_of_mem _ (List.mem_cons_self ..)) (hnot _ hid)

/-- A parameter, after a pass over the program. -/
theorem Passes.param (h : Passes s p t u) (hn : p.ids.Nodup) {g : Head} {f : FunctionDecl}
    {x : Param} (hi : ⟨g, .function f⟩ ∈ p.items) (hx : x ∈ f.params)
    (hr : Regular s p.parts x.head.id.ir x.pattern.id.ir) :
    ∃ ty, Held s p.parts x.head.id.ir x.pattern.id.ir (some ty) u := by
  obtain ⟨v, hsigns, hfits⟩ := h
  obtain ⟨ty, hd, hq⟩ := held_of_signatures hn hsigns hi hx
  have htracks := tracks_bodies hr hfits (among_bodies hn)
  refine ⟨ty, htracks.later (fun hbody => ?_) _ ⟨hq, fun _ => hd⟩⟩
  rw [irsAll_bodies] at hbody
  have hsig : x.head.id.ir ∈ (signatureOrder p.items).flatMap Item.signatureIds :=
    List.mem_flatMap.2 ⟨_, mem_signatureOrder.2 hi, List.mem_cons_of_mem _
      (List.mem_append_left _ (List.mem_flatMap.2 ⟨x, hx, by simp⟩))⟩
  exact (List.nodup_append.1 ((ids_perm_of_order p).nodup_iff.1 hn)).2.2 _ hsig _ hbody rfl

/-- What a `let` introduces, after a pass over a program whose nodes had no types. -/
theorem Passes.bind (h : Passes s p t u) (hn : p.ids.Nodup)
    (hfresh : ∀ id ∈ p.ids, t.get? id = none) {g : Head} {x : Pattern} (hm : .bind g x ∈ p.parts)
    (hr : Regular s p.parts g.id.ir x.id.ir) :
    ∃ ty, Held s p.parts g.id.ir x.id.ir (some ty) u := by
  obtain ⟨v, hsigns, hfits⟩ := h
  have hbody : g.id.ir ∈ Part.irsAll (p.items.flatMap Item.bodyParts) :=
    List.mem_flatMap.2 ⟨_, mem_bodies hm (fun _ => nofun), List.mem_cons_self ..⟩
  refine (tracks_bodies hr hfits (among_bodies hn)).introduced hbody ?_
  have horder := ids_perm_of_order p
  rw [irsAll_bodies] at hbody
  have hsig : g.id.ir ∉ (signatureOrder p.items).flatMap Item.signatureIds := fun hs =>
    (List.nodup_append.1 (horder.nodup_iff.1 hn)).2.2 _ hs _ hbody rfl
  exact (frame_signatures hsigns _ hsig).trans
    (hfresh _ (horder.mem_iff.2 (List.mem_append_right _ hbody)))

end

end Check

namespace Session

open Check

variable {u : CompilationUnit}

theorem isTarget_of_place {e : Expr} {id : IrId} (he : e ∈ u.program.places)
    (hdecl : declaration (ofUnit u).scope e = .ok id) :
    IsTarget (ofUnit u).scope u.program.parts id := by
  obtain ⟨a, ha, hplace⟩ := List.mem_filterMap.1 he
  unfold Part.place? at hplace
  split at hplace <;> cases hplace
  exact ⟨_, _, _, ha, hdecl⟩

/-- No type is recorded for a node within a callee, unless a place is bound to it. -/
theorem get?_of_callee (hroom : (ofUnit u).HasRoom) (hids : u.program.ids.Nodup)
    (hclean : (ofUnit u).Clean) {callee : Expr} (hm : .callee callee ∈ u.program.parts) {id : IrId}
    (hid : id ∈ callee.ids)
    (hplace : ¬ ∃ e ∈ u.program.places, declaration (ofUnit u).scope e = .ok id) :
    (ofUnit u).check.2.types.get? id = none := by
  have hbuiltins : (ofUnit u).types.OnlyBuiltins := TypeTable.onlyBuiltins_withBuiltins _ _
  refine Option.not_isSome_iff_eq_none.1 fun hhas => ?_
  rcases (typed_nodes u hids hclean).2 id hhas with (hbuiltin | ⟨-, htyped⟩) | hplaced
  · -- primitive types have nodes of their own
    have hknown : (ofUnit u).types.Has id := (hbuiltins id).2 hbuiltin
    have hin : id ∈ u.program.ids := u.program.ids_perm.mem_iff.2
      (List.mem_append_right _ (List.mem_flatMap.2 ⟨_, hm, hid⟩))
    unfold TypeTable.Has at hknown
    rw [get?_eq_none_of_mem_ids hroom hin] at hknown
    cases hknown
  · exact htyped (List.mem_flatMap.2 ⟨_, hm, hid⟩)
  · exact hplace hplaced

/-- After a clean first check, a `let` or parameter has the same type as its pattern. There is one
exception: an assignment settles the one node that its target is bound to. So the pattern of a
variable without a type stays unsettled where a later assignment gives the variable one; and nothing
is said of a pattern that is itself assigned to, or a declaration that a place is bound to. -/
theorem variables_typed (hroom : (ofUnit u).HasRoom) (hids : u.program.ids.Nodup)
    (hclean : (ofUnit u).Clean) {h : Head} {q : Pattern} (hv : u.program.Introduces h q) :
    (ofUnit u).check.2.types.get? h.id.ir = (ofUnit u).check.2.types.get? q.id.ir ∨
    (IsTarget (ofUnit u).scope u.program.parts h.id.ir ∧
      ∃ r, (ofUnit u).check.2.types.get? q.id.ir = some (.infer r)) ∨
    IsTarget (ofUnit u).scope u.program.parts q.id.ir ∨
    ∃ e ∈ u.program.places, declaration (ofUnit u).scope e = .ok h.id.ir := by
  by_cases hq : IsTarget (ofUnit u).scope u.program.parts q.id.ir
  · exact .inr (.inr (.inl hq))
  by_cases hd : ∃ e ∈ u.program.places, declaration (ofUnit u).scope e = .ok h.id.ir
  · exact .inr (.inr (.inr hd))
  have hpasses := hclean.passes rfl
  cases hv with
  | param hi hx =>
    obtain ⟨ty, hheld⟩ := hpasses.param hids hi hx (.of_param hids hi hx hq hd)
    exact (typed_of_held hheld).imp_right .inl
  | bind hl =>
    cases hl with
    | here hm =>
      obtain ⟨ty, hheld⟩ := hpasses.bind hids (fun _ => get?_eq_none_of_mem_ids hroom) hm
        (.of_bind hids hm hq hd)
      exact (typed_of_held hheld).imp_right .inl
    | within hm hl =>
      have hin := hl.mem_irsAll
      rw [Expr.irsAll_parts] at hin
      refine .inl ((get?_of_callee hroom hids hclean hm hin.1 hd).trans
        (get?_of_callee hroom hids hclean hm hin.2 ?_).symm)
      rintro ⟨e, he, hdecl⟩
      exact hq (isTarget_of_place he hdecl)

open Samples in
/-- `fn f() { let y; let x; x = 1; }`: the type of `x` is found, that of its pattern is not. -/
theorem variables_typed_leaving : (ofUnit leaving).HasRoom ∧ leaving.program.ids.Nodup ∧
    (ofUnit leaving).Clean ∧ leaving.program.Introduces (head 3) ⟨identity 4, "x", true⟩ ∧
    (ofUnit leaving).check.2.types.get? ⟨3⟩ = some (.int ⟨17⟩ .w32) ∧
    IsTarget (ofUnit leaving).scope leaving.program.parts ⟨3⟩ ∧
    ∃ r, (ofUnit leaving).check.2.types.get? ⟨4⟩ = some (.infer r) := by
  have hroom : (ofUnit leaving).HasRoom := by decide +kernel
  have hids : leaving.program.ids.Nodup := by decide +kernel
  have hclean : (ofUnit leaving).Clean := by decide +kernel
  have hty : (ofUnit leaving).check.2.types.get? ⟨3⟩ = some (.int ⟨17⟩ .w32) := by decide +kernel
  have hne : (ofUnit leaving).check.2.types.get? ⟨3⟩ ≠
      (ofUnit leaving).check.2.types.get? ⟨4⟩ := by decide +kernel
  have hparts : leaving.program.parts = (Expr.block (head 2) [bind 8 9 "y" none,
      bind 3 4 "x" none, .expr (.assign (head 5) (name 6 "x") (number 7 "1"))] none).parts := rfl
  have hv : leaving.program.Introduces (head 3) ⟨identity 4, "x", true⟩ :=
    .bind (.here (by simp [hparts, Expr.parts, Stmt.partsAll, Stmt.parts, Samples.bind]))
  have hplaces : leaving.program.places = [] := rfl
  have hdecl : declaration (ofUnit leaving).scope (name 6 "x") = .ok ⟨3⟩ := by rfl
  refine ⟨hroom, hids, hclean, hv, hty, ?_⟩
  rcases variables_typed hroom hids hclean hv with heq | hexcept | htarget | ⟨e, he, -⟩
  · exact absurd heq hne
  · exact hexcept
  · -- the only target is bound to the `let`
    obtain ⟨g, e, value, hm, hid⟩ := htarget
    simp only [hparts, Expr.parts, Stmt.partsAll, Stmt.parts, Samples.bind, name, number,
      TypeExpr.partsOf, List.append_nil, List.cons_append, List.nil_append, List.mem_cons,
      reduceCtorEq, false_or, Part.expr.injEq, Expr.assign.injEq, List.not_mem_nil, or_false] at hm
    obtain ⟨-, rfl, -⟩ := hm
    cases hdecl.symm.trans hid
  · rw [hplaces] at he
    cases he

end Session

end MiddleEnd
