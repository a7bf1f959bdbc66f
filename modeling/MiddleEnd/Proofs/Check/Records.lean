/-
  What stays recorded. Every expression of a body is checked at some point on the way, and what is
  recorded for the nodes in it then is still recorded at the end of the pass, where no other node
  has the same identity and no assignment has the node for its target (`Passes.function`).
-/
import MiddleEnd.Proofs.Check.Silence
import MiddleEnd.Proofs.Check.Whole
import MiddleEnd.Proofs.Ty.Order

namespace MiddleEnd.Check

variable {s : Scope} {parts ps qs : List Part} {t t' u v w : TypeTable} {r : Option Ty}

/-! ## Steady nodes -/

/-- The identity is that of one node among the parts at most, and no target is bound to it. -/
structure Steady (s : Scope) (parts : List Part) (id : IrId) : Prop where
  once : (Part.irsAll parts).count id ≤ 1
  free : ¬ IsTarget s parts id

theorem IsTarget.mono {id : IrId} (h : IsTarget s ps id) (hsub : ps ⊆ qs) : IsTarget s qs id := by
  obtain ⟨g, target, value, hm, hd⟩ := h
  exact ⟨g, target, value, hsub hm, hd⟩

namespace Steady

variable {id : IrId}

theorem of_sublist (h : Steady s qs id) (hs : ps.Sublist qs) : Steady s ps id where
  once := Nat.le_trans ((Part.irsAll_sublist hs).count_le id) h.once
  free ht := h.free (ht.mono hs.subset)

theorem of_perm (h : Steady s qs id) (hp : ps.Perm qs) : Steady s ps id where
  once := (hp.flatMap_right _).count_eq id ▸ h.once
  free ht := h.free (ht.mono hp.subset)

theorem disjoint (h : Steady s (ps ++ qs) id) (hid : id ∈ Part.irsAll ps) :
    id ∉ Part.irsAll qs := by
  intro hid'
  have honce := h.once
  rw [Part.irsAll_append, List.count_append] at honce
  have hp := List.count_pos_iff.2 hid
  have hq := List.count_pos_iff.2 hid'
  omega

end Steady

/-- No other node of the program has the identity, and no target is bound to it. -/
structure Alone (s : Scope) (p : Program) (id : IrId) : Prop where
  once : p.ids.count id ≤ 1
  free : ¬ IsTarget s p.parts id

theorem Alone.steady {p : Program} {id : IrId} (h : Alone s p id) : Steady s p.parts id where
  once := by
    have honce := h.once
    rw [p.ids_perm.count_eq, List.count_append] at honce
    omega
  free := h.free

/-! ## Expressions along the way -/

/-- The expression is checked at some point, with this return type around it, and what is recorded
for its nodes is in the table `u` as well. The type of the expression itself may have been combined
with another. -/
def Located (s : Scope) (parts : List Part) (u : TypeTable) (r : Option Ty) (e : Expr) : Prop :=
  ∃ t' u' final ty, t'.return? = r ∧ Derives s t' (.expr e final ty) u' ∧
    ∀ id ∈ e.ids, Steady s parts id →
      u.get? id = u'.get? id ∨ id = e.ir ∧ ∃ c, ty.Below c ∧ u.get? id = some c

theorem Located.widen {e : Expr} (h : Located s ps u r e)
    (hkept : ∀ id ∈ e.ids, Steady s qs id → Steady s ps id ∧ v.get? id = u.get? id) :
    Located s qs v r e := by
  obtain ⟨t', u', final, ty, hr, hd, hids⟩ := h
  refine ⟨t', u', final, ty, hr, hd, fun id hid hs => ?_⟩
  obtain ⟨hs', hv⟩ := hkept id hid hs
  rw [hv]
  exact hids id hid hs'

/-- All of an expression is among the parts that it is in. -/
def Closed (parts : List Part) : Prop := ∀ e, .expr e ∈ parts → e.parts.Sublist parts

theorem Closed.ids_subset (h : Closed parts) {e : Expr} (he : .expr e ∈ parts) {id : IrId}
    (hid : id ∈ e.ids) : id ∈ Part.irsAll parts :=
  (Part.irsAll_sublist (h e he)).subset (e.irsAll_parts ▸ hid)

/-- What is in an expression is that expression, or is among the other parts of it. -/
theorem Closed.eq_or_sublist {e f : Expr} {rest : List Part} (hparts : e.parts = .expr e :: rest)
    (h : Closed e.parts) (hf : .expr f ∈ e.parts) : f = e ∨ f.parts.Sublist rest := by
  have hsub := h f hf
  rw [hparts, List.sublist_cons_iff] at hsub
  rcases hsub with hsub | ⟨l, hl, -⟩
  · exact .inr hsub
  · obtain ⟨rest', hf⟩ := f.parts_eq
    rw [hf] at hl
    cases hl
    exact .inl rfl

/-- The node belongs to the parts, or is that of a target. -/
def Touched (s : Scope) (parts : List Part) (id : IrId) : Prop :=
  id ∈ Part.irsAll parts ∨ IsTarget s parts id

theorem Touched.mono {id : IrId} (h : Touched s ps id) (hs : ps ⊆ qs) : Touched s qs id :=
  h.imp (fun hid => by
    obtain ⟨a, ha, hid⟩ := List.mem_flatMap.1 hid
    exact List.mem_flatMap.2 ⟨a, hs ha, hid⟩) (·.mono hs)

theorem SameBut.mono {P Q : IrId → Prop} (h : SameBut P t u) (hPQ : ∀ id, P id → Q id) :
    SameBut Q t u := fun id hid => h id fun hp => hid (hPQ id hp)

/-- Between the tables the parts are visited: nothing happens at other nodes, but for targets, and
all expressions among the parts are checked. Names that are assigned to are only looked up. -/
structure Visits (s : Scope) (parts : List Part) (t u : TypeTable) : Prop where
  closed : Closed parts
  frame : SameBut (Touched s parts) t u
  return? : u.return? = t.return?
  located : ∀ e, .expr e ∈ parts → (∀ g name, e ≠ .identifier g name) →
    Located s parts u t.return? e

namespace Visits

theorem refl (t : TypeTable) : Visits s [] t t where
  closed _ he := absurd he List.not_mem_nil
  frame := .refl t
  return? := rfl
  located _ he := absurd he List.not_mem_nil

/-- Two rows of parts, in the order in which they are visited or the other way round. -/
theorem merge (h : Visits s ps t u) (k : Visits s qs u v) (hp : parts.Perm (ps ++ qs))
    (hps : ps.Sublist parts) (hqs : qs.Sublist parts) : Visits s parts t v where
  closed e he := (List.mem_append.1 (hp.mem_iff.1 he)).elim
    (fun he => (h.closed e he).trans hps) fun he => (k.closed e he).trans hqs
  frame := (h.frame.mono fun _ ht => ht.mono hps.subset).trans
    (k.frame.mono fun _ ht => ht.mono hqs.subset)
  return? := k.return?.trans h.return?
  located e he hne := by
    rcases List.mem_append.1 (hp.mem_iff.1 he) with he | he
    · refine (h.located e he hne).widen fun id hid hs => ⟨hs.of_sublist hps, k.frame id ?_⟩
      rintro (hin | ht)
      · exact (hs.of_perm hp.symm).disjoint (h.closed.ids_subset he hid) hin
      · exact hs.free (ht.mono hqs.subset)
    · rw [← h.return?]
      exact (k.located e he hne).widen fun id _ hs => ⟨hs.of_sublist hqs, rfl⟩

theorem both (h : Visits s ps t u) (k : Visits s qs u v) : Visits s (ps ++ qs) t v :=
  h.merge k (.refl _) (List.sublist_append_left ..) (List.sublist_append_right ..)

theorem swapped (h : Visits s ps t u) (k : Visits s qs u v) : Visits s (qs ++ ps) t v :=
  h.merge k List.perm_append_comm (List.sublist_append_right ..) (List.sublist_append_left ..)

/-- A part that is not checked itself, but at most recorded before and after the others. -/
theorem around (h : Visits s ps t' u) {a : Part}
    (ha : ∀ e, a = .expr e → ∃ g name, e = .identifier g name)
    (hin : SameBut (· ∈ a.irs) t t') (hinr : t'.return? = t.return?)
    (hout : SameBut (· ∈ a.irs) u v) (houtr : v.return? = u.return?) : Visits s (a :: ps) t v where
  closed e he := by
    rcases List.mem_cons.1 he with rfl | he
    · obtain ⟨g, name, rfl⟩ := ha e rfl
      exact List.singleton_sublist.2 (List.mem_cons_self ..)
    · exact (h.closed e he).cons a
  frame := by
    have hown : ∀ id, id ∈ a.irs → Touched s (a :: ps) id := fun id hid =>
      .inl (List.mem_flatMap.2 ⟨a, List.mem_cons_self .., hid⟩)
    have hrest : ∀ id, Touched s ps id → Touched s (a :: ps) id := fun id ht =>
      ht.mono (List.subset_cons_self a ps)
    exact ((hin.mono hown).trans (h.frame.mono hrest)).trans (hout.mono hown)
  return? := houtr.trans (h.return?.trans hinr)
  located e he hne := by
    rcases List.mem_cons.1 he with rfl | he
    · obtain ⟨g, name, rfl⟩ := ha e rfl
      exact absurd rfl (hne g name)
    · rw [← hinr]
      refine (h.located e he hne).widen fun id hid hs =>
        ⟨hs.of_sublist (List.sublist_cons_self a ps), hout id fun hown => ?_⟩
      have hs : Steady s ([a] ++ ps) id := hs
      exact hs.disjoint (by simpa using hown) (h.closed.ids_subset he hid)

theorem other (h : Visits s ps t u) {a : Part} (ha : ∀ e, a ≠ .expr e) : Visits s (a :: ps) t u :=
  h.around (fun e he => absurd he (ha e)) (.refl t) rfl (.refl u) rfl

theorem put (h : Visits s ps t u) {a : Part} (ha : ∀ e, a ≠ .expr e) {id : IrId} (hid : id ∈ a.irs)
    (ty : Ty) : Visits s (a :: ps) t (u.record id ty) :=
  h.around (fun e he => absurd he (ha e)) (.refl t) rfl ((SameBut.refl u).record hid ty) rfl

/-- An expression, where its parts have been visited and its own type is recorded last. -/
theorem node {e : Expr} {final : Bool} {ty : Ty} {rest : List Part} (h : Visits s rest t u)
    (hparts : e.parts = .expr e :: rest) (hd : Derives s t (.expr e final ty) v)
    (hstep : SameBut (fun id => id = e.ir ∨ IsTarget s e.parts id) u v)
    (hret : v.return? = u.return?) : Visits s e.parts t v where
  closed f hf := by
    rw [hparts] at hf ⊢
    rcases List.mem_cons.1 hf with hf | hf
    · cases hf
      rw [hparts]
    · exact (h.closed f hf).cons _
  frame := by
    have hsub : rest ⊆ e.parts := hparts ▸ List.subset_cons_self ..
    refine (h.frame.mono fun _ ht => ht.mono hsub).trans (hstep.mono fun id hid => ?_)
    refine hid.imp_left ?_
    rintro rfl
    exact e.irsAll_parts ▸ e.ir_mem_ids
  return? := hret.trans h.return?
  located f hf hne := by
    rw [hparts] at hf
    rcases List.mem_cons.1 hf with hf | hf
    · cases hf
      exact ⟨t, v, final, ty, rfl, hd, fun _ _ _ => .inl rfl⟩
    · have hsub : rest.Sublist e.parts := hparts ▸ List.sublist_cons_self ..
      refine (h.located f hf hne).widen fun id hid hs => ⟨hs.of_sublist hsub, hstep id ?_⟩
      rintro (rfl | ht)
      · have hs' : Steady s ([.expr e] ++ rest) e.ir := by rwa [hparts] at hs
        exact hs'.disjoint (by simp [Part.irs]) (h.closed.ids_subset hf hid)
      · exact hs.free ht

/-- An expression that only records its own type. -/
theorem record {e : Expr} {final : Bool} {ty : Ty} {rest : List Part} (h : Visits s rest t u)
    (hparts : e.parts = .expr e :: rest)
    (hd : Derives s t (.expr e final ty) (u.record e.ir ty)) :
    Visits s e.parts t (u.record e.ir ty) :=
  h.node hparts hd ((SameBut.refl u).record (.inl rfl) ty) rfl

/-- The place and the value of an assignment, where the place is no name: the type of the place is
combined with that of the value. -/
theorem assigned {target value : Expr} {tt ty : Ty} (h : Visits s target.parts t u)
    (k : Visits s value.parts u v) (htt : u.get? target.ir = some tt) (hty : tt.Below ty) :
    Visits s (target.parts ++ value.parts) t (v.record target.ir ty) := by
  have hall := h.both k
  have hin : target.ir ∈ Part.irsAll target.parts := target.irsAll_parts ▸ target.ir_mem_ids
  obtain ⟨rest, hparts⟩ := target.parts_eq
  -- no other expression has the node of the place
  have hother : ∀ e, .expr e ∈ target.parts ++ value.parts → e ≠ target → ∀ id ∈ e.ids,
      Steady s (target.parts ++ value.parts) id → target.ir ≠ id := by
    rintro e he hne id hid hs rfl
    rcases List.mem_append.1 he with he | he
    · have hrest := (h.closed.eq_or_sublist hparts he).resolve_left hne
      have hs' := hs.of_sublist (List.sublist_append_left ..)
      rw [hparts, ← List.singleton_append] at hs'
      exact hs'.disjoint (by simp [Part.irs])
        ((Part.irsAll_sublist hrest).subset (e.irsAll_parts ▸ hid))
    · exact hs.disjoint hin (k.closed.ids_subset he hid)
  refine ⟨hall.closed, hall.frame.record (.inl ?_) ty, hall.return?, fun e he hne => ?_⟩
  · rw [Part.irsAll_append]
    exact List.mem_append_left _ hin
  · by_cases heq : e = target
    · subst heq
      obtain ⟨t', u', final, ty', hr, hd, hids⟩ := hall.located e he hne
      refine ⟨t', u', final, ty', hr, hd, fun id hid hs => ?_⟩
      by_cases hid' : e.ir = id
      · subst hid'
        refine .inr ⟨rfl, ty, ?_, get?_record_self⟩
        have hv : v.get? e.ir = some tt := (k.frame _ (by
          rintro (hm | ht)
          · exact hs.disjoint hin hm
          · exact hs.free (ht.mono (List.subset_append_right ..)))).trans htt
        rcases hids _ hid hs with hsame | ⟨-, c, hc, hsame⟩
        · rw [hsame, hd.get?_self] at hv
          cases hv
          exact hty
        · rw [hsame] at hv
          cases hv
          exact hc.trans hty
      · rw [get?_record_of_ne hid']
        exact hids id hid hs
    · exact (hall.located e he hne).widen fun id hid hs =>
        ⟨hs, get?_record_of_ne (hother e he heq id hid hs)⟩

end Visits

/-! ## Derivations -/

theorem Annotates.visits {a : TypeExpr} {ty : Ty} (h : Annotates s t a ty u) :
    Visits s a.parts t u := by
  induction h with
  | unit h | path h name _ =>
    exact (Visits.refl _).put (by nofun) (List.mem_singleton_self h.id.ir) _
  | array h capacity _ ih => exact ih.put (by nofun) (List.mem_singleton_self h.id.ir) _

theorem Annotates?.visits {a : Option TypeExpr} {ty : Option Ty} (h : Annotates? s t a ty u) :
    Visits s (TypeExpr.partsOf a) t u := by
  cases h with
  | none => exact .refl t
  | some h => exact h.visits

/-- Settling the declaration of a target and recording the type of an assignment. -/
theorem sameBut_settled {h : Head} {target value : Expr} (t : TypeTable) (before after ty : Ty) :
    SameBut (fun id => id = h.id.ir ∨ IsTarget s (Expr.assign h target value).parts id) t
      ((settled s t target before after).record h.id.ir ty) := by
  have htarget : ∀ id, declaration s target = .ok id →
      IsTarget s (Expr.assign h target value).parts id := fun id hd =>
    ⟨h, target, value, List.mem_cons_self .., hd⟩
  refine SameBut.record ?_ (.inl rfl) ty
  unfold settled
  split
  · split
    · next id hd => exact (SameBut.refl t).record (.inr (htarget id hd)) after
    · exact .refl t
  · exact .refl t

/-- A derivation visits the parts that it is about. -/
theorem Derives.visits {j : Judgement} (h : Derives s t j u) : Visits s j.parts t u := by
  induction h with
  | literal h lit final hb => exact (Visits.refl _).record rfl (.literal h lit final hb)
  | identifier h name final hd hg hi =>
    exact (Visits.refl _).record rfl (.identifier h name final hd hg hi)
  | retUnit h final hr hc => exact (Visits.refl _).record rfl (.retUnit h final hr hc)
  | ret h value final hr hv hc ih => exact ih.record rfl (.ret h value final hr hv hc)
  | call h callee args final hn hid hg hl ha ih =>
    exact (ih.other (by nofun)).record rfl (.call h callee args final hn hid hg hl ha)
  | callError h callee args final hn hid hg ha ih =>
    exact (ih.other (by nofun)).record rfl (.callError h callee args final hn hid hg ha)
  | @assignName t u id tt vt ty h g name value final hd hg hv hc ih =>
    have hname : ∀ (t : TypeTable) (ty : Ty),
        SameBut (· ∈ (Part.expr (.identifier g name)).irs) t (t.record g.id.ir ty) :=
      fun t => (SameBut.refl t).record (List.mem_singleton_self _)
    have hall := ih.around (a := .expr (.identifier g name))
      (fun _ he => by cases he; exact ⟨_, _, rfl⟩)
      (hname t tt) rfl (hname u ty) rfl
    refine hall.node rfl (.assignName h g name value final hd hg hv hc)
      (sameBut_settled _ tt ty ty) ?_
    exact congrArg List.head? (SameSetting.settled ..).returns
  | @assign t u v tt vt ty h target value final hne ht hv hc iht ihv =>
    refine (iht.assigned ihv ht.get?_self (Ty.least_of_combine? hc).left).node rfl
      (.assign h target value final hne ht hv hc) (sameBut_settled _ tt ty ty) ?_
    exact congrArg List.head? (SameSetting.settled ..).returns
  | binary h op lhs rhs final hl hr hc ihl ihr =>
    exact (ihl.both ihr).record rfl (.binary h op lhs rhs final hl hr hc)
  | ifOnly h condition body final hc hb ihc ihb =>
    exact (ihc.both ihb).record rfl (.ifOnly h condition body final hc hb)
  | ifElse h condition thenBody elseBody hc ht he ihc iht ihe =>
    exact (ihc.both (iht.both ihe)).record rfl (.ifElse h condition thenBody elseBody hc ht he)
  | ifElseFinal h condition thenBody elseBody hr hc ht he hb hty ihc iht ihe =>
    exact (ihc.both (iht.both ihe)).record rfl
      (.ifElseFinal h condition thenBody elseBody hr hc ht he hb hty)
  | ifElseIf h condition thenBody elseIf final hc ht he ihc iht ihe =>
    exact (ihc.both (iht.both ihe)).record rfl
      (.ifElseIf h condition thenBody elseIf final hc ht he)
  | blockUnit h body final hb ih => exact ih.record rfl (.blockUnit h body final hb)
  | block h body tail final hb ht ihb iht =>
    exact (ihb.both iht).record rfl (.block h body tail final hb ht)
  | index h base position final hp hc hb ihp ihb =>
    exact (ihp.swapped ihb).record rfl (.index h base position final hp hc hb)
  | indexError h base position final hp hc hb ihp ihb =>
    exact (ihp.swapped ihb).record rfl (.indexError h base position final hp hc hb)
  | array h first rest final hf hr hc ihf ihr =>
    exact (ihf.both ihr).record rfl (.array h first rest final hf hr hc)
  | copies h element count final he ih => exact ih.record rfl (.copies h element count final he)
  | struct h path fields final hp hid hg hf hall ih =>
    exact (ih.other (by nofun)).record rfl (.struct h path fields final hp hid hg hf hall)
  | exprsNil | argumentsNil | fieldsNil | stmtsNil => exact .refl _
  | exprsCons e es _ _ ihe ihr => exact ihe.both ihr
  | argumentsCons name param params e es _ _ _ ihe ihr => exact ihe.both ihr
  | fieldsCons decls h name value rest _ _ _ _ ihv ihr =>
    exact (ihv.put (a := .field h) (by nofun) (List.mem_singleton_self h.id.ir) _).both ihr
  | effect e _ ih => exact ih
  | declare h pattern ascribed ha =>
    exact ha.visits.around (a := .bind h pattern) (by nofun) (.refl _) rfl
      (((SameBut.refl _).record (by simp [Part.irs]) _).record (by simp [Part.irs]) _) rfl
  | bind h pattern ascribed init ha hi _ ih =>
    exact (ha.visits.both ih).around (a := .bind h pattern) (by nofun) (.refl _) rfl
      (((SameBut.refl _).record (by simp [Part.irs]) _).record (by simp [Part.irs]) _) rfl
  | stmtsCons st rest _ _ ihs ihr => exact ihs.both ihr

/-! ## Programs -/

theorem Fits.touched {i : Item} (h : Fits s t i u) : SameBut (Touched s i.bodyParts) t u := by
  cases h with
  | function h d _ hb _ =>
    -- entering and leaving the function changes no entry
    exact fun id hid => hb.visits.frame id hid
  | struct h d => exact .refl t
  | constant h d _ hv _ => exact hv.visits.frame
  | static h d _ hv _ => exact hv.visits.frame

/-- The parts of bodies. -/
def bodiesOf (items : List Item) : List Part := items.flatMap Item.bodyParts

theorem bodiesOf_sublist (items : List Item) :
    (bodiesOf items).Sublist (items.flatMap Item.parts) := by
  induction items with
  | nil => exact .refl _
  | cons i rest ih =>
    unfold bodiesOf
    rw [List.flatMap_cons, List.flatMap_cons]
    exact (List.sublist_append_right ..).append ih

theorem touched_bodies {items : List Item} (h : Chain (Fits s) t items u) :
    SameBut (Touched s (bodiesOf items)) t u :=
  frame_of_chain h fun hi hf => hf.touched.mono fun _ ht =>
    ht.mono fun _ ha => List.mem_flatMap.2 ⟨_, hi, ha⟩

/-- A function item in a pass: its body is checked with the result in its type for return type. What
is recorded for the nodes in the body then is recorded at the end, and so is the type of the item,
if it has a node of its own that no target is bound to. -/
theorem Passes.function {p : Program} (h : Passes s p t u) {i : Item} {d : FunctionDecl}
    (hi : i ∈ p.items) (hd : i.kind = .function d) :
    ∃ r params result ty v w, v.return? = some result ∧ Derives s v (.expr d.body true ty) w ∧
      (∀ tail, d.body.tail? = some tail → (result.combine? ty).isSome) ∧
      (∀ id ∈ d.body.ids, Steady s p.parts id → u.get? id = w.get? id) ∧
      (Alone s p i.head.id.ir → u.get? i.head.id.ir = some (.fn r params result)) := by
  obtain ⟨v₀, -, hfits⟩ := h
  obtain ⟨before, after, hp⟩ := List.append_of_mem hi
  rw [hp] at hfits
  obtain ⟨v₁, -, hrest⟩ := hfits.split
  obtain ⟨g, kind⟩ := i
  cases hd
  cases hrest with
  | @cons _ v₂ _ _ _ hthis hafter =>
    have hlater := touched_bodies hafter
    have hbody := hthis.touched
    have hsub : (Item.bodyParts ⟨g, .function d⟩ ++ bodiesOf after).Sublist p.parts := by
      unfold Program.parts
      rw [hp, List.flatMap_append, List.flatMap_cons]
      exact ((List.sublist_append_right ..).append (bodiesOf_sublist after)).trans
        (List.sublist_append_right ..)
    cases hthis with
    | @function w r params result ty _ _ hget hb htail =>
      refine ⟨r, params, result, ty, v₁.pushReturn result, w, rfl, hb, htail, fun id hid hs => ?_,
        fun ⟨hcount, hfree⟩ => ?_⟩
      · refine hlater id ?_
        rintro (hin | ht)
        · exact (hs.of_sublist hsub).disjoint (d.body.irsAll_parts ▸ hid) hin
        · exact hs.free (ht.mono ((List.sublist_append_right ..).trans hsub).subset)
      · -- the node of the item is in no body
        have hown : g.id.ir ∉ Part.irsAll p.parts := fun hin => by
          have hfirm : g.id.ir ∈ p.firm := List.mem_flatMap.2 ⟨_, hi, Item.head_mem_firm _⟩
          have hcount : List.count g.id.ir p.ids ≤ 1 := hcount
          rw [p.ids_perm.count_eq, List.count_append] at hcount
          have h₁ := List.count_pos_iff.2 hfirm
          have h₂ := List.count_pos_iff.2 hin
          omega
        have hnot : ∀ {parts : List Part}, parts.Sublist p.parts → ¬ Touched s parts g.id.ir :=
          fun hs ht => ht.elim (fun hin => hown ((Part.irsAll_sublist hs).subset hin))
            fun ht => hfree (ht.mono hs.subset)
        exact (hlater _ (hnot ((List.sublist_append_right ..).trans hsub))).trans
          ((hbody _ (hnot ((List.sublist_append_left ..).trans hsub))).trans hget)

/-- Every expression in the body of a function is checked with its result for return type. -/
theorem Passes.located {p : Program} (h : Passes s p t u) {i : Item} {d : FunctionDecl}
    (hi : i ∈ p.items) (hd : i.kind = .function d) :
    ∃ r params result,
      (Alone s p i.head.id.ir → u.get? i.head.id.ir = some (.fn r params result)) ∧
      ∀ e, .expr e ∈ d.body.parts → (∀ g name, e ≠ .identifier g name) →
        Located s p.parts u (some result) e := by
  obtain ⟨r, params, result, ty, v, w, hr, hb, -, hkept, hitem⟩ := h.function hi hd
  have hsub : d.body.parts.Sublist p.parts := by
    have hparts : i.bodyParts = d.body.parts := by
      unfold Item.bodyParts
      rw [hd]
    exact hparts ▸ (List.sublist_append_right ..).trans (Program.parts_sublist hi)
  refine ⟨r, params, result, hitem, fun e he hne => ?_⟩
  have hvisits := hb.visits
  have hloc := hvisits.located e he hne
  rw [hr] at hloc
  refine hloc.widen fun id hid hs => ⟨hs.of_sublist hsub, hkept id ?_ hs⟩
  exact d.body.irsAll_parts ▸ hvisits.closed.ids_subset he hid

/-- All of an expression in the body of a function is in that body. -/
theorem Passes.closed {p : Program} (h : Passes s p t u) {i : Item} {d : FunctionDecl}
    (hi : i ∈ p.items) (hd : i.kind = .function d) : Closed d.body.parts := by
  obtain ⟨_, _, _, _, _, _, _, hb, -⟩ := h.function hi hd
  exact hb.visits.closed

/-! ## Blocks and conditionals that have a value -/

/-- The type is neither unit nor the error type. -/
def Tangible (c : Ty) : Prop := ∀ r, ¬ (Ty.unit r).Below c

theorem Tangible.of_below {a c : Ty} (h : Tangible c) (ha : a.Below c) : Tangible a :=
  fun r hr => h r (hr.trans ha)

theorem Tangible.isUnit {c : Ty} (h : Tangible c) : c.isUnit = false := by
  cases c with
  | unit r => exact absurd (.unit r r) (h r)
  | _ => rfl

theorem get?_record_tangible (other : IrId) {id : IrId} {a ty : Ty} (ha : Tangible a)
    (hty : Tangible ty) (h : t.get? id = some a) :
    ∃ c, (t.record other ty).get? id = some c ∧ Tangible c := by
  by_cases hid : other = id
  · rw [hid]
    exact ⟨ty, get?_record_self, hty⟩
  · rw [get?_record_of_ne hid]
    exact ⟨a, h, ha⟩

namespace Located

variable {e : Expr} {c : Ty}

/-- What a located expression had for a type is below what it has in the end. -/
theorem below (h : Located s parts u r e) (hs : Steady s parts e.ir) (hc : u.get? e.ir = some c) :
    ∃ t' u' final ty, Derives s t' (.expr e final ty) u' ∧ ty.Below c ∧
      ∀ id ∈ e.ids, Steady s parts id → u.get? id = u'.get? id ∨ id = e.ir := by
  obtain ⟨t', u', final, ty, -, hd, hids⟩ := h
  refine ⟨t', u', final, ty, hd, ?_, fun id hid hs => (hids id hid hs).imp_right And.left⟩
  rcases hids e.ir e.ir_mem_ids hs with hsame | ⟨-, c', hbelow, hsame⟩
  · rw [hsame, hd.get?_self] at hc
    cases hc
    exact .refl _
  · rw [hsame] at hc
    cases hc
    exact hbelow

/-- A block with a type other than unit has a last expression, which has such a type too. -/
theorem tail {g : Head} {ss : List Stmt} {tail : Option Expr}
    (h : Located s parts u r (.block g ss tail)) (hs : Steady s parts g.id.ir)
    (htail : ∀ f, tail = some f → Steady s parts f.ir) (hc : u.get? g.id.ir = some c)
    (htangible : Tangible c) : ∃ f c, tail = some f ∧ u.get? f.ir = some c ∧ Tangible c := by
  obtain ⟨t', u', final, ty, hd, hbelow, hids⟩ := h.below hs hc
  cases hd with
  | blockUnit => exact absurd hbelow (htangible _)
  | @block _ _ v _ _ _ f _ _ hf =>
    have hin : f.ir ∈ (Expr.block g ss (some f)).ids := by
      rw [← Expr.irsAll_parts]
      simp only [Expr.parts, Part.irsAll_cons, Part.irsAll_append, List.mem_append,
        Expr.irsAll_parts]
      exact .inr (.inr f.ir_mem_ids)
    rcases hids f.ir hin (htail f rfl) with hsame | hsame
    · have hty := htangible.of_below hbelow
      obtain ⟨c', hget, hc'⟩ := get?_record_tangible g.id.ir hty hty hf.get?_self
      exact ⟨f, c', rfl, hsame.trans hget, hc'⟩
    · exact ⟨f, c, rfl, (congrArg u.get? hsame).trans hc, htangible⟩

/-- Both blocks of a conditional with a type other than unit have such a type. -/
theorem branches {g : Head} {condition thenBody elseBody : Expr}
    (h : Located s parts u r (.ifElse g condition thenBody elseBody))
    (hsub : (Expr.ifElse g condition thenBody elseBody).parts.Sublist parts)
    (hs : Steady s parts g.id.ir) (hthen : Steady s parts thenBody.ir)
    (helse : Steady s parts elseBody.ir) (hc : u.get? g.id.ir = some c) (htangible : Tangible c) :
    ∀ b ∈ [thenBody, elseBody], ∃ c, u.get? b.ir = some c ∧ Tangible c := by
  obtain ⟨t', u', final, ty, hd, hbelow, hids⟩ := h.below hs hc
  cases hd with
  | ifElse => exact absurd hbelow (htangible _)
  | @ifElseFinal _ _ v w expected ct tt et both ty _ _ _ _ _ _ hx hy hboth hty =>
    have htangible' := htangible.of_below hbelow
    have htt : tt.Below ty :=
      (Ty.least_of_combine? hboth).right.trans (Ty.least_of_combine? hty).left
    have hinside : (thenBody.parts ++ elseBody.parts).Sublist parts := by
      refine List.Sublist.trans ?_ hsub
      exact (List.sublist_append_right ..).trans (List.sublist_cons_self ..)
    -- nothing happens at the node of the first block while the second is checked
    have hkept : w.get? thenBody.ir = some tt := by
      refine (hy.visits.frame _ ?_).trans hx.get?_self
      rintro (hin | ht)
      · exact (hthen.of_sublist hinside).disjoint
          (thenBody.irsAll_parts ▸ thenBody.ir_mem_ids) hin
      · exact hthen.free (ht.mono ((List.sublist_append_right ..).trans hinside).subset)
    have hnode : ∀ b ∈ [thenBody, elseBody], Steady s parts b.ir →
        (∃ a, w.get? b.ir = some a ∧ Tangible a) → ∃ c, u.get? b.ir = some c ∧ Tangible c := by
      intro b hb hsb ⟨a, ha, hsa⟩
      have hin : b.ir ∈ (Expr.ifElse g condition thenBody elseBody).ids := by
        rw [← Expr.irsAll_parts]
        simp only [Expr.parts, Part.irsAll_cons, Part.irsAll_append, List.mem_append,
          Expr.irsAll_parts]
        rcases List.mem_cons.1 hb with rfl | hb
        · exact .inr (.inr (.inl b.ir_mem_ids))
        · exact .inr (.inr (.inr (List.mem_singleton.1 hb ▸ b.ir_mem_ids)))
      rcases hids b.ir hin hsb with hsame | hsame
      · obtain ⟨c', hget, hc'⟩ := get?_record_tangible g.id.ir hsa htangible' ha
        exact ⟨c', hsame.trans hget, hc'⟩
      · exact ⟨c, (congrArg u.get? hsame).trans hc, htangible⟩
    intro b hb
    rcases List.mem_cons.1 hb with rfl | hb'
    · exact hnode b hb hthen ⟨tt, hkept, htangible'.of_below htt⟩
    · cases List.mem_singleton.1 hb'
      exact hnode _ hb helse ⟨et, hy.get?_self,
        htangible'.of_below (Ty.least_of_combine? hty).right⟩

end Located

end MiddleEnd.Check
