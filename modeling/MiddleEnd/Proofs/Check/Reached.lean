/-
  What the final table says about every expression of a body. A derivation looks at each expression
  once, and what it finds for it stays: the table at the end still has the type, and it has a type
  that is known for every declaration that a name in the body stands for (`Derives.reached`).

  A single exception are targets of assignments, whose types may be found after they were looked
  at.
-/
import MiddleEnd.Proofs.Check.Signatures

namespace MiddleEnd.Check

variable {s : Scope} {b : TypeTable} {V F : IrId → Prop} {result : Option Ty}

/-! ## Types that are known -/

/-- The node has a type, and the type is known. -/
def Settled (t : TypeTable) (id : IrId) : Prop := ∃ ty, t.get? id = some ty ∧ ty.complete = true

/-- Types that are known stay known, and nodes other than variables keep theirs. -/
structure Keeps (V : IrId → Prop) (t u : TypeTable) : Prop where
  builtins : u.builtins = t.builtins
  settled : ∀ {id}, Settled t id → Settled u id
  exact : ∀ {id ty}, t.get? id = some ty → ty.complete = true → ¬ V id → u.get? id = some ty

namespace Keeps

variable {t u v : TypeTable}

theorem refl (t : TypeTable) : Keeps V t t where
  builtins := rfl
  settled h := h
  exact h _ _ := h

theorem trans (h : Keeps V t u) (k : Keeps V u v) : Keeps V t v where
  builtins := k.builtins.trans h.builtins
  settled hs := k.settled (h.settled hs)
  exact hg hc hv := k.exact (h.exact hg hc hv) hc hv

/-- A table in which all known types are still there. -/
theorem of_exact (hb : u.builtins = t.builtins)
    (h : ∀ {id ty}, t.get? id = some ty → ty.complete = true → u.get? id = some ty) :
    Keeps V t u where
  builtins := hb
  settled hs := by
    obtain ⟨ty, hg, hc⟩ := hs
    exact ⟨ty, h hg hc, hc⟩
  exact hg hc _ := h hg hc

/-- Recording a type that is known, for a variable or for a node without a type that is known. -/
theorem record {id : IrId} {ty : Ty} (hc : ty.complete = true)
    (h : ∀ {old}, t.get? id = some old → old.complete = true → ¬ V id → old = ty) :
    Keeps V t (t.record id ty) where
  builtins := rfl
  settled := by
    intro other hs
    obtain ⟨ty', hg, hc'⟩ := hs
    by_cases he : id = other
    · exact ⟨ty, he ▸ get?_record_self, hc⟩
    · exact ⟨ty', (get?_record_of_ne he).trans hg, hc'⟩
  exact := by
    intro other ty' hg hc' hv
    rw [TypeTable.get?_record]
    split
    · rename_i he
      cases he
      rw [h hg hc' hv]
    · exact hg

theorem record_new {id : IrId} (ty : Ty) (hn : t.get? id = none) :
    Keeps V t (t.record id ty) :=
  .of_exact rfl fun {other ty'} hg _ => by
    have hne : id ≠ other := fun he => by rw [he, hg] at hn; cases hn
    exact (get?_record_of_ne hne).trans hg

end Keeps

theorem Derives.keeps {t u : TypeTable} {j : Judgement} (h : Derives s t j u) (hg : j.Given)
    (hr : Ready s b V F result j.ids j.parts t) : Keeps V t u := by
  refine .of_exact h.setting.builtins ?_
  intro id ty hget hc
  refine (h.evolved hg hr).evolves.keeps ?_ hget hc
  intro hid
  rw [hr.fresh id hid] at hget
  cases hget

/-! ## Assignments to names -/

section

variable {h g : Head} {name : String} {value : Expr} {id : IrId} {t u : TypeTable} {tt vt ty : Ty}

/-- What an assignment of type `ty` makes of table `u`, before its own node `h` is recorded: its
target `g` has the type and the declaration `id` one that is alike, and all else is as it was. -/
structure Assigned (V : IrId → Prop) (h g id : IrId) (ty : Ty) (u w : TypeTable) : Prop where
  complete : ty.complete = true
  keeps : Keeps V u w
  unrecorded : w.get? h = none
  target : w.get? g = some ty
  declared : ∃ dt, w.get? id = some dt ∧ dt.complete = true ∧ ty.Alike dt
  others : ∀ other, other ≠ g → other ≠ id → w.get? other = u.get? other

theorem Assigned.settled {h g id : IrId} {ty : Ty} {u w : TypeTable}
    (ha : Assigned V h g id ty u w) : Settled w id := by
  obtain ⟨dt, hget, hc, _⟩ := ha.declared
  exact ⟨dt, hget, hc⟩

theorem Derives.assigned (hval : Derives s (t.record g.id.ir tt) (.expr value false vt) u)
    (hd : declaration s (.identifier g name) = .ok id) (hget : t.get? id = some tt)
    (hcomb : tt.combine? vt = some ty)
    (hr : Ready s b V F result (h.id.ir :: ([g.id.ir] ++ value.ids))
      (.expr (.assign h (.identifier g name) value) ::
        ([.expr (.identifier g name)] ++ value.parts)) t) :
    Assigned V h.id.ir g.id.ir id ty u
      (Check.settled s (u.record g.id.ir ty) (.identifier g name) tt ty) := by
  have hgv : ¬ V g.id.ir := hr.tail.left.placed.expr (List.mem_singleton_self _)
  have hgn : t.get? g.id.ir = none := hr.tail.head
  have hgF : ¬ F g.id.ir := hr.tail.left.placed.loose _ (List.mem_singleton_self _)
  have hne : g.id.ir ≠ id := fun he => by rw [he, hget] at hgn; cases hgn
  have htt : Allowed F g.id.ir tt := (hr.good.entries hget).imp_right fun hi => ⟨hi.1, hgF⟩
  have hvalue := hr.assignedValue hget
  have he := hval.evolved trivial hvalue.tail
  have hc : ty.complete = true := complete_of_assigned htt he.found hcomb
  have hgh : g.id.ir ≠ h.id.ir := fun e => hr.placed.not_mem_tail (e ▸ List.mem_cons_self ..)
  have hid : id ≠ h.id.ir := fun e => by
    rw [e, hr.head] at hget
    cases hget
  have hgu : u.get? g.id.ir = some tt :=
    (he.evolves.get?_eq_of_not_variable hr.tail.placed.not_mem_tail hgv).trans get?_record_self
  -- the target gets the type it had, if that was known
  have htarget : Keeps V u (u.record g.id.ir ty) := .record hc fun {old} hg ho _ => by
    rw [hgu] at hg
    cases hg
    exact (Ty.combine?_complete ho he.found hcomb).1.symm
  refine ⟨hc, ?_, ?_, ?_, ?_, ?_⟩
  · rcases hr.good.entries hget with hct | ⟨_, hnF⟩
    · rw [settled_of_complete _ _ hct]
      exact htarget
    · have hV : V id :=
        (hr.tail.left.placed.names (List.mem_singleton_self _) hd).resolve_right hnF
      refine htarget.trans ?_
      unfold Check.settled
      rw [hd]
      split
      · exact .record hc fun _ _ hnv => absurd hV hnv
      · exact .refl _
  · rw [get?_settled_of_ne _ _ hd hid, get?_record_of_ne hgh]
    exact (hval.passLast trivial hvalue).head
  · rw [get?_settled_of_ne _ _ hd (Ne.symm hne)]
    exact get?_record_self
  · -- the declaration is settled by the assignment, unless its type was known
    have hidt : (t.record g.id.ir tt).get? id = some tt := (get?_record_of_ne hne).trans hget
    rcases hr.good.entries hget with hct | ⟨⟨r, rfl⟩, _⟩
    · have hidv : id ∉ value.ids := by
        intro hm
        rw [hvalue.tail.fresh id hm] at hidt
        cases hidt
      rw [settled_of_complete _ _ hct, get?_record_of_ne hne,
        (Ty.combine?_complete hct he.found hcomb).1]
      exact ⟨tt, he.evolves.keeps hidv hidt hct, hct, .refl tt⟩
    · exact ⟨ty, get?_settled_self hd, hc, .refl ty⟩
  · intro other hog hoid
    rw [get?_settled_of_ne _ _ hd (Ne.symm hoid), get?_record_of_ne (Ne.symm hog)]

end

/-! ## Expressions and names that were looked at -/

/-- The table has the type that a derivation found for the expression. -/
inductive Found (s : Scope) (u : TypeTable) : Expr → Prop
  | derived {t v : TypeTable} {e : Expr} {final : Bool} {ty : Ty} :
    Derives s t (.expr e final ty) v →
    t.builtins = u.builtins →
    u.get? e.ir = some ty →
    ty.complete = true →
    Found s u e
  /-- The target of an assignment. -/
  | target (g : Head) (x : String) : Settled u g.id.ir → Found s u (.identifier g x)

theorem Found.settled {u : TypeTable} {e : Expr} (h : Found s u e) : Settled u e.ir := by
  cases h with
  | derived _ _ hg hc => exact ⟨_, hg, hc⟩
  | target g x hs => exact hs

theorem Found.keep {u v : TypeTable} {e : Expr} (h : Found s u e) (hk : Keeps V u v)
    (hv : ¬ V e.ir) : Found s v e := by
  cases h with
  | derived hd hb hg hc => exact .derived hd (hb.trans hk.builtins.symm) (hk.exact hg hc hv) hc
  | target g x hs => exact .target g x (hk.settled hs)

/-- All expressions among the parts were looked at, and the declarations of all names have types. -/
structure Reached (s : Scope) (V : IrId → Prop) (u : TypeTable) (parts : List Part) : Prop where
  loose : ∀ e, .expr e ∈ parts → ¬ V e.ir
  exprs : ∀ e, .expr e ∈ parts → Found s u e
  names : ∀ {g x id}, .expr (.identifier g x) ∈ parts →
    declaration s (.identifier g x) = .ok id → Settled u id

namespace Reached

variable {u v : TypeTable} {parts parts' : List Part}

theorem quiet (h : ∀ e, .expr e ∉ parts) : Reached s V u parts where
  loose e he := absurd he (h e)
  exprs e he := absurd he (h e)
  names he := absurd he (h _)

theorem keep (h : Reached s V u parts) (hk : Keeps V u v) : Reached s V v parts where
  loose := h.loose
  exprs e he := (h.exprs e he).keep hk (h.loose e he)
  names he hd := hk.settled (h.names he hd)

theorem append (h : Reached s V u parts) (h' : Reached s V u parts') :
    Reached s V u (parts ++ parts') where
  loose e he := (List.mem_append.1 he).elim (h.loose e) (h'.loose e)
  exprs e he := (List.mem_append.1 he).elim (h.exprs e) (h'.exprs e)
  names he hd := (List.mem_append.1 he).elim (h.names · hd) (h'.names · hd)

theorem other (h : Reached s V u parts) (p : Part) (hp : ∀ e, p ≠ .expr e) :
    Reached s V u (p :: parts) :=
  have hthis : Reached s V u [p] := .quiet fun e he => hp e (List.mem_singleton.1 he).symm
  hthis.append h

/-- One more expression that is no name. -/
theorem node (h : Reached s V u parts) {e : Expr} (hv : ¬ V e.ir) (he : Found s u e)
    (hn : ∀ g x, e ≠ .identifier g x) : Reached s V u (.expr e :: parts) := by
  have hthis : Reached s V u [.expr e] := ?_
  · exact hthis.append h
  refine ⟨?_, ?_, ?_⟩
  · intro e' hm
    cases List.mem_singleton.1 hm
    exact hv
  · intro e' hm
    cases List.mem_singleton.1 hm
    exact he
  · intro g x id hm _
    cases List.mem_singleton.1 hm
    exact absurd rfl (hn g x)

end Reached

section

variable {t u v : TypeTable} {e : Expr} {final : Bool} {ty : Ty} {parts : List Part}

theorem Derives.foundAt (h : Derives s t (.expr e final ty) u)
    (hr : Ready s b V F result e.ids e.parts t) : Found s u e :=
  .derived h h.setting.builtins.symm h.get?_self (h.evolved trivial hr).found

/-- An expression that is no name, after what is reached within it. -/
theorem Derives.reachedNode (h : Derives s t (.expr e final ty) (u.record e.ir ty))
    (hr : Ready s b V F result e.ids e.parts t) (hn : u.get? e.ir = none)
    (hname : ∀ g x, e ≠ .identifier g x) (hin : Reached s V u parts) :
    Reached s V (u.record e.ir ty) (.expr e :: parts) :=
  (hin.keep (.record_new ty hn)).node (hr.placed.expr e.self_mem_parts) (h.foundAt hr) hname

/-- Three pieces, one after the other. -/
theorem reached_three {w : TypeTable} {p q r : List Part} (hp : Reached s V t p)
    (hq : Reached s V u q) (hr : Reached s V w r) (hu : Keeps V t u) (hw : Keeps V u w) :
    Reached s V w (p ++ (q ++ r)) :=
  (hp.keep (hu.trans hw)).append ((hq.keep hw).append hr)

/-- A name that is looked at, in its own table. -/
theorem reached_name {g : Head} {x : String} {id : IrId} (hv : ¬ V g.id.ir)
    (hf : Found s u (.identifier g x)) (hd : declaration s (.identifier g x) = .ok id)
    (hs : Settled u id) : Reached s V u [.expr (.identifier g x)] where
  loose e he := by
    cases List.mem_singleton.1 he
    exact hv
  exprs e he := by
    cases List.mem_singleton.1 he
    exact hf
  names he hd' := by
    cases List.mem_singleton.1 he
    cases hd.symm.trans hd'
    exact hs

end

/-- A derivation looks at every expression of its parts. -/
theorem Derives.reached {t u : TypeTable} {j : Judgement} (h : Derives s t j u) :
    j.Given → Ready s b V F result j.ids j.parts t → Reached s V u j.parts := by
  induction h with
  | literal h lit final hl =>
    intro _ hr
    exact Derives.reachedNode (.literal h lit final hl) hr hr.head (by simp) (.quiet (by simp))
  | @identifier t id ty h name final hd hget hi =>
    intro _ hr
    have hc : ty.complete = true := by
      rcases hr.good.entries hget with hc | ⟨⟨r, rfl⟩, _⟩
      · exact hc
      · cases hi
    have hall : Derives s t (.expr (.identifier h name) final ty) (t.record h.id.ir ty) :=
      .identifier h name final hd hget hi
    exact reached_name (hr.placed.expr (List.mem_singleton_self _)) (hall.foundAt hr) hd
      ((Keeps.record_new (V := V) ty hr.head).settled ⟨ty, hget, hc⟩)
  | retUnit h final hret hcomb =>
    intro _ hr
    exact Derives.reachedNode (.retUnit h final hret hcomb) hr hr.head (by simp) (.quiet (by simp))
  | @ret t u r vt ty h value final hret hd hcomb ih =>
    intro _ hr₀
    have hr := hr₀
    simp only [Judgement.ids, Judgement.parts, Expr.ids_ret, Expr.parts] at hr
    exact Derives.reachedNode (.ret h value final hret hd hcomb) hr₀ (hd.passLast trivial hr).head
      (by simp) (ih trivial hr.tail)
  | @binary t u v lt rt ty h op lhs rhs final hl hrt hcomb ihl ihr =>
    intro _ hr₀
    have hr := hr₀
    simp only [Judgement.ids, Judgement.parts, Expr.ids_binary, Expr.parts] at hr
    have hrest := hl.pass trivial hr
    exact Derives.reachedNode (.binary h op lhs rhs final hl hrt hcomb) hr₀
      (hrt.passLast trivial hrest).head (by simp)
      (((ihl trivial hr.tail.left).keep (hrt.keeps trivial hrest.tail)).append
        (ihr trivial hrest.tail))
  | @call t u decl id r params ret h callee args final hn hs hget hlen hd ih =>
    intro _ hr₀
    have hr := hr₀
    simp only [Judgement.ids, Judgement.parts, Expr.ids_call, Expr.parts] at hr
    have hF : F id := hr.placed.callees (List.mem_cons_self ..) hn hs
    have hparts := hr.good.firm hget hF
    unfold Ty.complete at hparts
    rw [Bool.and_eq_true] at hparts
    have hargs : Ready s b V F result (h.id.ir :: Expr.idsAll args)
        (.expr (.call h callee args) :: Expr.partsAll args) t :=
      hr.sub ((List.sublist_append_right ..).cons_cons _) fun q hq => by
        simp only [List.mem_cons] at hq ⊢
        exact hq.imp_right .inr
    exact Derives.reachedNode (.call h callee args final hn hs hget hlen hd) hr₀
      (hd.passLast hparts.1 hargs).head (by simp)
      ((ih hparts.1 hargs.tail).other (.callee callee) (by simp))
  | @callError t u decl id r tys h callee args final hn hs hget _ _ =>
    intro _ hr
    simp only [Judgement.ids, Judgement.parts, Expr.ids_call, Expr.parts] at hr
    exact absurd (hr.good.firm hget (hr.placed.callees (List.mem_cons_self ..) hn hs))
      Bool.false_ne_true
  | @assignName t u id tt vt ty h g name value final hd hget hval hcomb ih =>
    intro _ hr₀
    have hr := hr₀
    simp only [Judgement.ids, Judgement.parts, Expr.ids_assign, Expr.ids_identifier, Expr.parts]
      at hr
    have hvalue := hr.assignedValue hget
    have has := hval.assigned hd hget hcomb hr
    have hname : Reached s V (settled s (u.record g.id.ir ty) (.identifier g name) tt ty)
        [.expr (.identifier g name)] :=
      reached_name (hr.tail.left.placed.expr (List.mem_singleton_self _))
        (.target g name ⟨ty, has.target, has.complete⟩) hd has.settled
    exact Derives.reachedNode (.assignName h g name value final hd hget hval hcomb) hr₀
      has.unrecorded (by simp) (hname.append ((ih trivial hvalue.tail).keep has.keeps))
  | @assign t u v tt vt ty h target value final hn ht hval hcomb iht ihv =>
    intro _ hr₀
    have hr := hr₀
    simp only [Judgement.ids, Judgement.parts, Expr.ids_assign, Expr.parts] at hr
    have hrest := ht.pass trivial hr
    have htc := (ht.evolved trivial hr.tail.left).found
    have he := hval.evolved trivial hrest.tail
    have hir : target.ir ∉ value.ids := hr.tail.placed.disjoint _ (Expr.ir_mem_ids target)
    have hsame : v.get? target.ir = some tt := he.evolves.keeps hir ht.get?_self htc
    have heq := (Ty.combine?_complete htc he.found hcomb).1
    have hne : target.ir ≠ h.id.ir := fun he => hr.placed.not_mem_tail
      (List.mem_append_left _ (he ▸ Expr.ir_mem_ids target))
    have hall := Derives.assign h target value final hn ht hval hcomb
    rw [settled_of_complete target ty htc] at hall ⊢
    have hv : (v.record target.ir ty).get? h.id.ir = none :=
      (get?_record_of_ne hne).trans (hval.passLast trivial hrest).head
    have htarget : Keeps V v (v.record target.ir ty) := .record (heq ▸ htc) fun {old} hg _ _ => by
      rw [hsame] at hg
      cases hg
      exact heq.symm
    exact Derives.reachedNode hall hr₀ hv (by simp)
      ((((iht trivial hr.tail.left).keep (hval.keeps trivial hrest.tail)).append
        (ihv trivial hrest.tail)).keep htarget)
  | @ifOnly t u v ct bt h condition body final hc hb ihc ihb =>
    intro _ hr₀
    have hr := hr₀
    simp only [Judgement.ids, Judgement.parts, Expr.ids_ifOnly, Expr.parts] at hr
    have hrest := hc.pass trivial hr
    exact Derives.reachedNode (.ifOnly h condition body final hc hb) hr₀
      (hb.passLast trivial hrest).head (by simp)
      (((ihc trivial hr.tail.left).keep (hb.keeps trivial hrest.tail)).append
        (ihb trivial hrest.tail))
  | @ifElse t u v w ct tt et h condition thenBody elseBody hc ht he ihc iht ihe =>
    intro _ hr₀
    have hr := hr₀
    simp only [Judgement.ids, Judgement.parts, Expr.ids_ifElse, Expr.parts] at hr
    have hbranches := hc.pass trivial hr
    have hlast := ht.pass trivial hbranches
    exact Derives.reachedNode (.ifElse h condition thenBody elseBody hc ht he) hr₀
      (he.passLast trivial hlast).head (by simp)
      (reached_three (ihc trivial hr.tail.left) (iht trivial hbranches.tail.left)
        (ihe trivial hlast.tail) (ht.keeps trivial hbranches.tail.left)
        (he.keeps trivial hlast.tail))
  | @ifElseFinal t u v w r ct tt et both ty h condition thenBody elseBody hret hc ht he hct hce
      ihc iht ihe =>
    intro _ hr₀
    have hr := hr₀
    simp only [Judgement.ids, Judgement.parts, Expr.ids_ifElse, Expr.parts] at hr
    have hbranches := hc.pass trivial hr
    have hlast := ht.pass trivial hbranches
    exact Derives.reachedNode (.ifElseFinal h condition thenBody elseBody hret hc ht he hct hce) hr₀
      (he.passLast trivial hlast).head (by simp)
      (reached_three (ihc trivial hr.tail.left) (iht trivial hbranches.tail.left)
        (ihe trivial hlast.tail) (ht.keeps trivial hbranches.tail.left)
        (he.keeps trivial hlast.tail))
  | @ifElseIf t u v w ct tt et h condition thenBody elseIf final hc ht he ihc iht ihe =>
    intro _ hr₀
    have hr := hr₀
    simp only [Judgement.ids, Judgement.parts, Expr.ids_ifElseIf, Expr.parts] at hr
    have hbranches := hc.pass trivial hr
    have hlast := ht.pass trivial hbranches
    exact Derives.reachedNode (.ifElseIf h condition thenBody elseIf final hc ht he) hr₀
      (he.passLast trivial hlast).head (by simp)
      (reached_three (ihc trivial hr.tail.left) (iht trivial hbranches.tail.left)
        (ihe trivial hlast.tail) (ht.keeps trivial hbranches.tail.left)
        (he.keeps trivial hlast.tail))
  | @blockUnit t u h body final hb ih =>
    intro _ hr₀
    have hr := hr₀
    simp only [Judgement.ids, Judgement.parts, Expr.ids_block_none, Expr.parts] at hr
    exact Derives.reachedNode (.blockUnit h body final hb) hr₀ (hb.passLast trivial hr).head
      (by simp) (ih trivial hr.tail)
  | @block t u v ty h body tail final hb ht ihb iht =>
    intro _ hr₀
    have hr := hr₀
    simp only [Judgement.ids, Judgement.parts, Expr.ids_block, Expr.parts] at hr
    have hrest := hb.pass trivial hr
    exact Derives.reachedNode (.block h body tail final hb ht) hr₀
      (ht.passLast trivial hrest).head (by simp)
      (((ihb trivial hr.tail.left).keep (ht.keeps trivial hrest.tail)).append
        (iht trivial hrest.tail))
  | @index t u v pt both element r capacity h base position final hp hcomb hb ihp ihb =>
    intro _ hr₀
    have hr := hr₀
    simp only [Judgement.ids, Judgement.parts, Expr.ids_index, Expr.parts] at hr
    have hswap := hr.swap
    have hrest := hp.pass trivial hswap
    exact Derives.reachedNode (.index h base position final hp hcomb hb) hr₀
      (hb.passLast trivial hrest).head (by simp)
      ((ihb trivial hrest.tail).append
        ((ihp trivial hswap.tail.left).keep (hb.keeps trivial hrest.tail)))
  | @indexError t u v pt both r h base position final hp _ hb _ _ =>
    intro _ hr
    simp only [Judgement.ids, Judgement.parts, Expr.ids_index, Expr.parts] at hr
    exact absurd (hb.evolved trivial (hp.pass trivial hr.swap).tail).found Bool.false_ne_true
  | @array t u v ft element tys h first rest final hf hrest' hcomb ihf ihr =>
    intro _ hr₀
    have hr := hr₀
    simp only [Judgement.ids, Judgement.parts, Expr.ids_array, Expr.idsAll_cons, Expr.parts,
      Expr.partsAll] at hr
    have hrest := hf.pass trivial hr
    exact Derives.reachedNode (.array h first rest final hf hrest' hcomb) hr₀
      (hrest'.passLast trivial hrest).head (by simp)
      (((ihf trivial hr.tail.left).keep (hrest'.keeps trivial hrest.tail)).append
        (ihr trivial hrest.tail))
  | @copies t u ty h element count final he ih =>
    intro _ hr₀
    have hr := hr₀
    simp only [Judgement.ids, Judgement.parts, Expr.ids_copies, Expr.parts] at hr
    exact Derives.reachedNode (.copies h element count final he) hr₀ (he.passLast trivial hr).head
      (by simp) (ih trivial hr.tail)
  | @struct t u decl id r name decls h path fields final hn hs hget hf hm ih =>
    intro _ hr₀
    have hr := hr₀
    simp only [Judgement.ids, Judgement.parts, Expr.ids_struct, Expr.parts] at hr
    have hc := hr.good.firm hget (hr.placed.structs (List.mem_cons_self ..) hn hs)
    have hfields : Ready s b V F result (h.id.ir :: FieldInit.idsAll fields)
        (.expr (.struct h path fields) :: FieldInit.partsAll fields) t :=
      hr.sub ((List.sublist_cons_self ..).cons_cons _) fun q hq => by
        simp only [List.mem_cons] at hq ⊢
        exact hq.imp_right .inr
    exact Derives.reachedNode (.struct h path fields final hn hs hget hf hm) hr₀
      (hf.passLast hc hfields).head (by simp)
      ((ih hc hfields.tail).other (.path path) (by simp))
  | exprsNil | argumentsNil | fieldsNil | stmtsNil =>
    exact fun _ _ => .quiet fun _ => List.not_mem_nil
  | @exprsCons t u v ty tys e es he hes ihe ihr =>
    intro _ hr
    simp only [Judgement.ids, Judgement.parts, Expr.idsAll_cons, Expr.partsAll] at hr
    have hrest := he.next trivial hr
    exact ((ihe trivial hr.left).keep (hes.keeps trivial hrest)).append (ihr trivial hrest)
  | @argumentsCons t u v ty both name param params e es he hcomb hes ihe ihr =>
    intro hgiven hr
    simp only [Judgement.ids, Judgement.parts, Expr.idsAll_cons, Expr.partsAll] at hr
    simp only [Judgement.Given, Members.complete, Bool.and_eq_true] at hgiven
    have hrest := he.next trivial hr
    exact ((ihe trivial hr.left).keep (hes.keeps hgiven.2 hrest)).append (ihr hgiven.2 hrest)
  | @fieldsCons t u v dt vt ty decls h name value rest hv hf hcomb hrest' ihv ihr =>
    intro hgiven hr
    simp only [Judgement.ids, Judgement.parts, FieldInit.idsAll_cons, FieldInit.partsAll] at hr
    have hdc := Members.complete_find? hgiven hf
    have he := hv.evolved trivial hr.tail.left
    obtain ⟨rfl, ha⟩ := Ty.combine?_complete hdc he.found hcomb
    have hmid := hv.pass trivial hr
    have hlast := hmid.recorded hdc
    have hkeeps := (Keeps.record_new (V := V) ty hmid.head).trans (hrest'.keeps hgiven hlast)
    exact (((ihv trivial hr.tail.left).keep hkeeps).append (ihr hgiven hlast)).other (.field h)
      (by simp)
  | effect e _ ih => exact fun _ hr => ih trivial hr
  | declare h pattern ascribed ha =>
    exact fun _ _ => (Reached.quiet (TypeExpr.noExpr_partsOf ascribed)).other (.bind h pattern)
      (by simp)
  | @bind t u v annotated vt ty h pattern ascribed init ha hd hb ih =>
    intro _ hr
    simp only [Judgement.ids, Judgement.parts, Stmt.ids_bind, Stmt.parts] at hr
    have hrest := ha.pass hr
    obtain ⟨hpn, hhn⟩ := (hd.passBoth trivial hrest).unrecorded ty
    have hkeeps : Keeps V v ((v.record pattern.id.ir ty).record h.id.ir ty) :=
      (Keeps.record_new ty hpn).trans (.record_new ty hhn)
    have hascription : Reached s V v (TypeExpr.partsOf ascribed) :=
      .quiet (TypeExpr.noExpr_partsOf ascribed)
    exact ((hascription.append (ih trivial hrest.inner)).keep hkeeps).other (.bind h pattern)
      (by simp)
  | @stmtsCons t u v st rest hs hrest' ihs ihr =>
    intro _ hr
    simp only [Judgement.ids, Judgement.parts, Stmt.idsAll_cons, Stmt.partsAll] at hr
    have hrest := hs.next trivial hr
    exact ((ihs trivial hr.left).keep (hrest'.keeps trivial hrest)).append (ihr trivial hrest)

end MiddleEnd.Check
