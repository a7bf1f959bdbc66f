/-
  A derivation is sound: what it establishes holds in the final table. The final table `T` knows
  what an earlier one found out (`Knows`): complete entries stay, up to the identities they carry
  where they belong to a variable. So every rule can be read off `T` (`Derives.typed`).

  The one thing that can go wrong is an assignment that settles a variable although an assignment
  inside its value has settled it meanwhile, with another type. `AssignsAlike` says that there is
  none.
-/
import MiddleEnd.Proofs.Check.Evolution
import MiddleEnd.Proofs.Check.Typed

namespace MiddleEnd.Check

variable {s : Scope} {b T : TypeTable} {V F : IrId → Prop} {result : Option Ty}

/-! ## Knowledge -/

/-- The table knows what an earlier one found out. -/
structure Knows (V : IrId → Prop) (t T : TypeTable) : Prop where
  builtins : T.builtins = t.builtins
  builtinIds : T.builtinIds = t.builtinIds
  exact : ∀ {id ty}, t.get? id = some ty → ty.complete = true → ¬ V id → T.get? id = some ty
  alike : ∀ {id ty}, t.get? id = some ty → ty.complete = true → V id →
    ∃ ty', T.get? id = some ty' ∧ ty.Alike ty'

namespace Knows

variable {t u : TypeTable}

theorem refl (t : TypeTable) : Knows V t t where
  builtins := rfl
  builtinIds := rfl
  exact hg _ _ := hg
  alike hg _ _ := ⟨_, hg, .refl _⟩

theorem alike_of_get? (h : Knows V t T) {id : IrId} {ty : Ty} (hg : t.get? id = some ty)
    (hc : ty.complete = true) : ∃ ty', T.get? id = some ty' ∧ ty.Alike ty' := by
  by_cases hV : V id
  · exact h.alike hg hc hV
  · exact ⟨ty, h.exact hg hc hV, .refl ty⟩

/-- What holds of a table holds of those before it, since complete entries stay. -/
theorem of_kept (h : Knows V u T) (hs : SameSetting t u)
    (hk : ∀ {id ty}, t.get? id = some ty → ty.complete = true → u.get? id = some ty) :
    Knows V t T where
  builtins := h.builtins.trans hs.builtins
  builtinIds := h.builtinIds.trans hs.builtinIds
  exact hg hc hv := h.exact (hk hg hc) hc hv
  alike hg hc hv := h.alike (hk hg hc) hc hv

theorem of_record {id : IrId} {ty : Ty} (h : Knows V (t.record id ty) T)
    (hn : t.get? id = none) : Knows V t T := by
  refine h.of_kept (.record t id ty) ?_
  intro other ty' hg _
  have hne : id ≠ other := by
    intro he
    rw [he, hg] at hn
    cases hn
  exact (get?_record_of_ne hne).trans hg

theorem get?_self {id : IrId} {ty : Ty} (h : Knows V (t.record id ty) T)
    (hc : ty.complete = true) (hv : ¬ V id) : T.get? id = some ty :=
  h.exact get?_record_self hc hv

end Knows

/-! ## Assignments within assignments -/

/-- Assignments to a variable have the types of the assignments to it within their values. -/
def AssignsAlike (s : Scope) (T : TypeTable) (parts : List Part) : Prop :=
  ∀ a g x v, .expr (.assign a (.identifier g x) v) ∈ parts →
  ∀ a' g' x' v', .expr (.assign a' (.identifier g' x') v') ∈ v.parts →
  ∀ id, declaration s (.identifier g x) = .ok id → declaration s (.identifier g' x') = .ok id →
  ∀ ty ty', T.get? a.id.ir = some ty → T.get? a'.id.ir = some ty' → ty.Alike ty'

theorem AssignsAlike.sub {parts parts' : List Part} (h : AssignsAlike s T parts)
    (hsub : ∀ p ∈ parts', p ∈ parts) : AssignsAlike s T parts' :=
  fun a g x v hm => h a g x v (hsub _ hm)

theorem AssignsAlike.tail {p : Part} {parts : List Part} (h : AssignsAlike s T (p :: parts)) :
    AssignsAlike s T parts :=
  h.sub fun _ hm => List.mem_cons_of_mem _ hm

theorem AssignsAlike.left {parts parts' : List Part} (h : AssignsAlike s T (parts ++ parts')) :
    AssignsAlike s T parts :=
  h.sub fun _ hm => List.mem_append_left _ hm

theorem AssignsAlike.right {parts parts' : List Part} (h : AssignsAlike s T (parts ++ parts')) :
    AssignsAlike s T parts' :=
  h.sub fun _ hm => List.mem_append_right _ hm

/-! ## Ready tables -/

/-- The table is good, and the nodes are placed and have no types in it yet. -/
structure Ready (s : Scope) (b : TypeTable) (V F : IrId → Prop) (result : Option Ty)
    (ids : List IrId) (parts : List Part) (t : TypeTable) : Prop where
  placed : Placed s b V F ids parts
  good : Good b F t
  fresh : ∀ id ∈ ids, t.get? id = none
  result : t.return? = result

namespace Ready

variable {ids ids' : List IrId} {parts parts' : List Part} {t u : TypeTable}

theorem sub (h : Ready s b V F result ids parts t) (hids : ids'.Sublist ids)
    (hparts : ∀ p ∈ parts', p ∈ parts) : Ready s b V F result ids' parts' t where
  placed := h.placed.sub hids hparts
  good := h.good
  fresh id hid := h.fresh id (hids.mem hid)
  result := h.result

theorem tail {id : IrId} {p : Part} (h : Ready s b V F result (id :: ids) (p :: parts) t) :
    Ready s b V F result ids parts t :=
  h.sub (List.sublist_cons_self ..) fun _ hp => List.mem_cons_of_mem _ hp

theorem left (h : Ready s b V F result (ids ++ ids') (parts ++ parts') t) :
    Ready s b V F result ids parts t :=
  h.sub (List.sublist_append_left ..) fun _ hp => List.mem_append_left _ hp

theorem right (h : Ready s b V F result (ids ++ ids') (parts ++ parts') t) :
    Ready s b V F result ids' parts' t :=
  h.sub (List.sublist_append_right ..) fun _ hp => List.mem_append_right _ hp

theorem swap {id : IrId} {p : Part}
    (h : Ready s b V F result (id :: (ids ++ ids')) (p :: (parts ++ parts')) t) :
    Ready s b V F result (id :: (ids' ++ ids)) (p :: (parts' ++ parts)) t where
  placed := h.placed.rearrange (List.perm_append_comm.cons id) fun q hq => by
    simp only [List.mem_cons, List.mem_append] at hq ⊢
    exact hq.imp_right Or.symm
  good := h.good
  fresh other ho := h.fresh other ((List.perm_append_comm.cons id).mem_iff.1 ho)
  result := h.result

theorem head {id : IrId} (h : Ready s b V F result (id :: ids) parts t) : t.get? id = none :=
  h.fresh id (List.mem_cons_self ..)

/-- Nodes are still ready after what evolves at others. -/
theorem after (h : Ready s b V F result ids parts t) {done : List IrId} {parts' : List Part}
    (he : Evolves s V done parts' t u) (hg : Good b F u) (hs : SameSetting t u)
    (hd : ∀ id ∈ ids, id ∉ done) : Ready s b V F result ids parts u where
  placed := h.placed
  good := hg
  fresh id hid := he.get?_eq_none (hd id hid) (h.fresh id hid)
  result := by
    unfold TypeTable.return?
    rw [hs.returns]
    exact h.result

/-- The rest is ready after the type of a node has been recorded. -/
theorem recorded {id : IrId} {p : Part} {ty : Ty}
    (h : Ready s b V F result (id :: ids) (p :: parts) t) (hc : ty.complete = true) :
    Ready s b V F result ids parts (t.record id ty) :=
  h.tail.after (.record t id ty) (h.good.record (.inl hc)) (.record t _ ty)
    (not_mem_singleton_of_not_mem h.placed.not_mem_tail)

/-- The nodes around what is established are still ready, and so is the rest. -/
theorem beyond (outer : List IrId) {done : List IrId} {p : Part} {own : List Part}
    (h : Ready s b V F result (outer ++ (done ++ ids)) (p :: (own ++ parts)) t)
    (he : Evolves s V done parts' t u) (hg : Good b F u) (hs : SameSetting t u) :
    Ready s b V F result (outer ++ ids) (p :: parts) u := by
  have hrest : Ready s b V F result (outer ++ ids) (p :: parts) t := by
    refine h.sub ((List.sublist_append_right ..).append_left outer) ?_
    intro q hq
    rcases List.mem_cons.1 hq with rfl | hq
    · exact List.mem_cons_self ..
    · exact List.mem_cons_of_mem _ (List.mem_append_right _ hq)
  refine hrest.after he hg hs ?_
  intro id hid hm
  rcases List.mem_append.1 hid with hid | hid
  · exact h.placed.disjoint id hid (List.mem_append_left _ hm)
  · have hinner := (List.nodup_append.1 h.placed.nodup).2.1
    exact (List.nodup_append.1 hinner).2.2 id hm id hid rfl

/-- What stands inside two nodes. -/
theorem inner {x y : IrId} {p : Part} (h : Ready s b V F result (x :: y :: ids) (p :: parts) t) :
    Ready s b V F result ids parts t :=
  h.sub ((List.sublist_cons_self ..).trans (List.sublist_cons_self ..))
    fun _ hp => List.mem_cons_of_mem _ hp

/-- Two nodes are without types until they are recorded one after the other. -/
theorem unrecorded {x y : IrId} (h : Ready s b V F result (x :: y :: ids) parts t) (ty : Ty) :
    t.get? y = none ∧ (t.record y ty).get? x = none := by
  have hne : y ≠ x := fun he => h.placed.not_mem_tail (he ▸ List.mem_cons_self ..)
  exact ⟨h.fresh y (List.mem_cons_of_mem _ (List.mem_cons_self ..)),
    (get?_record_of_ne hne).trans h.head⟩

end Ready

/-- The type of the declaration is recorded for the target before the value is checked. -/
theorem Ready.assignedValue {h g : Head} {name : String} {value : Expr} {id : IrId} {t : TypeTable}
    {tt : Ty} (hr : Ready s b V F result (h.id.ir :: ([g.id.ir] ++ value.ids))
      (.expr (.assign h (.identifier g name) value) ::
        ([.expr (.identifier g name)] ++ value.parts)) t)
    (hget : t.get? id = some tt) : Ready s b V F result (h.id.ir :: value.ids)
      (.expr (.assign h (.identifier g name) value) :: value.parts) (t.record g.id.ir tt) := by
  have hgF : ¬ F g.id.ir := hr.tail.left.placed.loose _ (List.mem_singleton_self _)
  have htt : Allowed F g.id.ir tt := (hr.good.entries hget).imp_right fun hi => ⟨hi.1, hgF⟩
  have hsub : Ready s b V F result (h.id.ir :: value.ids)
      (.expr (.assign h (.identifier g name) value) :: value.parts) t :=
    hr.sub ((List.sublist_cons_self ..).cons_cons _) fun q hq => by
      simp only [List.mem_cons, List.mem_append] at hq ⊢
      exact hq.imp_right .inr
  refine hsub.after (.record t g.id.ir tt) (hr.good.record htt) (.record t _ tt) ?_
  intro other ho hm
  rw [List.mem_singleton.1 hm] at ho
  rcases List.mem_cons.1 ho with he | ho
  · exact hr.placed.not_mem_tail (he ▸ List.mem_cons_self ..)
  · exact hr.tail.placed.not_mem_tail ho

section

variable {t u : TypeTable} {j : Judgement} {ids : List IrId} {parts : List Part}

theorem Derives.evolved (h : Derives s t j u) (hg : j.Given)
    (hr : Ready s b V F result j.ids j.parts t) : Evolved s b V F j t u :=
  h.evolve hr.placed hg hr.good

/-- What is established first leaves the rest ready. -/
theorem Derives.next (h : Derives s t j u) (hg : j.Given)
    (hr : Ready s b V F result (j.ids ++ ids) (j.parts ++ parts) t) :
    Ready s b V F result ids parts u :=
  have he := h.evolved hg hr.left
  hr.right.after he.evolves he.good h.setting fun id hid hm => hr.placed.disjoint id hm hid

/-- The node around what is established is still ready, and so is the rest. -/
theorem Derives.pass {id : IrId} {p : Part} (h : Derives s t j u) (hg : j.Given)
    (hr : Ready s b V F result (id :: (j.ids ++ ids)) (p :: (j.parts ++ parts)) t) :
    Ready s b V F result (id :: ids) (p :: parts) u := by
  have he := h.evolved hg hr.tail.left
  exact Ready.beyond [id] hr he.evolves he.good h.setting

theorem Derives.passLast {id : IrId} {p : Part} (h : Derives s t j u) (hg : j.Given)
    (hr : Ready s b V F result (id :: j.ids) (p :: j.parts) t) :
    Ready s b V F result [id] [p] u :=
  h.pass hg (by rw [List.append_nil, List.append_nil]; exact hr)

theorem Derives.passBoth {x y : IrId} {p : Part} (h : Derives s t j u) (hg : j.Given)
    (hr : Ready s b V F result (x :: y :: j.ids) (p :: j.parts) t) :
    Ready s b V F result [x, y] [p] u := by
  have he := h.evolved hg hr.inner
  rw [← List.append_nil j.ids, ← List.append_nil j.parts] at hr
  exact Ready.beyond [x, y] hr he.evolves he.good h.setting

/-- The two nodes of a `let` are still ready after its type, and so is its initial value. -/
theorem Annotates?.pass {x y : IrId} {p : Part} {a : Option TypeExpr} {ty : Option Ty}
    (h : Annotates? s t a ty u)
    (hr : Ready s b V F result (x :: y :: (TypeExpr.idsOf a ++ ids))
      (p :: (TypeExpr.partsOf a ++ parts)) t) :
    Ready s b V F result (x :: y :: ids) (p :: parts) u := by
  have hgood := good_of_annotates? h hr.good hr.inner.left.placed.paths
  exact Ready.beyond [x, y] hr (.of_same (h.frame fun _ hm => hm) fun _ hm => hm) hgood.1 h.setting

theorem Annotates?.passLast {x y : IrId} {p : Part} {a : Option TypeExpr} {ty : Option Ty}
    (h : Annotates? s t a ty u)
    (hr : Ready s b V F result (x :: y :: TypeExpr.idsOf a) (p :: TypeExpr.partsOf a) t) :
    Ready s b V F result [x, y] [p] u :=
  h.pass (by rw [List.append_nil, List.append_nil]; exact hr)

/-- What the final table knows, it knows of all tables before. -/
theorem Derives.knows (h : Derives s t j u) (hg : j.Given)
    (hr : Ready s b V F result j.ids j.parts t) (hk : Knows V u T) : Knows V t T := by
  have he := h.evolved hg hr
  refine hk.of_kept h.setting ?_
  intro id ty hget hc
  refine he.evolves.keeps ?_ hget hc
  intro hid
  rw [hr.fresh id hid] at hget
  cases hget

end

/-! ## Annotations -/

theorem Annotates.denotes {t u : TypeTable} {a : TypeExpr} {ty : Ty} (h : Annotates s t a ty u)
    (hVF : ∀ id, F id → ¬ V id) :
    Ready s b V F result a.ids a.parts t → Knows V u T → Denotes s T a ty := by
  induction h with
  | unit h =>
    intro hr hk
    have hv : ¬ V h.id.ir :=
      hr.placed.nodes (List.mem_singleton_self _) (by simp) _ (List.mem_singleton_self _)
    exact .unit h (hk.get?_self rfl hv)
  | @array u element ty h capacity ha ih =>
    intro hr hk
    have hv : ¬ V h.id.ir :=
      hr.placed.nodes (List.mem_cons_self ..) (by simp) _ (List.mem_singleton_self _)
    have hn : u.get? h.id.ir = none := by
      rw [ha.frame (P := (· ∈ element.ids)) (fun _ hm => hm) _ hr.placed.not_mem_tail]
      exact hr.head
    have hc : ty.complete = true := (ha.good hr.good hr.tail.placed.paths).2
    exact .array h capacity (ih hr.tail (hk.of_record hn)) (hk.get?_self hc hv)
  | @path ty h name hp =>
    intro hr hk
    have hv : ¬ V h.id.ir :=
      hr.placed.nodes (List.mem_singleton_self _) (by simp) _ (List.mem_singleton_self _)
    obtain ⟨id, hid, hget⟩ := Option.bind_eq_some_iff.1 hp
    have hF : F id := hr.placed.paths (List.mem_singleton_self _)
      ((pathTarget?_congr hr.good.builtinIds h).symm.trans hid)
    have hc : ty.complete = true := hr.good.firm hget hF
    have hkt := hk.of_record hr.head
    refine .path h name ?_ (hk.get?_self hc hv)
    unfold pathType?
    rw [pathTarget?_congr hkt.builtinIds, hid]
    exact hkt.exact hget hc (hVF id hF)

theorem Annotates?.denotes {t u : TypeTable} {a : Option TypeExpr} {ty : Option Ty}
    (h : Annotates? s t a ty u) (hVF : ∀ id, F id → ¬ V id)
    (hr : Ready s b V F result (TypeExpr.idsOf a) (TypeExpr.partsOf a) t) (hk : Knows V u T) :
    Denotes? s T a ty := by
  cases h with
  | none => exact .none
  | some h => exact .some (h.denotes hVF hr hk)

/-! ## Bodies -/

theorem alike_of_bound {annotated : Option Ty} {vt ty : Ty}
    (ha : ∀ a, annotated = some a → a.complete = true) (hv : vt.complete = true)
    (h : boundType? annotated vt = some ty) :
    (∀ a, annotated = some a → a.Alike ty) ∧ vt.Alike ty := by
  cases annotated with
  | none =>
    cases h
    exact ⟨by simp, .refl vt⟩
  | some a =>
    obtain ⟨rfl, hav⟩ := Ty.combine?_complete (ha a rfl) hv h
    refine ⟨?_, hav.symm⟩
    intro a' he
    cases he
    exact .refl ty

/-- An assignment changes the entries of its node, of its target and of what it settles only. -/
theorem get?_assigned {u : TypeTable} {target : Expr} {g h x : IrId} {tt ty : Ty} (hg : g ≠ x)
    (hh : h ≠ x) (hs : ∀ id, declaration s target = .ok id → tt.complete = true ∨ id ≠ x) :
    ((settled s (u.record g ty) target tt ty).record h ty).get? x = u.get? x := by
  rw [get?_record_of_ne hh]
  have hsame : (settled s (u.record g ty) target tt ty).get? x = (u.record g ty).get? x := by
    cases hd : declaration s target with
    | ok id =>
      rcases hs id hd with hc | hne
      · rw [settled_of_complete target ty hc]
      · exact get?_settled_of_ne tt ty hd hne
    | error p =>
      unfold Check.settled
      rw [hd]
      split <;> rfl
  rw [hsame, get?_record_of_ne hg]

/-- Knowledge before an assignment that may settle a variable: what the value has settled is alike
what the assignment settles. -/
theorem Knows.of_assigned {u : TypeTable} {g h : Head} {name : String} {id : IrId} {tt ty : Ty}
    (hk : Knows V ((settled s (u.record g.id.ir ty) (.identifier g name) tt ty).record h.id.ir ty)
      T)
    (hd : declaration s (.identifier g name) = .ok id) (hvar : tt.complete = true ∨ V id)
    (hgv : ¬ V g.id.ir) (hn : u.get? h.id.ir = none)
    (hg : u.get? g.id.ir = some tt) (htt : tt.complete = true → ty = tt)
    (htarget : T.get? g.id.ir = some ty)
    (hset : ∀ τ, u.get? id = some τ → τ.complete = true → tt.complete = true ∨
      ∃ ty', T.get? id = some ty' ∧ τ.Alike ty') : Knows V u T where
  builtins := hk.builtins.trans (SameSetting.settled (u.record g.id.ir ty) _ tt ty).builtins
  builtinIds := hk.builtinIds.trans (SameSetting.settled (u.record g.id.ir ty) _ tt ty).builtinIds
  exact := by
    intro x τ hx hcx hvx
    by_cases hgx : g.id.ir = x
    · rw [← hgx, hg] at hx
      cases hx
      rw [← hgx, htarget, htt hcx]
    · have hhx : h.id.ir ≠ x := by
        intro he
        rw [← he, hn] at hx
        cases hx
      refine hk.exact ?_ hcx hvx
      rw [get?_assigned hgx hhx]
      · exact hx
      · intro id' hd'
        rw [hd] at hd'
        cases hd'
        exact hvar.imp_right fun hV he => hvx (he ▸ hV)
  alike := by
    intro x τ hx hcx hvx
    have hgx : g.id.ir ≠ x := fun he => hgv (he ▸ hvx)
    have hhx : h.id.ir ≠ x := by
      intro he
      rw [← he, hn] at hx
      cases hx
    have hsame : ∀ hs : tt.complete = true ∨ id ≠ x, ∃ ty', T.get? x = some ty' ∧ τ.Alike ty' := by
      intro hs
      refine hk.alike ?_ hcx hvx
      rw [get?_assigned hgx hhx]
      · exact hx
      · intro id' hd'
        rw [hd] at hd'
        cases hd'
        exact hs
    by_cases he : id = x
    · rw [← he] at hx
      rcases hset τ hx hcx with hct | ha
      · exact hsame (.inl hct)
      · rw [← he]
        exact ha
    · exact hsame (.inr he)

theorem Derives.typed {t u : TypeTable} {j : Judgement} (h : Derives s t j u)
    (hVF : ∀ id, F id → ¬ V id) : j.Given → Ready s b V F result j.ids j.parts t → Knows V u T →
      AssignsAlike s T j.parts → Typed s T result j := by
  induction h with
  | @literal t ty h lit final hl =>
    intro _ hr hk _
    have hv : ¬ V h.id.ir := hr.placed.expr (List.mem_singleton_self _)
    refine .literal h lit final ?_ (hk.get?_self (hr.good.builtins hl) hv)
    unfold TypeTable.builtin?
    rw [hk.builtins]
    exact hl
  | @identifier t id ty h name final hd hget hi =>
    intro _ hr hk _
    have hv : ¬ V h.id.ir := hr.placed.expr (List.mem_singleton_self _)
    have hc : ty.complete = true := by
      rcases hr.good.entries hget with hc | ⟨⟨r, rfl⟩, _⟩
      · exact hc
      · cases hi
    obtain ⟨declared, hdecl, ha⟩ := (hk.of_record hr.head).alike_of_get? hget hc
    exact .identifier h name final hd hdecl ha (hk.get?_self hc hv)
  | @retUnit t r ty h final hret hcomb =>
    intro _ hr hk _
    have hv : ¬ V h.id.ir := hr.placed.expr (List.mem_singleton_self _)
    have hc := hr.good.returns hret
    obtain ⟨rfl, ha⟩ := Ty.combine?_complete hc rfl hcomb
    exact .retUnit h final (hr.result.symm.trans hret) ha.symm (hk.get?_self hc hv)
  | @ret t u r vt ty h value final hret hd hcomb ih =>
    intro _ hr hk hka
    simp only [Judgement.ids, Judgement.parts, Expr.ids_ret, Expr.parts] at hr hka
    have hv : ¬ V h.id.ir := hr.placed.expr (List.mem_cons_self ..)
    have hc := hr.good.returns hret
    obtain ⟨rfl, ha⟩ := Ty.combine?_complete hc (hd.evolved trivial hr.tail).found hcomb
    have hku := hk.of_record (hd.passLast trivial hr).head
    exact .ret h value final (hr.result.symm.trans hret) (ih trivial hr.tail hku hka.tail) ha.symm
      (hk.get?_self hc hv)
  | @binary t u v lt rt ty h op lhs rhs final hl hrt hcomb ihl ihr =>
    intro _ hr hk hka
    simp only [Judgement.ids, Judgement.parts, Expr.ids_binary, Expr.parts] at hr hka
    have hv : ¬ V h.id.ir := hr.placed.expr (List.mem_cons_self ..)
    have hrest := hl.pass trivial hr
    have hlc := (hl.evolved trivial hr.tail.left).found
    obtain ⟨rfl, ha⟩ := Ty.combine?_complete hlc (hrt.evolved trivial hrest.tail).found hcomb
    have hkv := hk.of_record (hrt.passLast trivial hrest).head
    have hku := hrt.knows trivial hrest.tail hkv
    exact .binary h op lhs rhs final (ihl trivial hr.tail.left hku hka.tail.left)
      (ihr trivial hrest.tail hkv hka.tail.right) (.refl _) ha.symm (hk.get?_self hlc hv)
  | @call t u decl id r params ret h callee args final hn hs hget hlen hd ih =>
    intro _ hr hk hka
    simp only [Judgement.ids, Judgement.parts, Expr.ids_call, Expr.parts] at hr hka
    have hv : ¬ V h.id.ir := hr.placed.expr (List.mem_cons_self ..)
    have hF : F id := hr.placed.callees (List.mem_cons_self ..) hn hs
    have hfn := hr.good.firm hget hF
    have hparts := hfn
    unfold Ty.complete at hparts
    rw [Bool.and_eq_true] at hparts
    have hargs : Ready s b V F result (h.id.ir :: Expr.idsAll args)
        (.expr (.call h callee args) :: Expr.partsAll args) t :=
      hr.sub ((List.sublist_append_right ..).cons_cons _) fun q hq => by
        simp only [List.mem_cons] at hq ⊢
        exact hq.imp_right .inr
    have hku := hk.of_record (hd.passLast hparts.1 hargs).head
    have hkt := hd.knows hparts.1 hargs.tail hku
    exact .call h callee args final hn hs (hkt.exact hget hfn (hVF id hF)) hlen
      (ih hparts.1 hargs.tail hku hka.tail.tail) (hk.get?_self hparts.2 hv)
  | @callError t u decl id r tys h callee args final hn hs hget _ _ =>
    intro _ hr _ _
    simp only [Judgement.ids, Judgement.parts, Expr.ids_call, Expr.parts] at hr
    exact absurd (hr.good.firm hget (hr.placed.callees (List.mem_cons_self ..) hn hs))
      Bool.false_ne_true
  | @assignName t u id tt vt ty h g name value final hd hget hval hcomb ih =>
    intro _ hr hk hka
    simp only [Judgement.ids, Judgement.parts, Expr.ids_assign, Expr.ids_identifier, Expr.parts]
      at hr hka
    have hhv : ¬ V h.id.ir := hr.placed.expr (List.mem_cons_self ..)
    have hgv : ¬ V g.id.ir := hr.tail.left.placed.expr (List.mem_singleton_self _)
    have hgn : t.get? g.id.ir = none := hr.tail.head
    have hgF : ¬ F g.id.ir := hr.tail.left.placed.loose _ (List.mem_singleton_self _)
    have hne : g.id.ir ≠ id := fun he => by rw [he, hget] at hgn; cases hgn
    have htt : Allowed F g.id.ir tt := (hr.good.entries hget).imp_right fun hi => ⟨hi.1, hgF⟩
    have hvalue := hr.assignedValue hget
    have he := hval.evolved trivial hvalue.tail
    have hc : ty.complete = true := complete_of_assigned htt he.found hcomb
    have hgvalue : g.id.ir ∉ value.ids := hr.tail.placed.not_mem_tail
    have hgh : g.id.ir ≠ h.id.ir := fun e => hr.placed.not_mem_tail (e ▸ List.mem_cons_self ..)
    have hhu : u.get? h.id.ir = none := (hval.passLast trivial hvalue).head
    have hgu : u.get? g.id.ir = some tt :=
      (he.evolves.get?_eq_of_not_variable hgvalue hgv).trans get?_record_self
    -- the variable has a type before, so it is none of the nodes of the value
    have hidvalue : id ∉ value.ids := by
      intro hm
      rw [hr.tail.fresh id (List.mem_append_right _ hm)] at hget
      cases hget
    have hidt : (t.record g.id.ir tt).get? id = some tt := (get?_record_of_ne hne).trans hget
    have hvar : tt.complete = true ∨ V id := by
      rcases hr.good.entries hget with hct | ⟨_, hnF⟩
      · exact .inl hct
      · exact .inr ((hr.tail.left.placed.names (List.mem_singleton_self _) hd).resolve_right hnF)
    have hTh : T.get? h.id.ir = some ty := hk.get?_self hc hhv
    have hTg : T.get? g.id.ir = some ty := by
      refine hk.exact ?_ hc hgv
      rw [get?_record_of_ne (Ne.symm hgh)]
      rcases hvar with hct | hV
      · rw [settled_of_complete _ _ hct]
        exact get?_record_self
      · rw [get?_settled_of_ne _ _ hd (Ne.symm hne)]
        exact get?_record_self
    have hwid : tt.complete = true ∨ ∃ ty', T.get? id = some ty' ∧ ty.Alike ty' := by
      rcases hr.good.entries hget with hct | ⟨⟨r, rfl⟩, hnF⟩
      · exact .inl hct
      · have hV : V id := hvar.resolve_left Bool.false_ne_true
        refine .inr (hk.alike ?_ hc hV)
        have hhid : h.id.ir ≠ id := fun e => hhv (show V h.id.ir from e ▸ hV)
        rw [get?_record_of_ne hhid]
        exact get?_settled_self hd
    have hku : Knows V u T := by
      refine hk.of_assigned hd hvar hgv hhu hgu (fun hct =>
        (Ty.combine?_complete hct he.found hcomb).1) hTg ?_
      intro τ hτ hτc
      rcases hr.good.entries hget with hct | ⟨⟨r, rfl⟩, _⟩
      · exact .inl hct
      · obtain ⟨ty', hT, ha⟩ := hwid.resolve_left Bool.false_ne_true
        refine .inr ⟨ty', hT, Ty.Alike.trans ?_ ha⟩
        -- the variable was settled within the value, by an assignment of the same type
        rcases he.evolves.step id hidvalue with hs | ⟨hV, _, a, g', x', v', ty₂, hm, hd', hc₂, hu, hua⟩
        · rw [hidt, hτ] at hs
          cases hs
          cases hτc
        · rw [hτ] at hu
          cases hu
          obtain ⟨hain, hav⟩ := he.evolves.within _ hm
          have hga : g.id.ir ≠ a.id.ir := fun e => hgvalue (show g.id.ir ∈ value.ids from e ▸ hain)
          have hha : h.id.ir ≠ a.id.ir := fun e =>
            hvalue.placed.not_mem_tail (show h.id.ir ∈ value.ids from e ▸ hain)
          have hida : id ≠ a.id.ir := fun e => hav (show V a.id.ir from e ▸ hV)
          have hTa : T.get? a.id.ir = some τ := by
            refine hk.exact ?_ hτc hav
            rw [get?_assigned hga hha]
            · exact hua
            · intro id' hd''
              rw [hd] at hd''
              cases hd''
              exact .inr hida
          exact (hka h g name value (List.mem_cons_self ..) a g' x' v' hm id hd hd' ty τ hTh
            hTa).symm
    have hdecl : ∃ ty', T.get? id = some ty' ∧ ty.Alike ty' := by
      rcases hwid with hct | h
      · have heq := (Ty.combine?_complete hct he.found hcomb).1
        rw [heq]
        exact hku.alike_of_get? (he.evolves.keeps hidvalue hidt hct) hct
      · exact h
    have hav : vt.Alike ty := by
      rcases htt with hct | ⟨⟨r, rfl⟩, _⟩
      · obtain ⟨heq, ha⟩ := Ty.combine?_complete hct he.found hcomb
        rw [heq]
        exact ha.symm
      · rw [Ty.combine?_infer (Ty.isError_eq_false he.found) hcomb]
        exact .refl vt
    obtain ⟨ty', hT, ha⟩ := hdecl
    exact .assign h (.identifier g name) value final (.identifier g name false hd hT ha hTg)
      (ih trivial hvalue.tail hku (hka.sub fun _ hm => List.mem_cons_of_mem _
        (List.mem_append_right _ hm))) (.refl ty) hav hTh
  | @assign t u v tt vt ty h target value final hn ht hval hcomb iht ihv =>
    intro _ hr hk hka
    simp only [Judgement.ids, Judgement.parts, Expr.ids_assign, Expr.parts] at hr hka
    have hv : ¬ V h.id.ir := hr.placed.expr (List.mem_cons_self ..)
    have hrest := ht.pass trivial hr
    have htc := (ht.evolved trivial hr.tail.left).found
    have he := hval.evolved trivial hrest.tail
    obtain ⟨rfl, ha⟩ := Ty.combine?_complete htc he.found hcomb
    rw [settled_of_complete target ty htc] at hk
    have hir : target.ir ∉ value.ids := hr.tail.placed.disjoint _ (Expr.ir_mem_ids target)
    have hsame : v.get? target.ir = some ty := he.evolves.keeps hir ht.get?_self htc
    have hne : target.ir ≠ h.id.ir := fun he => hr.placed.not_mem_tail
      (List.mem_append_left _ (he ▸ Expr.ir_mem_ids target))
    have hnv : (v.record target.ir ty).get? h.id.ir = none := by
      rw [get?_record_of_ne hne]
      exact (hval.passLast trivial hrest).head
    -- the target is recorded once more, with the type it has
    have hkv : Knows V v T := (hk.of_record hnv).of_kept (.record v _ ty) fun {id τ} hg _ => by
      rw [TypeTable.get?_record]
      split
      · rename_i he
        rw [he, hsame] at hg
        exact hg
      · exact hg
    have hku := hval.knows trivial hrest.tail hkv
    exact .assign h target value final (iht trivial hr.tail.left hku hka.tail.left)
      (ihv trivial hrest.tail hkv hka.tail.right) (.refl _) ha.symm (hk.get?_self htc hv)
  | @ifOnly t u v ct bt h condition body final hc hb ihc ihb =>
    intro _ hr hk hka
    simp only [Judgement.ids, Judgement.parts, Expr.ids_ifOnly, Expr.parts] at hr hka
    have hv : ¬ V h.id.ir := hr.placed.expr (List.mem_cons_self ..)
    have hrest := hc.pass trivial hr
    have hkv := hk.of_record (hb.passLast trivial hrest).head
    have hku := hb.knows trivial hrest.tail hkv
    exact .ifOnly h condition body final (ihc trivial hr.tail.left hku hka.tail.left)
      (ihb trivial hrest.tail hkv hka.tail.right) (hk.get?_self rfl hv)
  | @ifElse t u v w ct tt et h condition thenBody elseBody hc ht he ihc iht ihe =>
    intro _ hr hk hka
    simp only [Judgement.ids, Judgement.parts, Expr.ids_ifElse, Expr.parts] at hr hka
    have hv : ¬ V h.id.ir := hr.placed.expr (List.mem_cons_self ..)
    have hbranches := hc.pass trivial hr
    have hlast := ht.pass trivial hbranches
    have hkw := hk.of_record (he.passLast trivial hlast).head
    have hkv := he.knows trivial hlast.tail hkw
    have hku := ht.knows trivial hbranches.tail.left hkv
    exact .ifElse h condition thenBody elseBody (ihc trivial hr.tail.left hku hka.tail.left)
      (iht trivial hbranches.tail.left hkv hka.tail.right.left)
      (ihe trivial hlast.tail hkw hka.tail.right.right) (hk.get?_self rfl hv)
  | @ifElseFinal t u v w r ct tt et both ty h condition thenBody elseBody hret hc ht he hct hce
      ihc iht ihe =>
    intro _ hr hk hka
    simp only [Judgement.ids, Judgement.parts, Expr.ids_ifElse, Expr.parts] at hr hka
    have hv : ¬ V h.id.ir := hr.placed.expr (List.mem_cons_self ..)
    have hbranches := hc.pass trivial hr
    have hlast := ht.pass trivial hbranches
    have hrc := hr.good.returns hret
    obtain ⟨rfl, hat⟩ := Ty.combine?_complete hrc
      (ht.evolved trivial hbranches.tail.left).found hct
    obtain ⟨rfl, hae⟩ := Ty.combine?_complete hrc (he.evolved trivial hlast.tail).found hce
    have hkw := hk.of_record (he.passLast trivial hlast).head
    have hkv := he.knows trivial hlast.tail hkw
    have hku := ht.knows trivial hbranches.tail.left hkv
    exact .ifElseFinal h condition thenBody elseBody (hr.result.symm.trans hret)
      (ihc trivial hr.tail.left hku hka.tail.left)
      (iht trivial hbranches.tail.left hkv hka.tail.right.left)
      (ihe trivial hlast.tail hkw hka.tail.right.right) hat.symm hae.symm (hk.get?_self hrc hv)
  | @ifElseIf t u v w ct tt et h condition thenBody elseIf final hc ht he ihc iht ihe =>
    intro _ hr hk hka
    simp only [Judgement.ids, Judgement.parts, Expr.ids_ifElseIf, Expr.parts] at hr hka
    have hv : ¬ V h.id.ir := hr.placed.expr (List.mem_cons_self ..)
    have hbranches := hc.pass trivial hr
    have hlast := ht.pass trivial hbranches
    have hkw := hk.of_record (he.passLast trivial hlast).head
    have hkv := he.knows trivial hlast.tail hkw
    have hku := ht.knows trivial hbranches.tail.left hkv
    exact .ifElseIf h condition thenBody elseIf final (ihc trivial hr.tail.left hku hka.tail.left)
      (iht trivial hbranches.tail.left hkv hka.tail.right.left)
      (ihe trivial hlast.tail hkw hka.tail.right.right) (hk.get?_self rfl hv)
  | @blockUnit t u h body final hb ih =>
    intro _ hr hk hka
    simp only [Judgement.ids, Judgement.parts, Expr.ids_block_none, Expr.parts] at hr hka
    have hv : ¬ V h.id.ir := hr.placed.expr (List.mem_cons_self ..)
    have hku := hk.of_record (hb.passLast trivial hr).head
    exact .blockUnit h body final (ih trivial hr.tail hku hka.tail) (hk.get?_self rfl hv)
  | @block t u v ty h body tail final hb ht ihb iht =>
    intro _ hr hk hka
    simp only [Judgement.ids, Judgement.parts, Expr.ids_block, Expr.parts] at hr hka
    have hv : ¬ V h.id.ir := hr.placed.expr (List.mem_cons_self ..)
    have hrest := hb.pass trivial hr
    have hc := (ht.evolved trivial hrest.tail).found
    have hkv := hk.of_record (ht.passLast trivial hrest).head
    have hku := ht.knows trivial hrest.tail hkv
    exact .block h body tail final (ihb trivial hr.tail.left hku hka.tail.left)
      (iht trivial hrest.tail hkv hka.tail.right) (hk.get?_self hc hv)
  | @index t u v pt both element r capacity h base position final hp hcomb hb ihp ihb =>
    intro _ hr hk hka
    simp only [Judgement.ids, Judgement.parts, Expr.ids_index, Expr.parts] at hr hka
    have hv : ¬ V h.id.ir := hr.placed.expr (List.mem_cons_self ..)
    have hswap := hr.swap
    have hrest := hp.pass trivial hswap
    have hpc := (hp.evolved trivial hswap.tail.left).found
    have hc : element.complete = true := (hb.evolved trivial hrest.tail).found
    have ha := (Ty.combine?_complete (a := .int position.ir .w32) rfl hpc hcomb).2
    have hkv := hk.of_record (hb.passLast trivial hrest).head
    have hku := hb.knows trivial hrest.tail hkv
    exact .index h base position final (ihp trivial hswap.tail.left hku hka.tail.right) ha.symm
      (ihb trivial hrest.tail hkv hka.tail.left) (hk.get?_self hc hv)
  | @indexError t u v pt both r h base position final hp _ hb _ _ =>
    intro _ hr _ _
    simp only [Judgement.ids, Judgement.parts, Expr.ids_index, Expr.parts] at hr
    exact absurd (hb.evolved trivial (hp.pass trivial hr.swap).tail).found
      Bool.false_ne_true
  | @array t u v ft element tys h first rest final hf hrest' hcomb ihf ihr =>
    intro _ hr hk hka
    simp only [Judgement.ids, Judgement.parts, Expr.ids_array, Expr.idsAll_cons, Expr.parts,
      Expr.partsAll] at hr hka
    have hv : ¬ V h.id.ir := hr.placed.expr (List.mem_cons_self ..)
    have hrest := hf.pass trivial hr
    have hc := (hf.evolved trivial hr.tail.left).found
    obtain ⟨rfl, ha⟩ := combineAll?_complete hc (hrest'.evolved trivial hrest.tail).found hcomb
    have hkv := hk.of_record (hrest'.passLast trivial hrest).head
    have hku := hrest'.knows trivial hrest.tail hkv
    exact .array h first rest final (ihf trivial hr.tail.left hku hka.tail.left)
      (ihr trivial hrest.tail hkv hka.tail.right) ha (hk.get?_self hc hv)
  | @copies t u ty h element count final he ih =>
    intro _ hr hk hka
    simp only [Judgement.ids, Judgement.parts, Expr.ids_copies, Expr.parts] at hr hka
    have hv : ¬ V h.id.ir := hr.placed.expr (List.mem_cons_self ..)
    have hc := (he.evolved trivial hr.tail).found
    have hku := hk.of_record (he.passLast trivial hr).head
    exact .copies h element count final (ih trivial hr.tail hku hka.tail) (hk.get?_self hc hv)
  | @struct t u decl id r name decls h path fields final hn hs hget hf hm ih =>
    intro _ hr hk hka
    simp only [Judgement.ids, Judgement.parts, Expr.ids_struct, Expr.parts] at hr hka
    have hv : ¬ V h.id.ir := hr.placed.expr (List.mem_cons_self ..)
    have hF : F id := hr.placed.structs (List.mem_cons_self ..) hn hs
    have hc := hr.good.firm hget hF
    have hfields : Ready s b V F result (h.id.ir :: FieldInit.idsAll fields)
        (.expr (.struct h path fields) :: FieldInit.partsAll fields) t :=
      hr.sub ((List.sublist_cons_self ..).cons_cons _) fun q hq => by
        simp only [List.mem_cons] at hq ⊢
        exact hq.imp_right .inr
    have hku := hk.of_record (hf.passLast hc hfields).head
    have hkt := hf.knows hc hfields.tail hku
    exact .struct h path fields final hn hs (hkt.exact hget hc (hVF id hF))
      (ih hc hfields.tail hku hka.tail.tail) hm (hk.get?_self hc hv)
  | exprsNil t => exact fun _ _ _ _ => .exprsNil
  | @exprsCons t u v ty tys e es he hes ihe ihr =>
    intro _ hr hk hka
    simp only [Judgement.ids, Judgement.parts, Expr.idsAll_cons, Expr.partsAll] at hr hka
    have hrest := he.next trivial hr
    have hku := hes.knows trivial hrest hk
    exact .exprsCons e es (ihe trivial hr.left hku hka.left) (ihr trivial hrest hk hka.right)
  | argumentsNil t => exact fun _ _ _ _ => .argumentsNil
  | @argumentsCons t u v ty both name param params e es he hcomb hes ihe ihr =>
    intro hgiven hr hk hka
    simp only [Judgement.ids, Judgement.parts, Expr.idsAll_cons, Expr.partsAll] at hr hka
    simp only [Judgement.Given, Members.complete, Bool.and_eq_true] at hgiven
    have hrest := he.next trivial hr
    have hku := hes.knows hgiven.2 hrest hk
    have ha := (Ty.combine?_complete hgiven.1 (he.evolved trivial hr.left).found hcomb).2
    exact .argumentsCons name param params e es (ihe trivial hr.left hku hka.left) ha.symm
      (ihr hgiven.2 hrest hk hka.right)
  | fieldsNil decls t => exact fun _ _ _ _ => .fieldsNil decls
  | @fieldsCons t u v dt vt ty decls h name value rest hv hf hcomb hrest' ihv ihr =>
    intro hgiven hr hk hka
    simp only [Judgement.ids, Judgement.parts, FieldInit.idsAll_cons, FieldInit.partsAll] at hr hka
    have hhv : ¬ V h.id.ir :=
      hr.placed.nodes (List.mem_cons_self ..) (by simp) _ (List.mem_singleton_self _)
    have hdc := Members.complete_find? hgiven hf
    have he := hv.evolved trivial hr.tail.left
    obtain ⟨rfl, ha⟩ := Ty.combine?_complete hdc he.found hcomb
    have hmid := hv.pass trivial hr
    have hlast := hmid.recorded hdc
    have hkr := hrest'.knows hgiven hlast hk
    exact .fieldsCons decls h name value rest
      (ihv trivial hr.tail.left (hkr.of_record hmid.head) hka.tail.left) hf ha.symm
      (hkr.get?_self hdc hhv) (ihr hgiven hlast hk hka.tail.right)
  | @effect t u ty e _ ih =>
    intro _ hr hk hka
    exact .effect e (ih trivial hr hk hka)
  | @declare t u annotated h pattern ascribed ha =>
    intro _ hr hk _
    simp only [Judgement.ids, Judgement.parts, Stmt.ids_bind_none, Stmt.parts] at hr
    obtain ⟨hpn, hhn⟩ := (ha.passLast hr).unrecorded (annotated.getD (.infer h.id.ir))
    refine .declare h pattern ascribed
      (ha.denotes hVF hr.inner ((hk.of_record hhn).of_record hpn)) ?_
    intro a hsome
    subst hsome
    exact hk.alike_of_get? get?_record_self
      ((good_of_annotates? ha hr.good hr.inner.placed.paths).2 a rfl)
  | @bind t u v annotated vt ty h pattern ascribed init ha hd hb ih =>
    intro _ hr hk hka
    simp only [Judgement.ids, Judgement.parts, Stmt.ids_bind, Stmt.parts] at hr hka
    have hascription := hr.inner.left
    have hca := (good_of_annotates? ha hr.good hascription.placed.paths).2
    have hrest := ha.pass hr
    have he := hd.evolved trivial hrest.inner
    obtain ⟨hpn, hhn⟩ := (hd.passBoth trivial hrest).unrecorded ty
    have hkv := (hk.of_record hhn).of_record hpn
    have hku := hd.knows trivial hrest.inner hkv
    have hc : ty.complete = true := complete_of_bound hca he.found hb
    obtain ⟨ty', hT, halike⟩ := hk.alike_of_get? get?_record_self hc
    obtain ⟨hta, htv⟩ := alike_of_bound hca he.found hb
    exact .bind h pattern ascribed init (ha.denotes hVF hascription hku)
      (ih trivial hrest.inner hkv hka.tail.right) hT (fun a hsome => (hta a hsome).trans halike)
      (htv.trans halike)
  | stmtsNil t => exact fun _ _ _ _ => .stmtsNil
  | @stmtsCons t u v st rest hs hrest' ihs ihr =>
    intro _ hr hk hka
    simp only [Judgement.ids, Judgement.parts, Stmt.idsAll_cons, Stmt.partsAll] at hr hka
    have hrest := hs.next trivial hr
    have hku := hrest'.knows trivial hrest hk
    exact .stmtsCons st rest (ihs trivial hr.left hku hka.left) (ihr trivial hrest hk hka.right)

end MiddleEnd.Check
