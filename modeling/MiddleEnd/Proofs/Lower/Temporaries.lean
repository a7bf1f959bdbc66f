/-
  Temporary variables hold a value when they are read. A block or a conditional leaves its value in
  a temporary variable, and each of its blocks assigns it, or returns: a block with a type other
  than unit has a last expression, and the checker has seen that this has the type as well
  (`Session.temporaries_assigned`).
-/
import MiddleEnd.Proofs.Lower.Locals
import MiddleEnd.Proofs.Lower.Returns

namespace MiddleEnd

open Check

/-! ## Blocks that leave values -/

namespace Expr

def isReturn : Expr → Bool
  | ret .. => true
  | _ => false

/-- The blocks that leave the value of the expression behind. -/
def branches : Expr → List Expr
  | block h ss tail => [block h ss tail]
  | ifElse _ _ thenBody elseBody => [thenBody, elseBody]
  | _ => []

/-- The expressions whose types decide if a block leaves a value: the block or the conditional, and
the last expression of the block. -/
def deciding : Expr → List Expr
  | block h ss tail => block h ss tail :: tail.toList
  | ifElse h condition thenBody elseBody => [ifElse h condition thenBody elseBody]
  | _ => []

end Expr

/-- The variable is that of no declaration: it holds the value of a block, a conditional or a field,
or the result of a function. -/
def Lowering.IsTemporary (l : Lowering) (v : C.VarId) : Prop := ∀ id : IrId, l.vars[id]? ≠ some v

namespace Lower

variable {k : Checked} {g : Setting} {B : C.BlockId → List C.Stmt} {W P Q : C.VarId → Prop}
  {m m₁ m' : Slots} {ps qs : List Part} {a b : List C.Stmt} {ts us : List C.Expr}

/-- The block ends in an expression with a value, or in a `return`. -/
def Delivers (k : Checked) (e : Expr) : Prop :=
  ∃ f, e.tail? = some f ∧ (f.isReturn = true ∨ Valued k f)

/-- Where the expression has a value in C, its blocks deliver it. -/
def Delivering (k : Checked) (g : Setting) (e : Expr) : Prop :=
  ∀ t ct, k.types.get? e.ir = some t → t.isUnit = false → Compiles g t ct →
    ∀ b ∈ e.branches, Delivers k b

/-- Lowering of parts begins where their declarations are still to come, and where blocks among them
deliver their values. -/
structure Begins (k : Checked) (g : Setting) (m : Slots) (ps : List Part) : Prop where
  ready : m.Ready (Part.declaredAll ps)
  delivering : ∀ e, .expr e ∈ ps → Delivering k g e

namespace Begins

theorem sub (h : Begins k g m qs) (hs : ps.Sublist qs) : Begins k g m ps where
  ready := h.ready.of_sublist (hs.flatMap Part.declared)
  delivering e he := h.delivering e (hs.subset he)

theorem left (h : Begins k g m (ps ++ qs)) : Begins k g m ps :=
  h.sub (List.sublist_append_left ..)

theorem right (h : Begins k g m (ps ++ qs)) (hg : Grows (Part.declaredAll ps) m m₁) :
    Begins k g m₁ qs where
  ready := h.ready.partsRight hg
  delivering e he := h.delivering e (List.mem_append_right _ he)

/-- A variable for no declaration in front. -/
theorem after (h : Begins k g m ps) (hg : Grows [] m m₁) : Begins k g m₁ ps :=
  ⟨h.ready.after hg, h.delivering⟩

end Begins

/-! ## Assigned variables -/

/-- The variable is that of no declaration. -/
def Slots.Free (m : Slots) (v : C.VarId) : Prop := ∀ id, m.vars id ≠ some v

theorem Slots.Stays.free (h : m.Stays m') {v : C.VarId} (hv : m'.Free v) : m.Free v :=
  fun id hid => hv id (h id v hid)

/-- On a path through the statements no variable in `W` is read that is not assigned, and behind
them those that the texts read are. -/
def Supplies (W : C.VarId → Prop) (B : C.BlockId → List C.Stmt) (a : List C.Stmt)
    (ts : List C.Expr) : Prop :=
  C.Secures W B (fun _ => False) a fun v => ∃ t ∈ ts, t.Reads v

namespace Supplies

theorem nil : Supplies W B [] [] :=
  (C.Secures.nil _ _).mono (fun _ _ => id) fun _ _ ⟨_, ht, _⟩ => absurd ht List.not_mem_nil

/-- Other texts that read no more. -/
theorem congr (h : Supplies W B a ts)
    (hu : ∀ u ∈ us, ∀ v, W v → u.Reads v → ∃ t ∈ ts, t.Reads v) : Supplies W B a us :=
  h.mono (fun _ _ => id) fun v hw ⟨u, hm, hv⟩ => hu u hm v hw hv

theorem drop (h : Supplies W B a ts) : Supplies W B a [] :=
  h.congr fun _ hu => absurd hu List.not_mem_nil

/-- A text that is made of others. -/
theorem compose (h : Supplies W B a ts) {u : C.Expr} (hu : u.uses = C.Expr.usesAll ts) :
    Supplies W B a [u] := by
  refine h.congr fun u' hm v _ hv => ?_
  obtain ⟨name, hv⟩ := hv
  rw [List.mem_singleton.1 hm, hu] at hv
  obtain ⟨t, ht, hv⟩ := C.Expr.mem_usesAll.1 hv
  exact ⟨t, ht, name, hv⟩

/-- A text without variables. -/
theorem idle (h : Supplies W B a []) {u : C.Expr} (hu : u.uses = []) : Supplies W B a [u] :=
  h.compose hu

/-- The variable of a declaration. -/
theorem declared {id : IrId} {v : C.VarId} (hv : m.vars id = some v) (name : String) :
    Supplies m.Free B [] [.var v name] := by
  refine nil.congr fun u hu x hx hr => ?_
  obtain ⟨_, hr⟩ := hr
  rw [List.mem_singleton.1 hu] at hr
  cases List.mem_singleton.1 hr
  exact absurd hv (hx id)

theorem append (h : Supplies W B a ts) (h' : Supplies W B b us) :
    Supplies W B (a ++ b) (ts ++ us) :=
  (C.Secures.append h (C.Secures.behind h')).mono (fun _ _ => id) fun _ _ ⟨t, ht, hv⟩ =>
    (List.mem_append.1 ht).imp (⟨t, ·, hv⟩) (⟨t, ·, hv⟩)

/-- A statement behind that reads no more than the texts. -/
theorem act (h : Supplies W B a ts) {x : C.Stmt} (hx : x.isPlain = true)
    (hr : ∀ v, x.Reads v → ∃ t ∈ ts, t.Reads v) : Supplies W B (a ++ [x]) ts :=
  (C.Secures.append h (C.Secures.plain hx fun v _ hv => hr v hv)).mono (fun _ _ => id)
    fun _ _ => .inl

/-- What more declarations have variables is looked at. -/
theorem later (h : Supplies m.Free B a ts) (hs : m.Stays m') : Supplies m'.Free B a ts :=
  C.Secures.narrow h fun _ => hs.free

/-- Jobs one after the other. -/
theorem sequence (hb : Begins k g m (ps ++ qs)) (hg : Grows (Part.declaredAll ps) m m₁)
    (hg' : Grows (Part.declaredAll qs) m₁ m')
    (h : Begins k g m ps → Supplies m₁.Free B a ts)
    (h' : Begins k g m₁ qs → Supplies m'.Free B b us) :
    Supplies m'.Free B (a ++ b) (ts ++ us) :=
  ((h hb.left).later ((hb.right hg).ready.stays hg')).append (h' (hb.right hg))

end Supplies

/-! ## Temporary variables -/

theorem secures_temporary {t : Ty} {target : Option C.VarId} {d : List C.Stmt}
    (h : Temporary g m t target d m') : C.Secures W B P d P := by
  cases h with
  | none => exact .nil W P
  | some =>
    exact (C.Secures.plain rfl fun _ _ ⟨_, hv⟩ => absurd hv List.not_mem_nil).mono
      (fun _ _ => id) fun _ _ => .inl

/-- There is a variable for the value of an expression only if its blocks deliver one. -/
theorem delivers_of_temporary {t : Ty} {target : Option C.VarId} {d : List C.Stmt}
    (h : Temporary g m t target d m') {e : Expr} (hty : k.types.get? e.ir = some t)
    (hd : Delivering k g e) : ∀ v, target = some v → ∀ b ∈ e.branches, Delivers k b := by
  rintro v rfl
  cases h with
  | some name declared hunit hct => exact hd t _ hty hunit hct

/-- What is left in a variable can be read once the variable is assigned. -/
theorem supplies_load {target : Option C.VarId} {v : C.Expr} (h : Loads target v)
    (ha : C.Secures W B (fun _ => False) a fun x => target = some x) : Supplies W B a [v] := by
  refine ha.mono (fun _ _ => id) fun x _ hx => ?_
  obtain ⟨u, hu, _, hx⟩ := hx
  rw [List.mem_singleton.1 hu] at hx
  cases h with
  | none => exact absurd hx List.not_mem_nil
  | some y name =>
    cases List.mem_singleton.1 hx
    rfl

/-- A variable is assigned as a whole: only the value is read. -/
theorem secures_store {v : C.VarId} {name : String} {value : C.Expr}
    (hr : ∀ x, W x → value.Reads x → P x) :
    C.Secures W B P [.assign (.var v name) value] fun x => P x ∨ x = v :=
  (C.Secures.plain rfl hr).mono (fun _ _ => id) fun _ _ hx => hx.imp_right fun hv =>
    ⟨name, value, by rw [hv]⟩

/-- A value that is kept for later. -/
theorem secures_keep {target : Option C.VarId} {v w : C.Expr} {s : List C.Stmt}
    (h : Keeps target v w s) :
    C.Secures W B (fun x => ∃ t ∈ [v], t.Reads x) s fun x => ∃ t ∈ [w], t.Reads x := by
  cases h with
  | asItIs => exact .nil W _
  | moved y name spelled =>
    refine (secures_store fun x _ hx => ⟨v, List.mem_singleton_self _, hx⟩).mono
      (fun _ _ => id) fun x _ hx => .inr ?_
    obtain ⟨u, hu, _, hx⟩ := hx
    rw [List.mem_singleton.1 hu] at hx
    cases List.mem_singleton.1 hx
    rfl

/-! ## Emission -/

/-- The variables that are assigned behind a job: those that its texts read, and the one that a
branch leaves its value in. -/
def Job.Assigned (k : Checked) : Job → C.VarId → Prop
  | .branch target e, v => target = some v ∧ Delivers k e
  | j, v => ∃ t ∈ j.texts, t.Reads v

/-- A branch that delivers its value assigns it to the target. -/
theorem secures_target {target : Option C.VarId} {e : Expr}
    (h : C.Secures W B (fun _ => False) a (Job.Assigned k (.branch target e)))
    (hd : ∀ v, target = some v → Delivers k e) :
    C.Secures W B (fun _ => False) a fun v => target = some v :=
  h.mono (fun _ _ => id) fun v _ hv => ⟨hv, hd v hv⟩

/-- A branch that may be skipped. -/
theorem supplies_branchOnly {c : C.Expr} {x : C.BlockId} (h : Supplies W B a [c])
    (hx : C.Secures W B (fun _ => False) (B x) P) : Supplies W B (a ++ [.branch c x none]) [] :=
  (C.Secures.append h (C.Secures.branchOnly (fun _ _ hv => ⟨c, List.mem_singleton_self c, hv⟩)
    hx.behind)).mono (fun _ _ => id) fun _ _ ⟨_, ht, _⟩ => absurd ht List.not_mem_nil

/-- Two branches with something in front that needs nothing. -/
theorem secures_branches {c : C.Expr} {x y : C.BlockId} {d : List C.Stmt}
    (h : Supplies W B a [c])
    (hd : ∀ {P : C.VarId → Prop}, C.Secures W B P d P)
    (hx : C.Secures W B (fun _ => False) (B x) Q) (hy : C.Secures W B (fun _ => False) (B y) Q) :
    C.Secures W B (fun _ => False) (a ++ (d ++ [.branch c x (some y)])) Q :=
  (C.Secures.append h (hd.append (C.Secures.branch
    (fun _ _ hv => ⟨c, List.mem_singleton_self c, hv⟩) hx.behind hy.behind))).mono
    (fun _ _ => id) fun _ _ => .inr

/-- Contents that end in a value or a `return` and leave no value return. -/
theorem Emits.not_through_inner {e f : Expr} (he : Emits k g B m (.inner e none) a m')
    (hf : e.tail? = some f) (hret : f.isReturn = true ∨ Valued k f) {t : List C.Stmt} :
    ¬ C.Path B a t .through := by
  intro ht
  cases he with
  | innerBlock h ss tail _ htail =>
    have htail' : tail = some f := hf
    subst htail'
    rcases ht.append_cases with ⟨_, _, -, -, h₂⟩ | ⟨hne, -⟩
    · cases htail with
      | tailEffect _ hv he =>
        cases f with
        | ret h value => exact he.not_through_ret h₂
        | _ =>
          obtain ⟨ty, hty, hunit⟩ := hv
          rcases hret with hret | ⟨ty', hty', hunit'⟩
          · cases hret
          · cases hty.symm.trans hty'
            rw [hunit] at hunit'
            cases hunit'
    · exact hne rfl
  | innerOther _ hne _ =>
    cases e with
    | block h ss tail => exact hne h ss tail rfl
    | _ => cases hf

/-- What lowering a job assigns, and that it reads nothing else. -/
theorem Emits.assigned (hconst : ∀ id e, g.constants id = some e → ∃ name, e = C.Expr.constant name)
    {j : Job} (h : Emits k g B m j a m') :
    Begins k g m j.parts → C.Secures m'.Free B (fun _ => False) a (j.Assigned k) := by
  induction h with
  | literal h lit hs =>
    intro _
    cases hs <;> exact Supplies.nil.idle rfl
  | use h name spelled hd hv => exact fun _ => Supplies.declared hv spelled
  | constant h name hd hn hv =>
    intro _
    obtain ⟨_, rfl⟩ := hconst _ _ hv
    exact Supplies.nil.idle rfl
  | retUnit h => exact fun _ => .ret fun _ _ ⟨_, hv⟩ => absurd hv List.not_mem_nil
  | ret h value he ih =>
    intro hb
    refine (ih (hb.sub (List.sublist_cons_self ..))).append (.ret fun v _ hv => ?_)
    obtain ⟨name, hv⟩ := hv
    obtain ⟨t, ht, hv⟩ := C.Expr.mem_usesAll.1 hv
    exact ⟨t, ht, name, hv⟩
  | call h callee args hc he ih =>
    intro hb
    exact Supplies.compose
      (ih (hb.sub ((List.sublist_cons_self ..).trans (List.sublist_cons_self ..)))) rfl
  | @assign m m₁ m' t v a b h target value ht hv iht ihv =>
    intro hb
    have hboth := Supplies.sequence (hb.sub (List.sublist_cons_self ..)) ht.grows hv.grows iht ihv
    have hdone := hboth.act (x := .assign t v) rfl fun x hx => by
      rcases C.Stmt.reads_assign hx with hx | hx
      · exact ⟨t, List.mem_cons_self .., hx⟩
      · exact ⟨v, List.mem_cons_of_mem _ (List.mem_singleton_self _), hx⟩
    rw [← List.append_assoc]
    exact hdone.congr fun u hu x _ hx =>
      ⟨t, List.mem_cons_self .., List.mem_singleton.1 hu ▸ hx⟩
  | binary h op lhs rhs hl hr ihl ihr =>
    intro hb
    have hboth := Supplies.sequence (hb.sub (List.sublist_cons_self ..)) hl.grows hr.grows ihl ihr
    exact hboth.compose (usesAll_operands lhs rhs _ _).symm
  | ifOnly h condition body x hc hx ihc ihx =>
    intro hb
    have hparts := hb.sub (List.sublist_cons_self ..)
    have hcondition := Supplies.later (ihc hparts.left)
      ((hparts.right hc.grows).ready.stays hx.grows)
    exact (supplies_branchOnly hcondition (ihx (hparts.right hc.grows))).idle rfl
  | ifElse h condition thenBody elseBody x y hty hc ht hx hy hl ihc ihx ihy =>
    intro hb
    have hparts := hb.sub (List.sublist_cons_self ..)
    have hrest := hparts.right hc.grows
    have hblocks := hrest.after ht.grows
    have hcondition := Supplies.later (ihc hparts.left)
      (hrest.ready.stays (ht.grows.trans (hx.grows.both hy.grows)))
    have hdelivers := delivers_of_temporary ht hty (hb.delivering _ (List.mem_cons_self ..))
    have hthen := (secures_target (ihx hblocks.left) fun v hv =>
      hdelivers v hv _ (List.mem_cons_self ..)).narrow fun _ =>
        ((hblocks.right hx.grows).ready.stays hy.grows).free
    have helse := secures_target (ihy (hblocks.right hx.grows)) fun v hv =>
      hdelivers v hv _ (List.mem_cons_of_mem _ (List.mem_singleton_self _))
    exact supplies_load hl (secures_branches hcondition (secures_temporary ht) hthen helse)
  | ifElseIf h condition thenBody elseIf x y hc hx hy ihc ihx ihy =>
    intro hb
    have hparts := hb.sub (List.sublist_cons_self ..)
    have hrest := hparts.right hc.grows
    have hcondition := Supplies.later (ihc hparts.left)
      (hrest.ready.stays (hx.grows.both hy.grows))
    have hthen := (secures_target (ihx hrest.left) nofun).narrow fun _ =>
      ((hrest.right hx.grows).ready.stays hy.grows).free
    have helse := secures_target (ihy (hrest.right hx.grows)) nofun
    exact supplies_load .none
      (secures_branches (d := []) hcondition (C.Secures.nil _ _) hthen helse)
  | block h ss tail x hty ht hx hl ih =>
    intro hb
    have hdelivers := delivers_of_temporary ht hty
      (hb.delivering _ (Expr.self_mem_parts (.block h ss tail)))
    have hbody := secures_target (ih (hb.after ht.grows)) fun v hv =>
      hdelivers v hv _ (List.mem_singleton_self _)
    exact supplies_load hl ((secures_temporary ht).append (.block hbody))
  | index h base position hbase hp ihb ihp =>
    intro hb
    have hboth := Supplies.sequence (hb.sub (List.sublist_cons_self ..)) hbase.grows hp.grows
      ihb ihp
    exact hboth.compose (usesAll_operands base position _ _).symm
  | array h values hty hc he ih =>
    intro hb
    exact Supplies.compose (ih (hb.sub (List.sublist_cons_self ..))) rfl
  | @copies m m' ct v a h element count he ih =>
    intro hb
    refine Supplies.congr (ih (hb.sub (List.sublist_cons_self ..))) fun w hw x _ hx => ?_
    obtain ⟨name, hx⟩ := hx
    rw [List.mem_singleton.1 hw] at hx
    obtain ⟨u, hu, hx⟩ := C.Expr.mem_usesAll.1 hx
    rw [List.eq_of_mem_replicate hu] at hx
    exact ⟨v, List.mem_singleton_self _, name, hx⟩
  | struct h path fields hty hc hf ho ih =>
    intro hb
    refine Supplies.congr (ih (hb.sub ((List.sublist_cons_self ..).trans
      (List.sublist_cons_self ..)))) fun w hw x _ hx => ?_
    obtain ⟨name, hx⟩ := hx
    rw [List.mem_singleton.1 hw] at hx
    obtain ⟨v, hv, hx⟩ := C.Expr.mem_usesAll.1 hx
    exact ⟨v, mem_of_mem_taken ((taken_perm ho).mem_iff.1 hv), name, hx⟩
  | exprsNil | fieldsNil | tailNone | stmtsNil | declareNothing => exact fun _ => Supplies.nil
  | exprsCons e es he hes ih ihs => exact fun hb => Supplies.sequence hb he.grows hes.grows ih ihs
  | fieldsCons inOrder h name value rest hs he hr ih ihr =>
    exact fun hb => Supplies.sequence (hb.sub (List.sublist_cons_self ..)) he.grows hr.grows ih ihr
  | fieldsKeep inOrder h name value rest hs he hty ht hk hr ih ihr =>
    intro hb
    have hparts := hb.sub (List.sublist_cons_self ..)
    have hrest := hparts.right he.grows
    have hvalue := Supplies.later (ih hparts.left) (hrest.ready.stays (ht.grows.trans hr.grows))
    have hkept := C.Secures.append hvalue ((secures_temporary ht).append
      ((secures_keep hk).append (C.Secures.behind (ihr (hrest.after ht.grows)))))
    refine hkept.mono (fun _ _ => id) fun v _ ⟨t, hm, hv⟩ => ?_
    exact (List.mem_cons.1 hm).imp (fun hm => ⟨t, List.mem_singleton.2 hm, hv⟩) (⟨t, ·, hv⟩)
  | tailValue e hv he ih => exact ih
  | tailEffect e hv he ih => exact ih
  | innerBlock h ss tail hs ht ihs iht =>
    intro hb
    cases tail with
    | none =>
      have hstmts := Supplies.later (ihs (hb.sub (List.sublist_cons_self ..))) (.of_grows ht.grows)
      cases ht
      exact hstmts.append .nil
    | some e =>
      exact Supplies.sequence (hb.sub (List.sublist_cons_self ..)) hs.grows ht.grows ihs iht
  | innerOther e hne he ih => exact ih
  | @branch m m' target v a s e he hs ih =>
    intro hb
    have hinner := ih hb
    cases hs with
    | noTarget => exact (hinner.append (.nil _ _)).mono (fun _ _ => id) nofun
    | noValue =>
      rw [List.append_nil]
      by_cases hd : Delivers k e
      · obtain ⟨f, hf, hret⟩ := hd
        exact hinner.never fun t => he.not_through_inner hf hret
      · exact hinner.mono (fun _ _ => id) fun _ _ hy => absurd hy.2 hd
    | both x name value =>
      refine (hinner.append (secures_store fun y _ hy => ?_)).mono (fun _ _ => id) fun y _ hy => ?_
      · exact ⟨value, List.mem_singleton_self _, hy⟩
      · exact .inr (Option.some.inj hy.1).symm
  | effectItself e hself he ih => exact fun hb => Supplies.drop (ih hb)
  | @effect m m' v a e hself he ih =>
    intro hb
    have hvalue : Supplies m'.Free B a [v] := ih hb
    exact (hvalue.act (x := .expr v) rfl fun x hx => ⟨v, List.mem_singleton_self _, hx⟩).drop
  | declare h pattern ascribed hty hc =>
    exact fun _ => Supplies.nil.act rfl fun v ⟨_, hv⟩ => absurd hv List.not_mem_nil
  | bindNothing h pattern ascribed init hty hn he ih =>
    exact fun hb => ih (hb.sub ((List.sublist_append_right ..).trans (List.sublist_cons_self ..)))
  | @bind m m' t ct declared spelled v a h pattern ascribed init hty hc he ih =>
    intro hb
    have hinit : Supplies m'.Free B a [v] :=
      ih (hb.sub ((List.sublist_append_right ..).trans (List.sublist_cons_self ..)))
    refine ((hinit.later (stays_bind hb.ready he)).act (x := .declare _ _ _ (some v)) rfl
      fun x hx => ?_).drop
    obtain ⟨name, hx⟩ := hx
    obtain ⟨t, ht, hx⟩ := C.Expr.mem_usesAll.1 hx
    exact ⟨t, ht, name, hx⟩
  | stmtsCons st rest hs hr ihs ihr =>
    exact fun hb => Supplies.sequence hb hs.grows hr.grows ihs ihr

/-! ## Functions -/

theorem Finishes.assigned {slot : Option C.VarId} {v : Option C.Expr} {s : List C.Stmt}
    (h : Finishes slot v s) :
    C.Secures W B (fun x => ∃ t ∈ v.toList, t.Reads x) s fun _ => False := by
  cases h with
  | noValue => exact (C.Secures.nil _ _).mono (fun _ _ => id) fun _ _ => False.elim
  | returned x name spelled value =>
    have hstore : C.Secures W B (fun x => ∃ t ∈ [value], t.Reads x)
        [.assign (.var x name) value] (· = x) :=
      (secures_store fun y _ hy => ⟨value, List.mem_singleton_self _, hy⟩).mono (fun _ _ => id)
        fun _ _ => .inr
    refine hstore.append (.ret fun y _ hy => ?_)
    obtain ⟨_, hy⟩ := hy
    cases List.mem_singleton.1 hy
    rfl
  | effect value =>
    exact (C.Secures.plain rfl fun x _ hx => ⟨value, List.mem_singleton_self _, hx⟩).mono
      (fun _ _ => id) fun _ _ => False.elim

/-- On a path through the body of a function, what belongs to no declaration is assigned before it
is read. -/
theorem EmitsFunction.assigned
    (hconst : ∀ id e, g.constants id = some e → ∃ name, e = C.Expr.constant name) {id : IrId}
    {d : FunctionDecl} {vs : List C.VarId} {b : C.BlockId}
    (h : EmitsFunction k g B id d m vs b m') (hr : m.Ready d.declared)
    (hd : ∀ e, .expr e ∈ d.body.parts → Delivering k g e) :
    C.Secures m'.Free B (fun _ => False) (B b) fun _ => False := by
  cases h with
  | intro h ss tail hbody _ _ hparams hslot hinner hfin hb =>
    unfold FunctionDecl.declared at hr
    rw [hbody] at hr hd
    have hbegins : Begins k g _ (Expr.block h ss tail).parts :=
      ⟨(Slots.Ready.right hr hparams.grows).after hslot.grows, hd⟩
    rw [hb]
    exact (secures_temporary hslot).append ((hinner.assigned hconst hbegins).append hfin.assigned)

/-! ## What the checker says of blocks -/

theorem Compiles.tangible {t : Ty} {ct : C.Ty} (h : Compiles g t ct) (hunit : t.isUnit = false) :
    Tangible t := by
  intro r hbelow
  cases hbelow with
  | error =>
    cases h with
    | entered he => cases he
  | unit => cases hunit

theorem valued_of_tangible {f : Expr} {c : Ty} (hf : f.isReturn = false)
    (hc : k.types.get? f.ir = some c) (hs : Tangible c) : Valued k f := by
  cases f with
  | ret => cases hf
  | _ => exact ⟨c, hc, hs.isUnit⟩

/-- In the body of a function, the blocks of what has a value deliver it, where no assignment is
bound to a node that decides about it. -/
theorem delivering_of_passes {p : Program} {t : TypeTable} (h : Passes k.scope p t k.types)
    (hn : p.ids.Nodup)
    (hblocks : ∀ h c x y, .expr (.ifElse h c x y) ∈ p.parts → x.isBlock = true ∧ y.isBlock = true)
    (hfree : ∀ e, .expr e ∈ p.parts → ∀ f ∈ e.deciding, ¬ IsTarget k.scope p.parts f.ir)
    {i : Item} {d : FunctionDecl} (hi : i ∈ p.items) (hd : i.kind = .function d) :
    ∀ e, .expr e ∈ d.body.parts → Delivering k g e := by
  obtain ⟨r, params, result, -, hlocated⟩ := h.located hi hd
  have hclosed := h.closed hi hd
  have hsub : d.body.parts.Sublist p.parts := by
    have hparts : i.bodyParts = d.body.parts := by
      unfold Item.bodyParts
      rw [hd]
    exact hparts ▸ (List.sublist_append_right ..).trans (Program.parts_sublist hi)
  have hsteady : ∀ e, .expr e ∈ d.body.parts → ∀ f ∈ e.deciding, Steady k.scope p.parts f.ir :=
    fun e he f hf =>
      Alone.steady ⟨List.nodup_iff_count_le_one.1 hn f.ir, hfree e (hsub.subset he) f hf⟩
  have hblock : ∀ g ss tail, .expr (.block g ss tail) ∈ d.body.parts → ∀ c,
      k.types.get? g.id.ir = some c → Tangible c → Delivers k (.block g ss tail) := by
    intro g ss tail he c hc hs
    obtain ⟨f, c', hf, hc', hs'⟩ := (hlocated _ he (by simp)).tail
      (hsteady _ he _ (List.mem_cons_self ..))
      (fun f hf => hsteady _ he f (List.mem_cons_of_mem _ (by simp [hf]))) hc hs
    refine ⟨f, hf, ?_⟩
    cases hret : f.isReturn with
    | true => exact .inl rfl
    | false => exact .inr (valued_of_tangible hret hc' hs')
  intro e he t ct ht hunit hct b hb
  cases e with
  | block g ss tail =>
    rw [List.mem_singleton.1 hb]
    exact hblock g ss tail he t ht (hct.tangible hunit)
  | ifElse g condition thenBody elseBody =>
    have hin : ∀ b ∈ [thenBody, elseBody], .expr b ∈ d.body.parts := by
      intro b hb
      refine (hclosed _ he).subset (List.mem_cons_of_mem _ (List.mem_append_right _ ?_))
      rcases List.mem_cons.1 hb with rfl | hb
      · exact List.mem_append_left _ b.self_mem_parts
      · exact List.mem_append_right _ (List.mem_singleton.1 hb ▸ b.self_mem_parts)
    obtain ⟨hx, hy⟩ := hblocks _ _ _ _ (hsub.subset he)
    have hisBlock : ∀ b ∈ [thenBody, elseBody], b.isBlock = true := by
      intro b hb
      rcases List.mem_cons.1 hb with rfl | hb
      · exact hx
      · exact List.mem_singleton.1 hb ▸ hy
    have hnode : ∀ b ∈ [thenBody, elseBody], Steady k.scope p.parts b.ir := by
      intro b hb
      have hblock := hisBlock b hb
      refine hsteady b (hin b hb) b ?_
      cases b with
      | block => exact List.mem_cons_self ..
      | _ => cases hblock
    obtain ⟨c, hc, hs⟩ := (hlocated _ he (by simp)).branches ((hclosed _ he).trans hsub)
      (hsteady _ he _ (List.mem_cons_self ..)) (hnode _ (List.mem_cons_self ..))
      (hnode _ (List.mem_cons_of_mem _ (List.mem_singleton_self _))) ht (hct.tangible hunit) b hb
    have hbBlock := hisBlock b hb
    have hbin := hin b hb
    cases b with
    | block g ss tail => exact hblock g ss tail hbin c hc hs
    | _ => cases hbBlock
  | _ => cases hb

end Lower

namespace Session

/-- In a lowered program with distinct identities that is reported clean, where the branches of
conditionals are blocks and no assignment is bound to a block, a conditional or the last expression
of a block: on every path through the body of a function, a statement that reads a temporary
variable stands behind one that assigns it. -/
theorem temporaries_assigned (u : CompilationUnit) (target : String) (hids : u.program.ids.Nodup)
    (hblocks : ∀ h c x y, .expr (.ifElse h c x y) ∈ u.program.parts →
      x.isBlock = true ∧ y.isBlock = true)
    (hfree : ∀ e, .expr e ∈ u.program.parts → ∀ f ∈ e.deciding,
      ¬ IsTarget (ofUnit u).scope u.program.parts f.ir)
    (hclean : (ofUnit u).Clean) (hlow : (ofUnit u).check.2.Lowers target) :
    ∀ f ∈ ((ofUnit u).check.2.lower target).2.declared.functions, ∃ x b,
      ((ofUnit u).check.2.lower target).2.c.functions[f.index]? = some x ∧ x.body = some b ∧
      ∀ t e, C.Path ((ofUnit u).check.2.lower target).2.c.statements
        (((ofUnit u).check.2.lower target).2.c.statements b) t e →
        ∀ before y after, t = before ++ y :: after →
          ∀ v, ((ofUnit u).check.2.lower target).2.IsTemporary v → y.Reads v →
            ∃ z ∈ before, z.Sets v := by
  intro f hf
  have hr := hlow.runs
  obtain ⟨i, hi, d, hd, hfi, _⟩ := (Lower.allNamed_of_runs hr).named f (List.contains_iff_mem.2 hf)
  obtain ⟨front, back, hp⟩ := List.append_of_mem hi
  have hn : (ofUnit u).check.2.program.ids.Nodup := hids
  obtain ⟨l₀, l₁, l₂, f', vs, b, -, -, hfill, h⟩ := Lower.fill_of_runs hp hd
    (Program.first_of_nodup hn hp) (Lower.values_declaredBefore hp hd)
    (fun j hj id hid => List.mem_flatMap.2 ⟨j, List.mem_append_left _ hj, hid⟩) hr
  cases hfi.symm.trans h.function
  obtain ⟨x, hx, -, hbody⟩ := h.body
  obtain ⟨_, hproper⟩ := h.setting
  have hdeclared : (Lower.declaredBefore front back ++ d.declared).Nodup := by
    refine (Program.declared_nodup hn hp hd).sublist (List.Sublist.append ?_ (List.Sublist.refl _))
    exact (List.Sublist.append (List.Sublist.refl _) List.filter_sublist).flatMap _
  obtain ⟨hstays, -⟩ := hfill.stays hn hp hd h.keys_after
  have hpasses : Passes (ofUnit u).check.2.checked.scope u.program (ofUnit u).types
      (ofUnit u).check.2.checked.types := hclean.passes rfl
  have hassigned := h.emits.assigned hproper.constants (h.ready hdeclared)
    (Lower.delivering_of_passes hpasses hids hblocks hfree hi hd)
  refine ⟨x, b, hx, hbody, fun t e ht before y after hsplit v hv hy => ?_⟩
  have hreads := hassigned.reads (A := fun _ => False) (fun _ _ => False.elim) ht
  exact (hreads.before hsplit (hstays.free hv) hy).resolve_left id

open Samples in
/-- In `fn f() -> i32 { if true { 1 } else { return 2 } }` both variables are temporary, and no
statement reads one that is not assigned. -/
theorem temporaries_assigned_alternating : (ofUnit alternating).Clean ∧
    (ofUnit alternating).check.2.Lowers "linux" ∧
    ((ofUnit alternating).check.2.lower "linux").2.c.vars.toList.map C.Variable.name =
      ["__ret", "__tmp"] ∧
    ∃ x b, ((ofUnit alternating).check.2.lower "linux").2.c.functions[0]? = some x ∧
      x.body = some b ∧
      ∀ t e, C.Path ((ofUnit alternating).check.2.lower "linux").2.c.statements
        (((ofUnit alternating).check.2.lower "linux").2.c.statements b) t e →
        ∀ before y after, t = before ++ y :: after → ∀ v, y.Reads v → ∃ z ∈ before, z.Sets v := by
  have hclean : (ofUnit alternating).Clean := by decide +kernel
  have hlow : (ofUnit alternating).check.2.Lowers "linux" := by decide +kernel
  have hf : (⟨0⟩ : C.FunctionId) ∈
      ((ofUnit alternating).check.2.lower "linux").2.declared.functions := by decide +kernel
  have hempty : ((ofUnit alternating).check.2.lower "linux").2.vars.isEmpty = true := by
    decide +kernel
  have hparts : alternating.program.parts = [.ascription (.path (head 3) "i32"),
      .expr (.block (head 2) [] (some alternatives)), .expr alternatives, .expr (truth 5),
      .expr (.block (head 6) [] (some (number 7 "1"))), .expr (number 7 "1"),
      .expr (.block (head 8) [] (some (.ret (head 9) (some (number 10 "2"))))),
      .expr (.ret (head 9) (some (number 10 "2"))), .expr (number 10 "2")] := rfl
  have hblocks : ∀ h c x y, .expr (.ifElse h c x y) ∈ alternating.program.parts →
      x.isBlock = true ∧ y.isBlock = true := by
    intro h c x y he
    rw [hparts] at he
    simp only [alternatives, truth, number, List.mem_cons, reduceCtorEq, Part.expr.injEq,
      Expr.ifElse.injEq, List.not_mem_nil, or_self, or_false, false_or] at he
    obtain ⟨-, -, rfl, rfl⟩ := he
    exact ⟨rfl, rfl⟩
  have hfree : ∀ e, .expr e ∈ alternating.program.parts → ∀ f ∈ e.deciding,
      ¬ IsTarget (ofUnit alternating).scope alternating.program.parts f.ir := by
    rintro _ _ _ _ ⟨g, target, value, he, -⟩
    rw [hparts] at he
    simp [alternatives, truth, number] at he
  obtain ⟨x, b, hx, hbody, hpaths⟩ := temporaries_assigned alternating "linux" (by decide +kernel)
    hblocks hfree hclean hlow ⟨0⟩ hf
  refine ⟨hclean, hlow, by decide +kernel, x, b, hx, hbody, ?_⟩
  intro t e ht before y after hsplit v hv
  refine hpaths t e ht before y after hsplit v (fun id hid => ?_) hv
  rw [Std.TreeMap.getElem?_of_isEmpty hempty] at hid
  cases hid

end Session

end MiddleEnd
