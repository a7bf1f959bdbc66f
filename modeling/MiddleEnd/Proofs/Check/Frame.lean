/-
  What a derivation leaves alone. It writes at the nodes it is about and at nodes that names are
  resolved to, and nowhere else (`Derives.frame`); the primitive types and the return types of the
  functions being checked stay as they are (`Derives.setting`).
-/
import MiddleEnd.Proofs.Check.Pass
import MiddleEnd.Proofs.Syntax.Ids

namespace MiddleEnd.Check

variable {s : Scope}

/-- The nodes a judgement is about. -/
def Judgement.ids : Judgement → List IrId
  | .expr e _ _ => e.ids
  | .exprs es _ => Expr.idsAll es
  | .arguments _ es => Expr.idsAll es
  | .fields _ fs => FieldInit.idsAll fs
  | .stmt st => st.ids
  | .stmts sts => Stmt.idsAll sts

theorem declaration_ok {e : Expr} {id : IrId} (h : declaration s e = .ok id) :
    ∃ site, s.registry.node? site = some id := by
  unfold declaration at h
  split at h
  · cases h
  · split at h
    · cases h
    · split at h
      · cases h
      · rename_i hn
        cases h
        exact ⟨_, hn⟩

theorem get?_record_of_ne {t : TypeTable} {id other : IrId} {ty : Ty} (h : id ≠ other) :
    (t.record id ty).get? other = t.get? other := by
  rw [TypeTable.get?_record, if_neg (Ne.symm h)]

theorem get?_record_self {t : TypeTable} {id : IrId} {ty : Ty} :
    (t.record id ty).get? id = some ty := by
  rw [TypeTable.get?_record, if_pos rfl]

/-! ## Settings -/

/-- Two tables know the same primitive types and are inside the same functions. -/
structure SameSetting (t u : TypeTable) : Prop where
  builtins : u.builtins = t.builtins
  builtinIds : u.builtinIds = t.builtinIds
  returns : u.returns = t.returns

theorem SameSetting.refl (t : TypeTable) : SameSetting t t := ⟨rfl, rfl, rfl⟩

theorem SameSetting.trans {t u v : TypeTable} (h : SameSetting t u) (k : SameSetting u v) :
    SameSetting t v :=
  ⟨k.builtins.trans h.builtins, k.builtinIds.trans h.builtinIds, k.returns.trans h.returns⟩

theorem SameSetting.record (t : TypeTable) (id : IrId) (ty : Ty) :
    SameSetting t (t.record id ty) := ⟨rfl, rfl, rfl⟩

theorem SameSetting.settled (t : TypeTable) (target : Expr) (before after : Ty) :
    SameSetting t (settled s t target before after) := by
  unfold Check.settled
  split
  · cases declaration s target with
    | ok id => exact .record t id after
    | error p => exact .refl t
  · exact .refl t

theorem Annotates.setting {t u : TypeTable} {a : TypeExpr} {ty : Ty} (h : Annotates s t a ty u) :
    SameSetting t u := by
  induction h with
  | unit h => exact .record _ _ _
  | array h capacity _ ih => exact ih.trans (.record _ _ _)
  | path h name hp => exact .record _ _ _

theorem Annotates?.setting {t u : TypeTable} {a : Option TypeExpr} {ty : Option Ty}
    (h : Annotates? s t a ty u) : SameSetting t u := by
  cases h with
  | none => exact .refl t
  | some h => exact h.setting

theorem Derives.setting {t u : TypeTable} {j : Judgement} (h : Derives s t j u) :
    SameSetting t u := by
  induction h with
  | literal | identifier | retUnit => exact .record _ _ _
  | ret _ _ _ _ _ _ ih => exact ih.trans (.record _ _ _)
  | call _ _ _ _ _ _ _ _ _ ih => exact ih.trans (.record _ _ _)
  | callError _ _ _ _ _ _ _ _ ih => exact ih.trans (.record _ _ _)
  | assignName _ _ _ _ _ _ _ _ _ ih =>
    exact (SameSetting.record _ _ _).trans (ih.trans ((SameSetting.record _ _ _).trans
      ((SameSetting.settled _ _ _ _).trans (.record _ _ _))))
  | assign _ _ _ _ _ _ _ _ iht ihv =>
    exact iht.trans (ihv.trans ((SameSetting.record _ _ _).trans
      ((SameSetting.settled _ _ _ _).trans (.record _ _ _))))
  | binary _ _ _ _ _ _ _ _ ihl ihr => exact ihl.trans (ihr.trans (.record _ _ _))
  | ifOnly _ _ _ _ _ _ ihc ihb => exact ihc.trans (ihb.trans (.record _ _ _))
  | ifElse _ _ _ _ _ _ _ ihc iht ihe =>
    exact ihc.trans (iht.trans (ihe.trans (.record _ _ _)))
  | ifElseFinal _ _ _ _ _ _ _ _ _ _ ihc iht ihe =>
    exact ihc.trans (iht.trans (ihe.trans (.record _ _ _)))
  | ifElseIf _ _ _ _ _ _ _ _ ihc iht ihe =>
    exact ihc.trans (iht.trans (ihe.trans (.record _ _ _)))
  | blockUnit _ _ _ _ ih => exact ih.trans (.record _ _ _)
  | block _ _ _ _ _ _ ihb iht => exact ihb.trans (iht.trans (.record _ _ _))
  | index _ _ _ _ _ _ _ ihp ihb => exact ihp.trans (ihb.trans (.record _ _ _))
  | indexError _ _ _ _ _ _ _ ihp ihb => exact ihp.trans (ihb.trans (.record _ _ _))
  | array _ _ _ _ _ _ _ ihf ihr => exact ihf.trans (ihr.trans (.record _ _ _))
  | copies _ _ _ _ _ ih => exact ih.trans (.record _ _ _)
  | struct _ _ _ _ _ _ _ _ _ ih => exact ih.trans (.record _ _ _)
  | exprsNil | argumentsNil | fieldsNil | stmtsNil => exact .refl _
  | exprsCons _ _ _ _ ihe ihr => exact ihe.trans ihr
  | argumentsCons _ _ _ _ _ _ _ _ ihe ihr => exact ihe.trans ihr
  | fieldsCons _ _ _ _ _ _ _ _ _ ihv ihr =>
    exact ihv.trans ((SameSetting.record _ _ _).trans ihr)
  | effect _ _ ih => exact ih
  | declare _ _ _ ha =>
    exact ha.setting.trans ((SameSetting.record _ _ _).trans (.record _ _ _))
  | bind _ _ _ _ ha _ _ ih =>
    exact ha.setting.trans (ih.trans ((SameSetting.record _ _ _).trans (.record _ _ _)))
  | stmtsCons _ _ _ _ ihs ihr => exact ihs.trans ihr

theorem HasParams.setting {t u : TypeTable} {ps : List Param} {ms : Members}
    (h : HasParams s t ps ms u) : SameSetting t u := by
  induction h with
  | nil t => exact .refl t
  | cons ha _ ih =>
    exact ha.setting.trans ((SameSetting.record _ _ _).trans ((SameSetting.record _ _ _).trans ih))

theorem HasFields.setting {t u : TypeTable} {fs : List FieldDecl} {ms : Members}
    (h : HasFields s t fs ms u) : SameSetting t u := by
  induction h with
  | nil t => exact .refl t
  | cons ha _ ih => exact ha.setting.trans ((SameSetting.record _ _ _).trans ih)

theorem HasSignature.setting {t u : TypeTable} {i : Item} {ty : Ty}
    (h : HasSignature s t i ty u) : SameSetting t u := by
  cases h with
  | function h d hp ha => exact hp.setting.trans ha.setting
  | struct h d hf => exact hf.setting
  | constant h d ha => exact ha.setting
  | static h d ha => exact ha.setting

theorem Signs.setting {t u : TypeTable} {i : Item} (h : Signs s t i u) : SameSetting t u := by
  obtain ⟨ty, v, h, rfl⟩ := h
  exact h.setting.trans (.record v _ ty)

theorem Fits.setting {t u : TypeTable} {i : Item} (h : Fits s t i u) : SameSetting t u := by
  cases h with
  | function h d _ hb _ =>
    have hset := hb.setting
    exact ⟨hset.builtins, hset.builtinIds, congrArg List.tail hset.returns⟩
  | struct h d => exact .refl t
  | constant h d _ hv _ => exact hv.setting
  | static h d _ hv _ => exact hv.setting

theorem setting_of_chain {α : Type} {R : TypeTable → α → TypeTable → Prop}
    (hR : ∀ {t a u}, R t a u → SameSetting t u) {t u : TypeTable} {l : List α}
    (h : Chain R t l u) : SameSetting t u := by
  induction h with
  | nil t => exact .refl t
  | cons ha _ ih => exact (hR ha).trans ih

theorem Passes.setting {p : Program} {t u : TypeTable} (h : Passes s p t u) : SameSetting t u := by
  obtain ⟨v, hs, hb⟩ := h
  exact (setting_of_chain (fun h => h.setting) hs).trans
    (setting_of_chain (fun h => h.setting) hb)

/-! ## Entries -/

/-- All entries but those of nodes with `P` are the same. -/
def SameBut (P : IrId → Prop) (t u : TypeTable) : Prop := ∀ id, ¬ P id → u.get? id = t.get? id

variable {P : IrId → Prop}

theorem SameBut.refl (t : TypeTable) : SameBut P t t := fun _ _ => rfl

theorem SameBut.trans {t u v : TypeTable} (h : SameBut P t u) (k : SameBut P u v) :
    SameBut P t v :=
  fun id hid => (k id hid).trans (h id hid)

theorem SameBut.record {t u : TypeTable} {id : IrId} (h : SameBut P t u) (hid : P id) (ty : Ty) :
    SameBut P t (u.record id ty) := by
  intro other ho
  have hne : id ≠ other := fun e => ho (by rw [← e]; exact hid)
  rw [get?_record_of_ne hne]
  exact h other ho

theorem SameBut.settled {t u : TypeTable} (h : SameBut P t u)
    (hr : ∀ site id, s.registry.node? site = some id → P id) (target : Expr) (before after : Ty) :
    SameBut P t (settled s u target before after) := by
  unfold Check.settled
  split
  · split
    · rename_i id hd
      obtain ⟨site, hs⟩ := declaration_ok hd
      exact h.record (hr site id hs) after
    · exact h
  · exact h

theorem Annotates.frame {t u : TypeTable} {a : TypeExpr} {ty : Ty} (h : Annotates s t a ty u)
    (hj : ∀ id ∈ a.ids, P id) : SameBut P t u := by
  induction h with
  | unit h => exact (SameBut.refl t).record (hj _ (by simp)) _
  | array h capacity _ ih =>
    exact (ih fun id hid => hj id (by simp [hid])).record (hj _ (by simp)) _
  | path h name hp => exact (SameBut.refl t).record (hj _ (by simp)) _

theorem Annotates?.frame {t u : TypeTable} {a : Option TypeExpr} {ty : Option Ty}
    (h : Annotates? s t a ty u) (hj : ∀ id ∈ TypeExpr.idsOf a, P id) : SameBut P t u := by
  cases h with
  | none => exact .refl t
  | some h => exact h.frame hj

/-- Entries of nodes that a derivation is not about and no name is resolved to stay as they are. -/
theorem Derives.frame {t u : TypeTable} {j : Judgement} (h : Derives s t j u)
    (hr : ∀ site id, s.registry.node? site = some id → P id) (hj : ∀ id ∈ j.ids, P id) :
    SameBut P t u := by
  induction h with
  | literal | identifier | retUnit =>
    simp only [Judgement.ids, Expr.ids_literal, Expr.ids_identifier, Expr.ids_ret_none,
      List.forall_mem_singleton] at hj
    exact (SameBut.refl _).record hj _
  | ret h value final _ _ _ ih =>
    simp only [Judgement.ids, Expr.ids_ret, List.forall_mem_cons] at hj
    exact (ih hj.2).record hj.1 _
  | call h callee args final _ _ _ _ _ ih =>
    simp only [Judgement.ids, Expr.ids_call, List.forall_mem_cons, List.forall_mem_append] at hj
    exact (ih hj.2.2).record hj.1 _
  | callError h callee args final _ _ _ _ ih =>
    simp only [Judgement.ids, Expr.ids_call, List.forall_mem_cons, List.forall_mem_append] at hj
    exact (ih hj.2.2).record hj.1 _
  | @assignName t u id tt vt ty h g name value final _ _ _ _ ih =>
    simp only [Judgement.ids, Expr.ids_assign, Expr.ids_identifier, List.forall_mem_cons,
      List.forall_mem_append] at hj
    obtain ⟨hh, ⟨hg, _⟩, hv⟩ := hj
    have hbefore : SameBut P t (t.record g.id.ir tt) := (SameBut.refl t).record hg tt
    exact (((hbefore.trans (ih hv)).record hg _).settled hr _ _ _).record hh _
  | assign h target value final _ _ _ _ iht ihv =>
    simp only [Judgement.ids, Expr.ids_assign, List.forall_mem_cons, List.forall_mem_append] at hj
    obtain ⟨hh, ht, hv⟩ := hj
    have htarget : P target.ir := ht _ (Expr.ir_mem_ids target)
    exact ((((iht ht).trans (ihv hv)).record htarget _).settled hr _ _ _).record hh _
  | binary h op lhs rhs final _ _ _ ihl ihr =>
    simp only [Judgement.ids, Expr.ids_binary, List.forall_mem_cons, List.forall_mem_append] at hj
    exact ((ihl hj.2.1).trans (ihr hj.2.2)).record hj.1 _
  | ifOnly h condition body final _ _ ihc ihb =>
    simp only [Judgement.ids, Expr.ids_ifOnly, List.forall_mem_cons, List.forall_mem_append] at hj
    exact ((ihc hj.2.1).trans (ihb hj.2.2)).record hj.1 _
  | ifElse h condition thenBody elseBody _ _ _ ihc iht ihe =>
    simp only [Judgement.ids, Expr.ids_ifElse, List.forall_mem_cons, List.forall_mem_append] at hj
    exact ((ihc hj.2.1).trans ((iht hj.2.2.1).trans (ihe hj.2.2.2))).record hj.1 _
  | ifElseFinal h condition thenBody elseBody _ _ _ _ _ _ ihc iht ihe =>
    simp only [Judgement.ids, Expr.ids_ifElse, List.forall_mem_cons, List.forall_mem_append] at hj
    exact ((ihc hj.2.1).trans ((iht hj.2.2.1).trans (ihe hj.2.2.2))).record hj.1 _
  | ifElseIf h condition thenBody elseIf final _ _ _ ihc iht ihe =>
    simp only [Judgement.ids, Expr.ids_ifElseIf, List.forall_mem_cons, List.forall_mem_append] at hj
    exact ((ihc hj.2.1).trans ((iht hj.2.2.1).trans (ihe hj.2.2.2))).record hj.1 _
  | blockUnit h body final _ ih =>
    simp only [Judgement.ids, Expr.ids_block_none, List.forall_mem_cons] at hj
    exact (ih hj.2).record hj.1 _
  | block h body tail final _ _ ihb iht =>
    simp only [Judgement.ids, Expr.ids_block, List.forall_mem_cons, List.forall_mem_append] at hj
    exact ((ihb hj.2.1).trans (iht hj.2.2)).record hj.1 _
  | index h base position final _ _ _ ihp ihb =>
    simp only [Judgement.ids, Expr.ids_index, List.forall_mem_cons, List.forall_mem_append] at hj
    exact ((ihp hj.2.2).trans (ihb hj.2.1)).record hj.1 _
  | indexError h base position final _ _ _ ihp ihb =>
    simp only [Judgement.ids, Expr.ids_index, List.forall_mem_cons, List.forall_mem_append] at hj
    exact ((ihp hj.2.2).trans (ihb hj.2.1)).record hj.1 _
  | array h first rest final _ _ _ ihf ihr =>
    simp only [Judgement.ids, Expr.ids_array, Expr.idsAll_cons, List.forall_mem_cons,
      List.forall_mem_append] at hj
    exact ((ihf hj.2.1).trans (ihr hj.2.2)).record hj.1 _
  | copies h element count final _ ih =>
    simp only [Judgement.ids, Expr.ids_copies, List.forall_mem_cons] at hj
    exact (ih hj.2).record hj.1 _
  | struct h path fields final _ _ _ _ _ ih =>
    simp only [Judgement.ids, Expr.ids_struct, List.forall_mem_cons] at hj
    exact (ih hj.2.2).record hj.1 _
  | exprsNil | argumentsNil | fieldsNil | stmtsNil => exact .refl _
  | exprsCons e es _ _ ihe ihr =>
    simp only [Judgement.ids, Expr.idsAll_cons, List.forall_mem_append] at hj
    exact (ihe hj.1).trans (ihr hj.2)
  | argumentsCons name param params e es _ _ _ ihe ihr =>
    simp only [Judgement.ids, Expr.idsAll_cons, List.forall_mem_append] at hj
    exact (ihe hj.1).trans (ihr hj.2)
  | fieldsCons decls h name value rest _ _ _ _ ihv ihr =>
    simp only [Judgement.ids, FieldInit.idsAll_cons, List.forall_mem_cons,
      List.forall_mem_append] at hj
    exact ((ihv hj.2.1).record hj.1 _).trans (ihr hj.2.2)
  | effect e _ ih => exact ih (by simpa [Judgement.ids] using hj)
  | declare h pattern ascribed ha =>
    simp only [Judgement.ids, Stmt.ids_bind_none, List.forall_mem_cons] at hj
    exact ((ha.frame hj.2.2).record hj.2.1 _).record hj.1 _
  | bind h pattern ascribed init ha _ _ ih =>
    simp only [Judgement.ids, Stmt.ids_bind, List.forall_mem_cons, List.forall_mem_append] at hj
    obtain ⟨hh, hp, has, hi⟩ := hj
    exact (((ha.frame has).trans (ih hi)).record hp _).record hh _
  | stmtsCons st rest _ _ ihs ihr =>
    simp only [Judgement.ids, Stmt.idsAll_cons, List.forall_mem_append] at hj
    exact (ihs hj.1).trans (ihr hj.2)

/-! ## Items -/

theorem HasParams.frame {t u : TypeTable} {ps : List Param} {ms : Members}
    (h : HasParams s t ps ms u) (hj : ∀ id ∈ ps.flatMap Param.ids, P id) : SameBut P t u := by
  induction h with
  | nil t => exact .refl t
  | cons ha _ ih =>
    simp only [List.flatMap_cons, Param.ids_eq, List.cons_append, List.forall_mem_cons,
      List.forall_mem_append] at hj
    obtain ⟨hp, hq, ht, hr⟩ := hj
    exact (((ha.frame ht).record hp _).record hq _).trans (ih hr)

theorem HasFields.frame {t u : TypeTable} {fs : List FieldDecl} {ms : Members}
    (h : HasFields s t fs ms u) (hj : ∀ id ∈ fs.flatMap FieldDecl.ids, P id) : SameBut P t u := by
  induction h with
  | nil t => exact .refl t
  | cons ha _ ih =>
    simp only [List.flatMap_cons, FieldDecl.ids_eq, List.cons_append, List.forall_mem_cons,
      List.forall_mem_append] at hj
    obtain ⟨hf, ht, hr⟩ := hj
    exact ((ha.frame ht).record hf _).trans (ih hr)

theorem HasSignature.frame {t u : TypeTable} {i : Item} {ty : Ty} (h : HasSignature s t i ty u)
    (hj : ∀ id ∈ i.signatureIds.tail, P id) : SameBut P t u := by
  simp only [Item.signatureIds, List.tail_cons] at hj
  cases h with
  | function h d hp ha =>
    simp only [List.forall_mem_append] at hj
    exact (hp.frame hj.1).trans (ha.frame hj.2)
  | struct h d hf => exact hf.frame hj
  | constant h d ha => exact ha.frame hj
  | static h d ha => exact ha.frame hj

theorem Signs.frame {t u : TypeTable} {i : Item} (h : Signs s t i u)
    (hj : ∀ id ∈ i.signatureIds, P id) : SameBut P t u := by
  obtain ⟨ty, v, h, rfl⟩ := h
  exact (h.frame fun id hid => hj id (List.mem_cons_of_mem _ hid)).record
    (hj _ i.head_mem_signatureIds) ty

theorem Fits.frame {t u : TypeTable} {i : Item} (h : Fits s t i u)
    (hr : ∀ site id, s.registry.node? site = some id → P id) (hj : ∀ id ∈ i.bodyIds, P id) :
    SameBut P t u := by
  cases h with
  | function h d _ hb _ =>
    -- entering and leaving the function changes no entry
    exact fun id hid => hb.frame hr hj id hid
  | struct h d => exact .refl t
  | constant h d _ hv _ => exact hv.frame hr hj
  | static h d _ hv _ => exact hv.frame hr hj

theorem frame_of_chain {α : Type} {R : TypeTable → α → TypeTable → Prop} {t u : TypeTable}
    {l : List α} (h : Chain R t l u) (hR : ∀ {t a u}, a ∈ l → R t a u → SameBut P t u) :
    SameBut P t u := by
  induction h with
  | nil t => exact .refl t
  | cons ha _ ih =>
    exact (hR (List.mem_cons_self ..) ha).trans (ih fun hm h => hR (List.mem_cons_of_mem _ hm) h)

theorem mem_signatureOrder {items : List Item} {i : Item} :
    i ∈ signatureOrder items ↔ i ∈ items := by
  unfold signatureOrder
  rw [List.mem_append, List.mem_filter, List.mem_filter]
  cases i.isStruct <;> simp

/-- A pass over a program writes at its nodes and at nodes that names are resolved to only. -/
theorem Passes.frame {p : Program} {t u : TypeTable} (h : Passes s p t u)
    (hr : ∀ site id, s.registry.node? site = some id → P id) (hp : ∀ id ∈ p.ids, P id) :
    SameBut P t u := by
  obtain ⟨v, hs, hb⟩ := h
  have hi : ∀ i ∈ p.items, ∀ id ∈ i.signatureIds ++ i.bodyIds, P id := by
    intro i hi id hid
    rw [← Item.ids_eq] at hid
    exact hp id (by rw [Program.ids_eq]; exact List.mem_flatMap.2 ⟨i, hi, hid⟩)
  refine (frame_of_chain hs fun hm h => h.frame fun id hid => ?_).trans
    (frame_of_chain hb fun hm h => h.frame hr fun id hid => ?_)
  · exact hi _ (mem_signatureOrder.1 hm) id (List.mem_append_left _ hid)
  · exact hi _ hm id (List.mem_append_right _ hid)

end MiddleEnd.Check
