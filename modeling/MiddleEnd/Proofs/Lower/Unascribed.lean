/-
  Lowering a program without some of its annotations. Annotations are not lowered, and of the types
  recorded for nodes lowering reads only what twins share. So with twins in the type table it comes
  to the same C program without the annotations, or fails as it did (`Lower.parallel_program`).
-/
import MiddleEnd.Proofs.Check.Bare
import MiddleEnd.Proofs.Lower.Uses

namespace MiddleEnd

namespace Lower

variable {α β : Type} {k k' : Checked} {X : IrId → Bool}

/-! ## Parallel steps -/

/-- From any state the steps come to the same, or both to faults. -/
def Parallel (m m' : Lower α) : Prop :=
  ∀ l, m'.run.run l = m.run.run l ∨
    (∃ e q, m.run.run l = (.error e, q)) ∧ ∃ e q, m'.run.run l = (.error e, q)

namespace Parallel

protected theorem refl (m : Lower α) : Parallel m m := fun _ => .inl rfl

theorem defects (d d' : Defect) : Parallel (defect d : Lower α) (defect d') :=
  fun _ => .inr ⟨⟨_, _, rfl⟩, _, _, rfl⟩

theorem bind {m m' : Lower α} {f f' : α → Lower β} (hm : Parallel m m')
    (hf : ∀ a, Parallel (f a) (f' a)) : Parallel (m >>= f) (m' >>= f') := by
  intro l
  rw [run_bind, run_bind]
  rcases hm l with h | ⟨⟨e, q, h⟩, e', q', h'⟩
  · rw [h]
    rcases m.run.run l with ⟨e | a, q⟩
    · exact .inl rfl
    · exact hf a q
  · rw [h, h']
    exact .inr ⟨⟨_, _, rfl⟩, _, _, rfl⟩

theorem followed {m m' : Lower α} (h : Parallel m m') (f : α → Lower β) :
    Parallel (m >>= f) (m' >>= f) :=
  h.bind fun a => .refl (f a)

theorem get {f f' : Lowering → Lower α} (h : ∀ l, Parallel (f l) (f' l)) :
    Parallel (MonadState.get >>= f) (MonadState.get >>= f') :=
  fun l => h l l

/-- What is required may be reported in another way. -/
theorem require (d d' : Defect) (o : Option α) :
    Parallel (Lower.require d o) (Lower.require d' o) := by
  cases o with
  | none => exact defects d d'
  | some a => exact .refl _

theorem known {a : α} {d d' : Defect} {f f' : α → Lower β} (h : Parallel (f a) (f' a)) :
    Parallel (Lower.require d (some a) >>= f) (Lower.require d' (some a) >>= f') :=
  h

/-- Steps that go on with twins. -/
theorem requireTwin {d d' : Defect} {o o' : Option Ty} {f f' : Ty → Lower α}
    (h : Option.Rel Ty.Twin o o') (hf : ∀ t t', t.Twin t' → Parallel (f t) (f' t')) :
    Parallel (Lower.require d o >>= f) (Lower.require d' o' >>= f') := by
  cases h with
  | none => exact defects d d'
  | some ht => exact hf _ _ ht

theorem forM {γ : Type} {f f' : γ → Lower PUnit} {l : List γ} {g : γ → γ}
    (h : ∀ a ∈ l, Parallel (f a) (f' (g a))) : Parallel (l.forM f) ((l.map g).forM f') := by
  induction l with
  | nil => exact .refl _
  | cons a l ih =>
    obtain ⟨ha, hl⟩ := List.forall_mem_cons.1 h
    exact ha.bind fun _ => ih hl

end Parallel

/-! ## Types -/

/-- Twins have the same C type. -/
theorem parallel_type : ∀ {t t' : Ty}, t.Twin t' → Parallel (type t) (type t')
  | .unit r, _, h => by
    obtain ⟨s, rfl⟩ := h.of_unit
    exact .defects _ _
  | .array r x n, _, h => by
    obtain ⟨s, y, rfl, hxy⟩ := h.of_array
    exact (parallel_type hxy).followed _
  | .error _, _, h | .infer _, _, h | .bool _, _, h | .int _ _, _, h | .uint _ _, _, h
  | .float _ _, _, h | .struct _ _ _, _, h | .fn _ _ _, _, h | .field _ _ _, _, h
  | .generic _ _, _, h => by
    rw [h.eq rfl]
    exact .refl _

theorem parallel_temporary? {t t' : Ty} (h : t.Twin t') :
    Parallel (temporary? t) (temporary? t') := by
  unfold temporary?
  rw [h.isUnit_eq]
  split
  · exact .refl _
  · exact ((parallel_type h).followed _).followed _

theorem parallel_keep {t t' : Ty} (h : t.Twin t') (value : C.Expr) :
    Parallel (keep t value) (keep t' value) :=
  (parallel_temporary? h).followed _

/-! ## Shapes of expressions -/

theorem addsItself_unascribe (e : Expr) : addsItself (e.unascribe X) = addsItself e := by
  cases e with
  | ret h value => cases value <;> rfl
  | block h stmts tail => cases tail <;> rfl
  | _ => rfl

theorem isInert_unascribe (e : Expr) : isInert (e.unascribe X) = isInert e := by
  cases e with
  | ret h value => cases value <;> rfl
  | block h stmts tail => cases tail <;> rfl
  | _ => rfl

theorem parallel_effect (e : Expr) {m m' : Lower C.Expr} (h : Parallel m m') :
    Parallel (effect e m) (effect (e.unascribe X) m') := by
  unfold effect
  rw [addsItself_unascribe]
  exact h.followed _

theorem parallel_effectOnly (e : Expr) {m m' : Lower C.Expr} (h : Parallel m m') :
    Parallel (effectOnly e m) (effectOnly (e.unascribe X) m') :=
  (parallel_effect e h).followed _

theorem parallel_inBlock (target : Option C.VarId) {m m' : Lower (Option C.Expr)}
    (h : Parallel m m') : Parallel (inBlock target m) (inBlock target m') :=
  .bind (.refl _) fun _ => .bind (.refl _) fun _ => .bind (.refl _) fun _ => h.followed _

/-! ## What two lowerings read -/

/-- With the tables `k'` lowering finds twins of the types that it finds with `k`, and the same for
every name. -/
structure Kindred (X : IrId → Bool) (k k' : Checked) (ps : List Part) : Prop where
  types : ∀ {e}, .expr e ∈ ps → Option.Rel Ty.Twin (k.types.get? e.ir) (k'.types.get? e.ir)
  lets : ∀ {h q}, .bind h q ∈ ps →
    Option.Rel Ty.Twin (k.types.get? h.id.ir) (k'.types.get? h.id.ir)
  names : ∀ {h x}, .expr (.identifier h x) ∈ ps →
    Parallel (declaration k (.identifier h x)) (declaration k' (.identifier h x))
  callees : ∀ {h f args}, .expr (.call h f args) ∈ ps → .callee f ∈ ps →
    Parallel (callee k f) (callee k' (f.unascribe X))

namespace Kindred

variable {ps qs : List Part}

theorem sub (h : Kindred X k k' ps) (hq : qs ⊆ ps) : Kindred X k k' qs where
  types hm := h.types (hq hm)
  lets hm := h.lets (hq hm)
  names hm := h.names (hq hm)
  callees hm hm' := h.callees (hq hm) (hq hm')

theorem tail {p : Part} (h : Kindred X k k' (p :: ps)) : Kindred X k k' ps :=
  h.sub (List.subset_cons_self ..)

theorem left (h : Kindred X k k' (ps ++ qs)) : Kindred X k k' ps :=
  h.sub (List.subset_append_left ..)

theorem right (h : Kindred X k k' (ps ++ qs)) : Kindred X k k' qs :=
  h.sub (List.subset_append_right ..)

/-- The types recorded for an expression are twins. -/
theorem typeOf {e : Expr} {g : Head} {f f' : Ty → Lower α} (h : Kindred X k k' (.expr e :: ps))
    (he : e.ir = g.id.ir) (hf : ∀ t t', t.Twin t' → Parallel (f t) (f' t')) :
    Parallel (typeOf k g.id.ir >>= f) (typeOf k' g.id.ir >>= f') :=
  .requireTwin (he ▸ h.types (List.mem_cons_self ..)) hf

end Kindred

/-- A callee for which both lowerings find the same node. -/
theorem parallel_callee {f : Expr} {decl : SurfaceId}
    (hname : k.scope.bindings.name? f.surface = some decl)
    (hname' : k'.scope.bindings.name? f.surface = some decl)
    (hnode : k'.scope.registry.node? ⟨f.head.id.crate, decl⟩ =
      k.scope.registry.node? ⟨f.head.id.crate, decl⟩) :
    Parallel (callee k f) (callee k' (f.unascribe X)) := by
  unfold callee
  rw [f.surface_unascribe X, f.head_unascribe X, hname, hname']
  refine .known ?_
  rw [hnode]
  exact .bind (.require _ _ _) fun _ => .get fun _ => .require _ _ _

theorem parallel_literal {id : IrId} (lit : Literal)
    (h : Option.Rel Ty.Twin (k.types.get? id) (k'.types.get? id)) :
    Parallel (literal k id lit) (literal k' id lit) := by
  refine .requireTwin h fun t t' ht => ?_
  have hfloat : ∀ s, Parallel (literal.float lit t s) (literal.float lit t' s) := fun s =>
    .bind (.refl _) fun _ => (parallel_type ht).followed _
  have hfloats : isFloat t' = isFloat t := ht.congr (fun _ _ => rfl) fun _ _ _ _ _ => rfl
  dsimp only
  rw [hfloats]
  cases lit.kind with
  | bool => exact .refl _
  | float => exact hfloat _
  | int =>
    dsimp only
    split
    · exact hfloat _
    · exact .bind (.refl _) fun _ => (parallel_type ht).followed _

theorem parallel_hasValue {e : Expr}
    (h : Option.Rel Ty.Twin (k.types.get? e.ir) (k'.types.get? e.ir)) :
    Parallel (hasValue k e) (hasValue k' (e.unascribe X)) := by
  have htype : Parallel (do return !(← typeOf k e.ir).isUnit)
      (do return !(← typeOf k' (e.unascribe X).ir).isUnit) := by
    rw [e.ir_unascribe X]
    refine .requireTwin h fun t t' ht => ?_
    rw [ht.isUnit_eq]
    exact .refl _
  cases e with
  | ret h value => cases value <;> exact .refl _
  | block h stmts tail => cases tail <;> exact htype
  | _ => exact htype

/-! ## Expressions and statements -/

/-- Lowering the expression, by itself and as a branch, comes to the same without annotations. -/
structure ParallelAll (X : IrId → Bool) (k k' : Checked) (e : Expr) : Prop where
  expr : Parallel (expr k e) (Lower.expr k' (e.unascribe X))
  branch : Parallel (branch k e) (Lower.branch k' (e.unascribe X))

theorem parallelAll_of_expr {e : Expr} (hb : ∀ g ss tail, e ≠ .block g ss tail)
    (h : Parallel (expr k e) (expr k' (e.unascribe X))) : ParallelAll X k k' e := by
  refine ⟨h, ?_⟩
  have heffect := parallel_effectOnly (X := X) e h
  cases e with
  | block g ss tail => exact absurd rfl (hb g ss tail)
  | ret h value => cases value <;> exact heffect
  | _ => exact heffect

mutual

theorem parallelAll : ∀ e : Expr, Kindred X k k' e.parts → ParallelAll X k k' e
  | .literal h lit, hk => parallelAll_of_expr (by simp)
    (parallel_literal lit (hk.types (List.mem_singleton_self _)))
  | .identifier h name, hk => parallelAll_of_expr (by simp)
    ((hk.names (List.mem_singleton_self _)).followed _)
  | .ret _ none, _ => parallelAll_of_expr (by simp) (.refl _)
  | .ret _ (some value), hk => parallelAll_of_expr (by simp) ((parallelAll value hk.tail).expr.followed _)
  | .call h f args, hk => parallelAll_of_expr (by simp) <|
    (hk.callees (List.mem_cons_self ..) (List.mem_cons_of_mem _ (List.mem_cons_self ..))).bind
      fun _ => (parallel_exprs args hk.tail.tail).followed _
  | .assign _ target value, hk => parallelAll_of_expr (by simp)
    ((parallelAll target hk.tail.left).expr.bind fun _ =>
      (parallelAll value hk.tail.right).expr.followed _)
  | .binary _ op lhs rhs, hk => parallelAll_of_expr (by simp)
    ((parallelAll lhs hk.tail.left).expr.bind fun _ => (parallelAll rhs hk.tail.right).expr.followed _)
  | .ifOnly h condition body, hk => by
    refine parallelAll_of_expr (by simp) ?_
    rw [Expr.unascribe, expr_ifOnly, expr_ifOnly]
    exact (parallelAll condition hk.tail.left).expr.bind fun _ =>
      (parallel_inBlock none (parallelAll body hk.tail.right).branch).followed _
  | .ifElse h condition thenBody elseBody, hk => by
    refine parallelAll_of_expr (by simp) ?_
    rw [Expr.unascribe, expr_ifElse, expr_ifElse]
    exact hk.typeOf rfl fun t t' ht => (parallelAll condition hk.tail.left).expr.bind fun _ =>
      (parallel_temporary? ht).bind fun target =>
      (parallel_inBlock target (parallelAll thenBody hk.tail.right.left).branch).bind fun _ =>
      (parallel_inBlock target (parallelAll elseBody hk.tail.right.right).branch).followed _
  | .ifElseIf h condition thenBody elseIf, hk => by
    refine parallelAll_of_expr (by simp) ?_
    rw [Expr.unascribe, expr_ifElseIf, expr_ifElseIf]
    exact (parallelAll condition hk.tail.left).expr.bind fun _ =>
      (parallel_inBlock none (parallelAll thenBody hk.tail.right.left).branch).bind fun _ =>
      (parallel_inBlock none (parallelAll elseIf hk.tail.right.right).branch).followed _
  | .block h ss none, hk => by
    have hbranch : Parallel (branch k (.block h ss none))
        (branch k' (.block h (Stmt.unascribeAll X ss) none)) :=
      (parallel_stmts ss hk.tail).followed _
    exact ⟨hk.typeOf rfl fun t t' ht => (parallel_temporary? ht).bind fun target =>
      (parallel_inBlock target hbranch).followed _, hbranch⟩
  | .block h ss (some e), hk => by
    have htail : Parallel (tailValue k (some e)) (tailValue k' (some (e.unascribe X))) := by
      refine (parallel_hasValue (hk.tail.right.types e.self_mem_parts)).bind fun b => ?_
      have he := (parallelAll e hk.tail.right).expr
      cases b with
      | true => exact he.followed _
      | false => exact parallel_effectOnly e he
    have hbranch : Parallel (branch k (.block h ss (some e)))
        (branch k' (.block h (Stmt.unascribeAll X ss) (some (e.unascribe X)))) :=
      (parallel_stmts ss hk.tail.left).bind fun _ => htail
    exact ⟨hk.typeOf rfl fun t t' ht => (parallel_temporary? ht).bind fun target =>
      (parallel_inBlock target hbranch).followed _, hbranch⟩
  | .index _ base position, hk => parallelAll_of_expr (by simp)
    ((parallelAll base hk.tail.left).expr.bind fun _ =>
      (parallelAll position hk.tail.right).expr.followed _)
  | .array h values, hk => parallelAll_of_expr (by simp)
    (hk.typeOf rfl fun t t' ht => (parallel_type ht).bind fun _ =>
      (parallel_exprs values hk.tail).followed _)
  | .copies h element count, hk => parallelAll_of_expr (by simp)
    (hk.typeOf rfl fun t t' ht => (parallel_type ht).bind fun _ =>
      (parallelAll element hk.tail).expr.followed _)
  | .struct h path fields, hk => parallelAll_of_expr (by simp)
    (hk.typeOf rfl fun t t' ht => by
      dsimp only
      rw [ht.struct?_eq]
      cases t.struct? with
      | none => exact .defects _ _
      | some found =>
        refine (parallel_type ht).bind fun ct => ?_
        rw [FieldInit.map_name_unascribeAll]
        exact (parallel_fields _ fields hk.tail.tail).followed _)

theorem parallel_exprs : ∀ es : List Expr, Kindred X k k' (Expr.partsAll es) →
    Parallel (exprs k es) (exprs k' (Expr.unascribeAll X es))
  | [], _ => .refl _
  | e :: rest, hk => (parallelAll e hk.left).expr.bind fun _ =>
    (parallel_exprs rest hk.right).followed _

theorem parallel_fields (inOrder : Bool) : ∀ fs : List FieldInit,
    Kindred X k k' (FieldInit.partsAll fs) →
    Parallel (fieldInits k inOrder fs) (fieldInits k' inOrder (FieldInit.unascribeAll X fs))
  | [], _ => .refl _
  | .mk _ name value :: rest, hk => by
    refine (parallelAll value hk.tail.left).expr.bind fun v => ?_
    rw [isInert_unascribe, Expr.ir_unascribe]
    have hrest := parallel_fields inOrder rest hk.tail.right
    split
    · exact hrest.followed _
    · exact .requireTwin (hk.tail.left.types value.self_mem_parts) fun t t' ht =>
        (parallel_keep ht v).bind fun _ => hrest.followed _

theorem parallel_stmt : ∀ st : Stmt, Kindred X k k' st.parts →
    Parallel (stmt k st) (stmt k' (st.unascribe X))
  | .expr e, hk => parallel_effect e (parallelAll e hk).expr
  | .bind h pattern ascribed none, hk =>
    .requireTwin (hk.lets (List.mem_cons_self ..)) fun t t' ht => by
      rw [ht.isUnit_eq, ht.isInfer_eq]
      split
      · exact .refl _
      · exact (parallel_type ht).followed _
  | .bind h pattern ascribed (some init), hk =>
    .requireTwin (hk.lets (List.mem_cons_self ..)) fun t t' ht => by
      have hinit := (parallelAll init hk.tail.right).expr
      rw [ht.isUnit_eq, ht.isInfer_eq]
      split
      · exact parallel_effect init hinit
      · exact (parallel_type ht).bind fun _ => hinit.followed _

theorem parallel_stmts : ∀ sts : List Stmt, Kindred X k k' (Stmt.partsAll sts) →
    Parallel (stmts k sts) (stmts k' (Stmt.unascribeAll X sts))
  | [], _ => .refl _
  | st :: rest, hk => (parallel_stmt st hk.left).bind fun _ => parallel_stmts rest hk.right

end

/-! ## Items -/

section

variable {i : Item}
  (hi : Option.Rel Ty.Twin (k.types.get? i.head.id.ir) (k'.types.get? i.head.id.ir))
include hi

theorem parallel_signatureOf (d d' : FunctionDecl) :
    Parallel (signatureOf k i d) (signatureOf k' (i.unascribe X) d') :=
  .requireTwin hi fun t t' ht => by
    rw [ht.fn?_eq]
    exact .require _ _ _

theorem parallel_structItem (d : StructDecl) :
    Parallel (structItem k i d) (structItem k' (i.unascribe X) d) :=
  .requireTwin hi fun t t' ht => by
    rw [ht.struct?_eq]
    cases t.struct? with
    | none => exact .defects _ _
    | some found => exact .refl _

theorem parallel_constantItem (d : ConstantDecl) (hk : Kindred X k k' d.value.parts) :
    Parallel (constantItem k i d)
      (constantItem k' (i.unascribe X) { d with value := d.value.unascribe X }) :=
  .requireTwin hi fun _ _ ht => (parallel_type ht).bind fun _ =>
    (parallelAll d.value hk).expr.followed _

theorem parallel_staticItem (d : StaticDecl) (hk : Kindred X k k' d.value.parts) :
    Parallel (staticItem k i d)
      (staticItem k' (i.unascribe X) { d with value := d.value.unascribe X }) :=
  .requireTwin hi fun _ _ ht => (parallel_type ht).bind fun _ =>
    (parallelAll d.value hk).expr.followed _

theorem parallel_functionSignature (d d' : FunctionDecl) (hname : d'.name = d.name) :
    Parallel (functionSignature k i d) (functionSignature k' (i.unascribe X) d') := by
  unfold functionSignature
  rw [hname]
  exact (parallel_signatureOf hi d d').followed _

theorem parallel_functionBody (d : FunctionDecl) (hk : Kindred X k k' d.body.parts) :
    Parallel (functionBody k i d)
      (functionBody k' (i.unascribe X) { d with body := d.body.unascribe X }) := by
  refine .get fun l => .bind (.refl _) fun f => .get fun q => ?_
  split
  · exact .refl _
  · refine (parallel_signatureOf hi d _).bind fun sig => .bind (.refl _) fun _ =>
      .bind (.refl _) fun b => .bind (.refl _) fun _ => .bind (.refl _) fun slot =>
      .bind (.refl _) fun _ => ?_
    obtain ⟨name, params, returns, body⟩ := d
    cases body with
    | block g ss tail =>
      have hcontents := (parallelAll (.block g ss tail) hk).branch
      cases tail <;> exact hcontents.followed _
    | ret g value => cases value <;> exact .defects _ _
    | _ => exact .defects _ _

end

/-! ## Programs -/

/-- Lowering the program comes to the same without the annotations of `X`, with tables that are
kindred on its parts and have twins for its items. -/
theorem parallel_program {p : Program} (hk : Kindred X k k' p.parts) (hi : ∀ i ∈ p.items,
    Option.Rel Ty.Twin (k.types.get? i.head.id.ir) (k'.types.get? i.head.id.ir)) :
    Parallel (program k p) (program k' (p.unascribe X)) := by
  have hbody : ∀ i ∈ p.items, Kindred X k k' i.bodyParts := fun i hm =>
    hk.sub fun _ ha => Check.mem_parts_of_bodyParts hm ha
  unfold program Program.unascribe
  rw [List.length_map]
  refine .bind (.refl _) fun _ => .bind (.forM fun i hm => ?_) fun _ =>
    .bind (.forM fun i hm => ?_) fun _ => .bind (.forM fun i hm => ?_) fun _ =>
    .bind (.forM fun i hm => ?_) fun _ => .refl _
  all_goals
    have hi := hi i hm
    have hbody := hbody i hm
    obtain ⟨h, kind⟩ := i
  · cases kind with
    | struct d => exact parallel_structItem hi d
    | _ => exact .refl _
  · cases kind with
    | constant d => exact parallel_constantItem hi d hbody
    | static d => exact parallel_staticItem hi d hbody
    | _ => exact .refl _
  · cases kind with
    | function d => exact parallel_functionSignature hi d _ rfl
    | _ => exact .refl _
  · cases kind with
    | function d => exact parallel_functionBody hi d hbody
    | _ => exact .refl _

theorem parallel_enterPrimitives
    (hb : k'.scope.bindings.builtins = k.scope.bindings.builtins)
    (h : ∀ b ∈ k.scope.bindings.builtins,
      k'.types.builtinId? b.node = k.types.builtinId? b.node ∧
      ∀ id, k.types.builtinId? b.node = some id →
        Option.Rel Ty.Twin (k.types.get? id) (k'.types.get? id)) :
    Parallel (enterPrimitives k) (enterPrimitives k') := by
  unfold enterPrimitives
  rw [hb]
  suffices hall : Parallel _ ((k.scope.bindings.builtins.map id).forM _) by
    rwa [List.map_id] at hall
  refine .forM fun b hm => ?_
  obtain ⟨hid, htypes⟩ := h b hm
  dsimp only [id]
  rw [hid]
  cases hnode : k.types.builtinId? b.node with
  | none => exact .defects _ _
  | some id =>
    refine .requireTwin (htypes id hnode) fun t t' ht => ?_
    have hprimitive : primitiveTy? t' = primitiveTy? t :=
      ht.congr (fun _ _ => rfl) fun _ _ _ _ _ => rfl
    unfold primitive
    rw [hprimitive]
    exact (Parallel.require _ _ _).followed _

end Lower

/-! ## Sessions -/

namespace Session

variable {X : IrId → Bool} {u : CompilationUnit} {ρ : Renumbering} {m : Session}

/-- A clean check comes by every use of a declaration. -/
theorem Clean.consults (h : (ofUnit u).Clean) {e : Expr} (he : .expr e ∈ u.program.parts)
    (hu : e.isUse = true) : ∃ t id ty, Check.Consults (ofUnit u).scope t e id ty := by
  obtain ⟨i, hi, hpart⟩ := List.mem_flatMap.1 he
  have hbody := (List.mem_append.1 hpart).resolve_left (Check.noExpr_signatureParts i e)
  obtain ⟨id, t, _, ty, _, hconsults, _⟩ := (h.passes rfl).goesBy hi hbody hu
  exact ⟨t, id, ty, hconsults⟩

namespace Bare

variable (h : Bare X u ρ m) (hs : u.program.surfaces.Nodup) (hb : (ofUnit u).DeclarationsBound)
  (hclean : (ofUnit u).Clean) {v : TypeTable} (hv : Signed u v)
  (hagree : (hv.omission X m).Agree (ofUnit u).check.2.types m.check.2.types)
include h hs hb hclean hagree

/-- Lowering reads twins and the same names after the two checks. -/
theorem kindred : Lower.Kindred X (ofUnit u).check.2.checked m.check.2.checked
    u.program.parts where
  types := by
    intro e he
    have hkept := Program.unascribe_mem_parts (X := X) he nofun
    refine hagree.twins (Program.not_mem_droppedIds hv.distinct ?_)
    rw [← e.ir_unascribe X]
    exact Program.mem_ids_of_irs hkept (List.mem_singleton_self _)
  lets := by
    intro g q hq
    have hkept := Program.unascribe_mem_parts (X := X) hq nofun
    exact hagree.twins (Program.not_mem_droppedIds hv.distinct
      (Program.mem_ids_of_irs hkept (List.mem_cons_self ..)))
  names := by
    intro g x he l
    obtain ⟨t, id, ty, hconsults⟩ := hclean.consults he rfl
    cases hconsults with
    | name _ _ hd _ =>
      have hd' := ((hv.covers h hb hs).names he hd).1
      have hrun := Lower.runs_declaration_of (k := (ofUnit u).check.2.checked) (l := l) hd
      have hrun' := Lower.runs_declaration_of (k := m.check.2.checked) (l := l) hd'
      exact .inl (hrun'.trans hrun.symm)
  callees := by
    intro g f args hcall hq
    obtain ⟨t, id, ty, hconsults⟩ := hclean.consults hcall rfl
    obtain ⟨decl, hname, hnode⟩ := hconsults.node
    have hdeclared := hb.callees _ (List.mem_filterMap.2 ⟨_, hcall, rfl⟩) decl hname id hnode
    have hid := Program.not_mem_droppedIds hv.distinct
      (Program.mem_unascribe_of_declared (X := X) hdeclared)
    have hkept : (f.unascribe X).surface ∈ _ :=
      Program.mem_surfaces_of_parts (Program.unascribe_mem_parts (X := X) hq nofun)
    rw [f.surface_unascribe X] at hkept
    obtain ⟨hname', hnode'⟩ :=
      h.callee hv.room hv.distinct hs hkept hname (mem_surfaces_of_node? hnode hid)
    exact Lower.parallel_callee hname hname' (hnode' f.head.id.crate)

/-- After the two checks lowering writes the same, or fails twice. -/
theorem lower (target : String) :
    m.check.2.lower target = (ofUnit u).check.2.lower target ∨
      (∃ e l, (ofUnit u).check.2.lower target = (.error e, l)) ∧
        ∃ e l, m.check.2.lower target = (.error e, l) := by
  have hprogram : Lower.Parallel
      (Lower.program (ofUnit u).check.2.checked (ofUnit u).check.2.program)
      (Lower.program m.check.2.checked m.check.2.program) := by
    rw [check_program, check_program, h.program]
    refine Lower.parallel_program (h.kindred hs hb hclean hv hagree) fun i hi => ?_
    exact hagree.twins (Program.not_mem_droppedIds hv.distinct
      (Program.mem_unascribe_of_firm (Program.head_mem_firm hi)))
  have hprimitives : Lower.Parallel (Lower.enterPrimitives (ofUnit u).check.2.checked)
      (Lower.enterPrimitives m.check.2.checked) := by
    refine Lower.parallel_enterPrimitives h.builtins fun b hm => ?_
    have hids : m.check.2.types.builtinIds = (ofUnit u).check.2.types.builtinIds :=
      hagree.setting.builtinIds
    refine ⟨congrArg (·[b.node]?) hids, fun id hid => hagree.twins ?_⟩
    obtain ⟨r, hr, hget⟩ := (based hv.room).listed b hm
    have hid : (ofUnit u).types.builtinId? b.node = some id :=
      (congrArg (·[b.node]?) hagree.builtinIds).symm.trans hid
    cases hr.symm.trans hid
    intro hgone
    refine fresh_of_get? hv.room ?_ ((u.program.ids_unascribe X).mem_iff.2
      (List.mem_append_right _ hgone))
    rw [hget]
    exact nofun
  exact (hprimitives.bind fun _ => hprogram) (.empty target)

end Bare

end Session

end MiddleEnd
