/-
  Checking a whole program where there is nothing to report: the signatures of all items, struct
  items first, then all bodies. `Passes s p t u` says that it leads from tables `t` to tables `u`;
  `Session.passes_of_check` and `Session.check_of_passes` tie it to the check of a session.
-/
import MiddleEnd.Session
import MiddleEnd.Proofs.Chain
import MiddleEnd.Proofs.Check.Derivation

namespace MiddleEnd.Check

variable {s : Scope}

theorem meets_forM {α : Type} {f : α → Check PUnit} {R : TypeTable → α → TypeTable → Prop}
    (hf : ∀ a, Meets (f a) (fun t _ u => R t a u)) (l : List α) :
    Meets (l.forM f) (fun t _ u => Chain R t l u) := by
  induction l with
  | nil =>
    refine (meets_pure PUnit.unit).mono ?_
    rintro t _ u ⟨_, rfl⟩
    exact .nil u
  | cons a l ih =>
    show Meets (f a >>= fun _ => l.forM f) _
    refine ((hf a).bind fun _ => ih).mono ?_
    rintro t _ u ⟨_, v, ha, hl⟩
    exact .cons ha hl

theorem yields_forM {α : Type} {f : α → Check PUnit} {R : TypeTable → α → TypeTable → Prop}
    (hf : ∀ {t a u}, R t a u → Yields (f a) t PUnit.unit u) {t u : TypeTable} {l : List α}
    (h : Chain R t l u) : Yields (l.forM f) t PUnit.unit u := by
  induction h with
  | nil t => exact yields_pure t PUnit.unit
  | @cons t _ _ a l ha _ ih =>
    show Yields (f a >>= fun _ => l.forM f) _ _ _
    exact (hf ha).bind ih

/-! ## Signatures -/

inductive HasParams (s : Scope) : TypeTable → List Param → Members → TypeTable → Prop
  | nil (t : TypeTable) : HasParams s t [] .nil t
  | cons {t u v : TypeTable} {p : Param} {rest : List Param} {ty : Ty} {ms : Members} :
    Annotates s t p.type ty u →
    HasParams s ((u.record p.head.id.ir ty).record p.pattern.id.ir ty) rest ms v →
    HasParams s t (p :: rest) (.cons p.pattern.name ty ms) v

inductive HasFields (s : Scope) : TypeTable → List FieldDecl → Members → TypeTable → Prop
  | nil (t : TypeTable) : HasFields s t [] .nil t
  | cons {t u v : TypeTable} {f : FieldDecl} {rest : List FieldDecl} {ty : Ty} {ms : Members} :
    Annotates s t f.type ty u →
    HasFields s (u.record f.head.id.ir (.field f.head.id.ir f.name ty)) rest ms v →
    HasFields s t (f :: rest) (.cons f.name ty ms) v

/-- The type of the item, as its signature says. -/
inductive HasSignature (s : Scope) : TypeTable → Item → Ty → TypeTable → Prop
  | function {t u v : TypeTable} {ps : Members} {result : Option Ty} (h : Head)
      (d : FunctionDecl) :
    HasParams s t d.params ps u →
    Annotates? s u d.returns result v →
    HasSignature s t ⟨h, .function d⟩ (.fn h.id.ir ps (result.getD (.unit h.id.ir))) v
  | struct {t u : TypeTable} {fs : Members} (h : Head) (d : StructDecl) :
    HasFields s t d.fields fs u →
    HasSignature s t ⟨h, .struct d⟩ (.struct h.id.ir d.name fs) u
  | constant {t u : TypeTable} {ty : Ty} (h : Head) (d : ConstantDecl) :
    Annotates s t d.type ty u → HasSignature s t ⟨h, .constant d⟩ ty u
  | static {t u : TypeTable} {ty : Ty} (h : Head) (d : StaticDecl) :
    Annotates s t d.type ty u → HasSignature s t ⟨h, .static d⟩ ty u

/-- Recording the type of the item. -/
def Signs (s : Scope) (t : TypeTable) (i : Item) (u : TypeTable) : Prop :=
  ∃ ty v, HasSignature s t i ty v ∧ u = v.record i.head.id.ir ty

theorem meets_params : ∀ ps : List Param,
    Meets (params s ps) (fun t ms u => HasParams s t ps ms u)
  | [] => by
    rw [params]
    refine (meets_pure _).mono ?_
    rintro t ms u ⟨rfl, rfl⟩
    exact .nil u
  | p :: rest => by
    rw [params]
    refine ((meets_typeExpr p.type).bind fun ty => (meets_record p.head.id.ir ty).bind fun _ =>
      (meets_record p.pattern.id.ir ty).bind fun _ => (meets_params rest).bind fun ms =>
      meets_pure (Members.cons p.pattern.name ty ms)).mono ?_
    rintro t _ u ⟨ty, v, ha, _, _, rfl, _, _, rfl, ms, _, hr, rfl, rfl⟩
    exact .cons ha hr

theorem HasParams.yields {t u : TypeTable} {ps : List Param} {ms : Members}
    (h : HasParams s t ps ms u) : Yields (params s ps) t ms u := by
  induction h with
  | nil t => exact yields_pure _ _
  | cons ha _ ih =>
    rw [params]
    exact (yields_typeExpr ha).bind ((yields_record _ _ _).bind ((yields_record _ _ _).bind
      (ih.bind (yields_pure _ _))))

theorem meets_fieldDecls : ∀ fs : List FieldDecl,
    Meets (fieldDecls s fs) (fun t ms u => HasFields s t fs ms u)
  | [] => by
    rw [fieldDecls]
    refine (meets_pure _).mono ?_
    rintro t ms u ⟨rfl, rfl⟩
    exact .nil u
  | f :: rest => by
    rw [fieldDecls]
    refine ((meets_typeExpr f.type).bind fun ty => (meets_record f.head.id.ir _).bind fun _ =>
      (meets_fieldDecls rest).bind fun ms => meets_pure (Members.cons f.name ty ms)).mono ?_
    rintro t _ u ⟨ty, v, ha, _, _, rfl, ms, _, hr, rfl, rfl⟩
    exact .cons ha hr

theorem HasFields.yields {t u : TypeTable} {fs : List FieldDecl} {ms : Members}
    (h : HasFields s t fs ms u) : Yields (fieldDecls s fs) t ms u := by
  induction h with
  | nil t => exact yields_pure _ _
  | cons ha _ ih =>
    rw [fieldDecls]
    exact (yields_typeExpr ha).bind ((yields_record _ _ _).bind (ih.bind (yields_pure _ _)))

theorem meets_functionType (h : Head) (d : FunctionDecl) :
    Meets (functionType s h.id.ir d) (fun t ty u => HasSignature s t ⟨h, .function d⟩ ty u) := by
  unfold functionType
  cases hr : d.returns with
  | none =>
    refine ((meets_params d.params).bind fun ps => (meets_pure (Ty.unit h.id.ir)).bind fun r =>
      meets_pure (Ty.fn h.id.ir ps r)).mono ?_
    rintro t _ u ⟨ps, v, hp, _, _, ⟨rfl, rfl⟩, rfl, rfl⟩
    have hn : Annotates? s u d.returns none u := by
      rw [hr]
      exact .none u
    exact .function h d hp hn
  | some a =>
    refine ((meets_params d.params).bind fun ps => (meets_typeExpr a).bind fun r =>
      meets_pure (Ty.fn h.id.ir ps r)).mono ?_
    rintro t _ u ⟨ps, v, hp, r, _, ha, rfl, rfl⟩
    have hsome : Annotates? s v d.returns (some r) u := by
      rw [hr]
      exact .some ha
    exact .function h d hp hsome

theorem meets_signatureType (i : Item) :
    Meets (signatureType s i) (fun t ty u => HasSignature s t i ty u) := by
  obtain ⟨h, k⟩ := i
  cases k with
  | function d => exact meets_functionType h d
  | struct d =>
    refine ((meets_fieldDecls d.fields).bind fun fs =>
      meets_pure (Ty.struct h.id.ir d.name fs)).mono ?_
    rintro t _ u ⟨fs, v, hf, rfl, rfl⟩
    exact .struct h d hf
  | constant d => exact (meets_typeExpr d.type).mono fun t ty u ha => .constant h d ha
  | static d => exact (meets_typeExpr d.type).mono fun t ty u ha => .static h d ha

theorem HasSignature.yields {t u : TypeTable} {i : Item} {ty : Ty}
    (hs : HasSignature s t i ty u) : Yields (signatureType s i) t ty u := by
  cases hs with
  | function h d hp ha =>
    obtain ⟨name, ps, returns, body⟩ := d
    refine hp.yields.bind ?_
    cases ha with
    | none =>
      dsimp only
      exact (yields_pure _ _).bind (yields_pure _ _)
    | some ha => exact (yields_typeExpr ha).bind (yields_pure _ _)
  | struct h d hf => exact hf.yields.bind (yields_pure _ _)
  | constant h d ha => exact yields_typeExpr ha
  | static h d ha => exact yields_typeExpr ha

theorem meets_signature (i : Item) : Meets (signature s i) (fun t _ u => Signs s t i u) := by
  refine ((meets_signatureType i).bind fun ty => meets_record i.head.id.ir ty).mono ?_
  rintro t _ u ⟨ty, v, h, rfl⟩
  exact ⟨ty, v, h, rfl⟩

theorem Signs.yields {t u : TypeTable} {i : Item} (h : Signs s t i u) :
    Yields (signature s i) t () u := by
  obtain ⟨ty, v, h, rfl⟩ := h
  exact h.yields.bind (yields_record _ _ _)

/-! ## Bodies -/

/-- The body or initial value of the item fits its signature. -/
inductive Fits (s : Scope) : TypeTable → Item → TypeTable → Prop
  | function {t u : TypeTable} {r : IrId} {ps : Members} {result ty : Ty} (h : Head)
      (d : FunctionDecl) :
    t.get? h.id.ir = some (.fn r ps result) →
    Derives s (t.pushReturn result) (.expr d.body true ty) u →
    (∀ tail, d.body.tail? = some tail → (result.combine? ty).isSome) →
    Fits s t ⟨h, .function d⟩ u.popReturn.2
  | struct {t : TypeTable} (h : Head) (d : StructDecl) : Fits s t ⟨h, .struct d⟩ t
  | constant {t u : TypeTable} {declared ty both : Ty} (h : Head) (d : ConstantDecl) :
    t.get? h.id.ir = some declared →
    Derives s t (.expr d.value false ty) u →
    declared.combine? ty = some both →
    Fits s t ⟨h, .constant d⟩ u
  | static {t u : TypeTable} {declared ty both : Ty} (h : Head) (d : StaticDecl) :
    t.get? h.id.ir = some declared →
    Derives s t (.expr d.value false ty) u →
    declared.combine? ty = some both →
    Fits s t ⟨h, .static d⟩ u

theorem run_inFunction {α : Type} (r : Ty) (m : Check α) (p : Progress) :
    (inFunction r m).run.run p =
      match m.run.run { p with types := p.types.pushReturn r } with
      | (a, q) => (a, { q with types := q.types.popReturn.2 }) :=
  rfl

theorem meets_inFunction {α : Type} (r : Ty) {m : Check α} {R : Step α} (hm : Meets m R) :
    Meets (inFunction r m) (fun t a u => ∃ v, R (t.pushReturn r) a v ∧ u = v.popReturn.2) where
  keeps p := by
    rw [run_inFunction]
    exact hm.keeps { p with types := p.types.pushReturn r }
  clean p a q hr hd := by
    rw [run_inFunction] at hr
    rcases hm' : m.run.run { p with types := p.types.pushReturn r } with ⟨b, q'⟩
    rw [hm'] at hr
    cases hr
    exact ⟨q'.types, hm.clean _ a q' hm' hd, rfl⟩

theorem yields_inFunction {α : Type} (r : Ty) {m : Check α} {t u : TypeTable} {a : α}
    (h : Yields m (t.pushReturn r) a u) : Yields (inFunction r m) t a u.popReturn.2 := by
  intro p hp
  obtain ⟨q, hr, hd, hu⟩ := h { p with types := p.types.pushReturn r } (by rw [hp])
  exact ⟨{ q with types := q.types.popReturn.2 }, by rw [run_inFunction, hr], hd, by rw [hu]⟩

/-- The value of a tail fits the result of its function. -/
theorem meets_tail (result : Ty) (tail : Option Expr) (bodyType : Option Ty) :
    Meets (match tail, bodyType with
      | some tail, some ty => discard (reconcile result ty tail.locus)
      | _, _ => return () : Check Unit)
      (fun t _ u => ∀ ty, bodyType = some ty →
        (∀ e, tail = some e → (result.combine? ty).isSome) ∧ u = t) := by
  split
  · rename_i e ty
    refine (meets_discard (meets_reconcile result ty e.locus)).mono ?_
    rintro t _ u ⟨_, both, rfl, h, rfl⟩ _ ⟨⟩
    exact ⟨fun _ _ => by rw [h]; rfl, rfl⟩
  · rename_i hn
    refine (meets_pure ()).mono ?_
    rintro t _ u ⟨_, rfl⟩ ty hty
    exact ⟨fun e he => absurd hty (hn e ty he), rfl⟩

theorem yields_tail (t : TypeTable) (result ty : Ty) (tail : Option Expr) :
    (∀ e, tail = some e → (result.combine? ty).isSome) →
    Yields (match tail, some ty with
      | some tail, some ty => discard (reconcile result ty tail.locus)
      | _, _ => return () : Check Unit) t () t := by
  intro h
  cases tail with
  | none => exact yields_pure _ _
  | some e =>
    obtain ⟨both, hb⟩ := Option.isSome_iff_exists.1 (h e rfl)
    exact yields_discard (yields_reconcile t e.locus hb)

theorem meets_functionBody (h : Head) (d : FunctionDecl) :
    Meets (functionBody s h.id.ir d) (fun t _ u => Fits s t ⟨h, .function d⟩ u) := by
  refine ((meets_typeOf? h.id.ir).bind (S := fun o t _ u => ∃ r ps result ty v,
    o = some (.fn r ps result) ∧ Derives s (t.pushReturn result) (.expr d.body true ty) v ∧
    (∀ e, d.body.tail? = some e → (result.combine? ty).isSome) ∧ u = v.popReturn.2)
    fun o => ?_).mono ?_
  · split
    · rename_i r ps result
      refine ((meets_note _).bind fun _ => (meets_inFunction result (meets_expr d.body true)).bind
        fun b => meets_tail result d.body.tail? b).mono ?_
      rintro t _ u ⟨_, _, rfl, _, _, ⟨v, ⟨ty, rfl, hb⟩, rfl⟩, hs⟩
      obtain ⟨ht, rfl⟩ := hs ty rfl
      exact ⟨r, ps, result, ty, v, rfl, hb, ht, rfl⟩
    · exact meets_defect _ _
  · rintro t _ u ⟨_, _, ⟨hg, rfl⟩, r, ps, result, ty, v, rfl, hb, ht, rfl⟩
    exact .function h d hg.symm hb ht

theorem meets_initialValue (i : Item) (value : Expr) :
    Meets (initialValue s i value) (fun t _ u => ∃ declared ty both,
      t.get? i.head.id.ir = some declared ∧ Derives s t (.expr value false ty) u ∧
      declared.combine? ty = some both) := by
  refine ((meets_typeOf? i.head.id.ir).bind (S := fun o t _ u => ∃ declared ty both,
    o = some declared ∧ Derives s t (.expr value false ty) u ∧ declared.combine? ty = some both)
    fun o => ?_).mono ?_
  · cases o with
    | none => exact meets_defect _ _
    | some declared =>
      refine ((meets_expr value false).bind (S := fun o t _ u => ∀ ty, o = some ty →
        (∃ both, declared.combine? ty = some both) ∧ u = t) fun o => ?_).mono ?_
      · cases o with
        | none => exact (meets_pure ()).mono fun _ _ _ _ _ he => by cases he
        | some ty =>
          refine (meets_discard (meets_reconcile declared ty value.locus)).mono ?_
          rintro t _ u ⟨_, both, rfl, hc, rfl⟩ _ ⟨⟩
          exact ⟨⟨both, hc⟩, rfl⟩
      · rintro t _ u ⟨_, v, ⟨ty, rfl, hv⟩, hs⟩
        obtain ⟨⟨both, hc⟩, rfl⟩ := hs ty rfl
        exact ⟨declared, ty, both, rfl, hv, hc⟩
  · rintro t _ u ⟨_, _, ⟨hg, rfl⟩, declared, ty, both, rfl, hv, hc⟩
    exact ⟨declared, ty, both, hg.symm, hv, hc⟩

theorem yields_initialValue {t u : TypeTable} {i : Item} {value : Expr} {declared ty both : Ty}
    (hg : t.get? i.head.id.ir = some declared) (hv : Derives s t (.expr value false ty) u)
    (hc : declared.combine? ty = some both) : Yields (initialValue s i value) t () u := by
  refine (yields_typeOf? t i.head.id.ir).bind ?_
  rw [hg]
  exact Yields.bind hv.found (yields_discard (yields_reconcile u value.locus hc))

theorem meets_body (i : Item) : Meets (body s i) (fun t _ u => Fits s t i u) := by
  obtain ⟨h, k⟩ := i
  cases k with
  | function d => exact meets_functionBody h d
  | struct d =>
    refine (meets_pure ()).mono ?_
    rintro t _ u ⟨_, rfl⟩
    exact .struct h d
  | constant d =>
    exact (meets_initialValue ⟨h, .constant d⟩ d.value).mono
      fun t _ u ⟨_, _, _, hg, hv, hc⟩ => .constant h d hg hv hc
  | static d =>
    exact (meets_initialValue ⟨h, .static d⟩ d.value).mono
      fun t _ u ⟨_, _, _, hg, hv, hc⟩ => .static h d hg hv hc

theorem Fits.yields {t u : TypeTable} {i : Item} (hf : Fits s t i u) : Yields (body s i) t () u := by
  cases hf with
  | function h d hg hb ht =>
    refine (yields_typeOf? t h.id.ir).bind ?_
    rw [hg]
    exact (yields_note t _).bind ((yields_inFunction _ hb.found).bind (yields_tail _ _ _ _ ht))
  | struct h d => exact yields_pure _ _
  | constant h d hg hv hc => exact yields_initialValue (i := ⟨h, .constant d⟩) hg hv hc
  | static h d hg hv hc => exact yields_initialValue (i := ⟨h, .static d⟩) hg hv hc

/-! ## Programs -/

/-- Checking the program leads from tables `t` to tables `u` without a report. -/
def Passes (s : Scope) (p : Program) (t u : TypeTable) : Prop :=
  ∃ v, Chain (Signs s) t (signatureOrder p.items) v ∧ Chain (Fits s) v p.items u

/-- Struct items get their types first, then all other items, and bodies are checked last. -/
theorem program_eq (p : Program) : program s p = note (.checking p.items.length) >>= fun _ =>
    (p.items.filter Item.isStruct).forM (signature s) >>= fun _ =>
    (p.items.filter (!·.isStruct)).forM (signature s) >>= fun _ => p.items.forM (body s) := by
  unfold program signatureOrder
  simp only [List.forM_eq_forM, List.forM_append, bind_assoc]

theorem meets_program (p : Program) : Meets (program s p) (fun t _ u => Passes s p t u) := by
  refine ((meets_note _).bind fun _ => (meets_forM meets_signature _).bind fun _ =>
    meets_forM meets_body p.items).mono ?_
  rintro t _ u ⟨_, _, rfl, _, v, hs, hb⟩
  exact ⟨v, hs, hb⟩

theorem Passes.yields {p : Program} {t u : TypeTable} (h : Passes s p t u) :
    Yields (program s p) t () u := by
  obtain ⟨v, hs, hb⟩ := h
  have hs := yields_forM (f := signature s) (fun h => Signs.yields h) hs
  have hb := yields_forM (f := body s) (fun h => Fits.yields h) hb
  have hall := Yields.bind (f := fun _ => p.items.forM (body s)) hs hb
  exact Yields.bind (f := fun _ => (signatureOrder p.items).forM (signature s) >>= fun _ =>
    p.items.forM (body s)) (yields_note t (.checking p.items.length)) hall

end MiddleEnd.Check

namespace MiddleEnd.Session

theorem check_eq (s : Session) :
    s.check = match (Check.program s.scope s.program).run.run s.progress with
      | (r, q) => (r, { s with progress := q }) :=
  rfl

/-- Checking ends without a fault and leaves no diagnostics. -/
def Clean (s : Session) : Prop := s.check.1 = .ok () ∧ s.check.2.diagnostics = []

instance (s : Session) : Decidable s.Clean :=
  decidable_of_iff (s.check.1.toBool = true ∧ s.check.2.diagnostics = []) (by
    unfold Clean
    cases s.check.1 with
    | ok a => simp [Except.toBool]
    | error e => simp [Except.toBool])

/-- A check that ends without a fault and reports nothing passes the program. -/
theorem passes_of_check {s : Session} (hr : s.check.1 = .ok ())
    (hd : s.check.2.diagnostics = s.diagnostics) :
    Check.Passes s.scope s.program s.types s.check.2.types :=
  (Check.meets_program s.program).clean s.progress () s.check.2.progress (Prod.ext hr rfl) hd

/-- Where the program passes, a check reports nothing and leaves the tables of the pass. -/
theorem check_of_passes {s : Session} {u : TypeTable}
    (h : Check.Passes s.scope s.program s.types u) :
    s.check.1 = .ok () ∧ s.check.2.diagnostics = s.diagnostics ∧ s.check.2.types = u := by
  obtain ⟨q, hr, hd, hu⟩ := h.yields s.progress rfl
  have hq : s.check = (.ok (), { s with progress := q }) := by
    rw [check_eq, hr]
  rw [hq]
  exact ⟨rfl, hd, hu⟩

theorem Clean.passes {s : Session} (h : s.Clean) (hd : s.diagnostics = []) :
    Check.Passes s.scope s.program s.types s.check.2.types :=
  passes_of_check h.1 (h.2.trans hd.symm)

@[simp] theorem check_scope (s : Session) : s.check.2.scope = s.scope := rfl

@[simp] theorem check_program (s : Session) : s.check.2.program = s.program := rfl

end MiddleEnd.Session
