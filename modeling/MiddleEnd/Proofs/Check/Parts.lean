/-
  What the parts of the expression checker come to where nothing is reported: look-ups, the
  reconciliations that several forms of expression share, and annotations. Each part has one
  specification; the walk over expressions (`Derivation.lean`) only puts them together.
-/
import MiddleEnd.Proofs.Check.Judgement
import MiddleEnd.Proofs.Check.Run

namespace MiddleEnd.Check

variable {s : Scope}

/-! ## Look-ups -/

theorem meets_identifier (e : Expr) :
    Meets (identifier s e false) (Gives fun t ty u =>
      ∃ id, declaration s e = .ok id ∧ t.get? id = some ty ∧ ty.isInfer = false ∧ u = t) := by
  unfold identifier
  split
  · exact meets_reject _ _ _
  · rename_i id hd
    refine ((meets_typeOf? id).bind (S := fun r v => fun b u => ∃ ty, r = some ty ∧ b = some ty ∧
      ty.isInfer = false ∧ u = v) fun r => ?_).mono ?_
    · cases r with
      | none => exact meets_reject _ _ _
      | some ty =>
        dsimp only
        split
        · exact meets_reject _ _ _
        · rename_i hi
          refine (meets_pure (some ty)).mono ?_
          rintro t r u ⟨rfl, rfl⟩
          exact ⟨ty, rfl, rfl, by simpa using hi, rfl⟩
    · rintro t r u ⟨_, v, ⟨hr, rfl⟩, ty, rfl, rfl, hi, rfl⟩
      exact ⟨ty, rfl, id, hd, hr.symm, hi, rfl⟩

theorem yields_identifier {e : Expr} {t : TypeTable} {id : IrId} {ty : Ty}
    (hd : declaration s e = .ok id) (hg : t.get? id = some ty) (hi : ty.isInfer = false) :
    Yields (identifier s e false) t (some ty) t := by
  unfold identifier
  rw [hd]
  refine (yields_typeOf? t id).bind ?_
  rw [hg]
  simp only [hi, Bool.false_and, Bool.false_eq_true, if_false]
  exact yields_pure _ _

/-- A name that is assigned may have a type that is not settled. -/
theorem meets_identifier_target (e : Expr) :
    Meets (identifier s e true) (Gives fun t ty u =>
      ∃ id, declaration s e = .ok id ∧ t.get? id = some ty ∧ u = t) := by
  unfold identifier
  split
  · exact meets_reject _ _ _
  · rename_i id hd
    refine ((meets_typeOf? id).bind (S := fun r v => fun b u => ∃ ty, r = some ty ∧ b = some ty ∧
      u = v) fun r => ?_).mono ?_
    · cases r with
      | none => exact meets_reject _ _ _
      | some ty =>
        simp only [Bool.not_true, Bool.and_false, Bool.false_eq_true, if_false]
        refine (meets_pure (some ty)).mono ?_
        rintro t r u ⟨rfl, rfl⟩
        exact ⟨ty, rfl, rfl, rfl⟩
    · rintro t r u ⟨_, v, ⟨hr, rfl⟩, ty, rfl, rfl, rfl⟩
      exact ⟨ty, rfl, id, hd, hr.symm, rfl⟩

theorem yields_identifier_target {e : Expr} {t : TypeTable} {id : IrId} {ty : Ty}
    (hd : declaration s e = .ok id) (hg : t.get? id = some ty) :
    Yields (identifier s e true) t (some ty) t := by
  unfold identifier
  rw [hd]
  refine (yields_typeOf? t id).bind ?_
  rw [hg]
  simp only [Bool.not_true, Bool.and_false, Bool.false_eq_true, if_false]
  exact yields_pure _ _

/-- A recorded type or a report. -/
theorem meets_typeOf?_or (id : IrId) (l : Location) (p : Problem) :
    Meets (do
      match ← typeOf? id with
      | none => reject l p
      | some t => return some t) (Gives fun t ty u => t.get? id = some ty ∧ u = t) := by
  refine ((meets_typeOf? id).bind (S := fun r v => fun b u => b = r ∧ r.isSome ∧ u = v)
    fun r => ?_).mono ?_
  · cases r with
    | none => exact meets_reject _ _ _
    | some ty =>
      refine (meets_pure (some ty)).mono ?_
      rintro t r u ⟨rfl, rfl⟩
      exact ⟨rfl, rfl, rfl⟩
  · rintro t r u ⟨_, v, ⟨rfl, rfl⟩, rfl, hs, rfl⟩
    obtain ⟨ty, hty⟩ := Option.isSome_iff_exists.1 hs
    exact ⟨ty, hty, hty, rfl⟩

theorem meets_calleeType (e callee : Expr) :
    Meets (calleeType s e callee) (Gives fun t ty u => ∃ decl id,
      s.bindings.name? callee.surface = some decl ∧
      s.registry.node? ⟨e.head.id.crate, decl⟩ = some id ∧ t.get? id = some ty ∧ u = t) := by
  unfold calleeType
  split
  · exact meets_reject _ _ _
  · rename_i decl hd
    split
    · exact meets_reject _ _ _
    · rename_i id hi
      refine (meets_typeOf?_or id _ _).mono ?_
      rintro t r u ⟨ty, rfl, hg, rfl⟩
      exact ⟨ty, rfl, decl, id, hd, hi, hg, rfl⟩

theorem yields_calleeType {e callee : Expr} {t : TypeTable} {decl : SurfaceId} {id : IrId}
    {ty : Ty} (hd : s.bindings.name? callee.surface = some decl)
    (hi : s.registry.node? ⟨e.head.id.crate, decl⟩ = some id) (hg : t.get? id = some ty) :
    Yields (calleeType s e callee) t (some ty) t := by
  unfold calleeType
  simp only [hd, hi]
  refine (yields_typeOf? t id).bind ?_
  rw [hg]
  exact yields_pure _ _

theorem meets_structType (e : Expr) (path : StructPath) :
    Meets (structType s e path) (Gives fun t ty u => ∃ decl id,
      s.bindings.type? path.id.surface = some decl ∧
      s.registry.node? ⟨path.id.crate, decl⟩ = some id ∧ t.get? id = some ty ∧ u = t) := by
  unfold structType
  split
  · exact meets_reject _ _ _
  · rename_i decl hd
    split
    · exact meets_reject _ _ _
    · rename_i id hi
      refine (meets_typeOf?_or id _ _).mono ?_
      rintro t r u ⟨ty, rfl, hg, rfl⟩
      exact ⟨ty, rfl, decl, id, hd, hi, hg, rfl⟩

theorem yields_structType {e : Expr} {path : StructPath} {t : TypeTable} {decl : SurfaceId}
    {id : IrId} {ty : Ty} (hd : s.bindings.type? path.id.surface = some decl)
    (hi : s.registry.node? ⟨path.id.crate, decl⟩ = some id) (hg : t.get? id = some ty) :
    Yields (structType s e path) t (some ty) t := by
  unfold structType
  simp only [hd, hi]
  refine (yields_typeOf? t id).bind ?_
  rw [hg]
  exact yields_pure _ _

theorem meets_literal (lit : Literal) :
    Meets (literal lit) (fun t ty u => t.builtin? lit.primitive.name = some ty ∧ u = t) := by
  refine (meets_get (R := fun t₀ => fun t ty u =>
    t₀.builtin? lit.primitive.name = some ty ∧ u = t) fun p => ?_).mono fun _ _ _ h => h
  split
  · rename_i ty hb
    refine (meets_pure ty).mono ?_
    rintro t r u ⟨rfl, rfl⟩
    exact ⟨hb, rfl⟩
  · exact meets_defect _ _

theorem yields_literal {t : TypeTable} {lit : Literal} {ty : Ty}
    (h : t.builtin? lit.primitive.name = some ty) : Yields (literal lit) t ty t := by
  refine yields_get fun p hp => ?_
  rw [hp, h]
  exact yields_pure _ _

/-! ## Reconciliations -/

theorem meets_combined (l : Location) (a b : Option Ty) :
    Meets (combined l a b) (fun t r u => ∀ x y, a = some x → b = some y →
      ∃ ty, r = some ty ∧ x.combine? y = some ty ∧ u = t) := by
  unfold combined
  split
  · rename_i x y
    refine (meets_reconcile x y l).mono ?_
    rintro t r u ⟨ty, rfl, h, rfl⟩ _ _ ⟨⟩ ⟨⟩
    exact ⟨ty, rfl, h, rfl⟩
  · rename_i hn
    exact (meets_pure none).mono fun t r u _ x y hx hy => absurd hy (hn x y hx)

theorem yields_combined (t : TypeTable) (l : Location) {a b ty : Ty} (h : a.combine? b = some ty) :
    Yields (combined l (some a) (some b)) t (some ty) t :=
  yields_reconcile t l h

theorem meets_branches (expected : Ty) (a b : Option Ty) (la lb : Location) :
    Meets (branches expected a b la lb) (fun t r u => ∀ x y, a = some x → b = some y →
      ∃ both ty, r = some ty ∧ expected.combine? x = some both ∧ both.combine? y = some ty ∧
        u = t) := by
  unfold branches
  split
  · rename_i x y
    refine ((meets_reconcile expected x la).bind (S := fun r v => fun b u => ∀ both, r = some both →
      ∃ ty, b = some ty ∧ both.combine? y = some ty ∧ u = v) fun r => ?_).mono ?_
    · cases r with
      | none => exact (meets_pure none).mono fun _ _ _ _ => nofun
      | some both =>
        refine (meets_reconcile both y lb).mono ?_
        rintro t r u ⟨ty, rfl, h, rfl⟩ _ ⟨⟩
        exact ⟨ty, rfl, h, rfl⟩
    · rintro t r u ⟨_, v, ⟨both, rfl, hb, rfl⟩, h⟩ _ _ ⟨⟩ ⟨⟩
      obtain ⟨ty, rfl, hty, rfl⟩ := h both rfl
      exact ⟨both, ty, rfl, hb, hty, rfl⟩
  · rename_i hn
    exact (meets_pure none).mono fun t r u _ x y hx hy => absurd hy (hn x y hx)

theorem yields_branches (t : TypeTable) (la lb : Location) {expected a b both ty : Ty}
    (ha : expected.combine? a = some both) (hb : both.combine? b = some ty) :
    Yields (branches expected (some a) (some b) la lb) t (some ty) t :=
  (yields_reconcile t la ha).bind (yields_reconcile t lb hb)

theorem meets_checkIndex (id : IrId) (a : Option Ty) :
    Meets (checkIndex id a) (fun t _ u => ∀ x, a = some x →
      (∃ both, (Ty.int id .w32).combine? x = some both) ∧ u = t) := by
  unfold checkIndex
  split
  · exact (meets_pure ()).mono fun _ _ _ _ => nofun
  · rename_i x
    refine ((meets_combine (.int id .w32) x).bind (S := fun r v => fun _ u =>
      (∃ both, r = .ok both) ∧ u = v) fun r => ?_).mono ?_
    · cases r with
      | error m => exact meets_defect _ _
      | ok both => exact (meets_pure ()).mono fun t r u ⟨_, h⟩ => ⟨⟨both, rfl⟩, h⟩
    · rintro t r u ⟨_, v, ⟨rfl, rfl⟩, ⟨both, h⟩, rfl⟩ y hy
      cases hy
      exact ⟨⟨both, combine_eq_ok.1 h⟩, rfl⟩

theorem yields_checkIndex (t : TypeTable) {id : IrId} {a both : Ty}
    (h : (Ty.int id .w32).combine? a = some both) : Yields (checkIndex id (some a)) t () t := by
  refine (yields_combine t (.int id .w32) a).bind ?_
  rw [combine_eq_ok.2 h]
  exact yields_pure _ _

/-- The type of an element, if the indexed type has elements or is the error type. -/
inductive ElementOf : Ty → Ty → Prop
  | array (r : IrId) (element : Ty) (capacity : Nat) : ElementOf (.array r element capacity) element
  | error (r : IrId) : ElementOf (.error r) (.error r)

theorem meets_elementOf (base position : Option Ty) (l : Location) :
    Meets (elementOf base position l) (fun t r u => ∀ b p, base = some b → position = some p →
      ∃ ty, r = some ty ∧ ElementOf b ty ∧ u = t) := by
  unfold elementOf
  split
  · refine (meets_pure _).mono ?_
    rintro t r u ⟨rfl, rfl⟩ _ _ ⟨⟩ _
    exact ⟨_, rfl, .array _ _ _, rfl⟩
  · refine (meets_pure _).mono ?_
    rintro t r u ⟨rfl, rfl⟩ _ _ ⟨⟩ _
    exact ⟨_, rfl, .error _, rfl⟩
  · exact meets_fatal _ _ _
  · rename_i hn
    refine (meets_pure none).mono fun t r u _ b p hb hp => ?_
    exact absurd hb (hn p b hp)

theorem yields_elementOf (t : TypeTable) (l : Location) (p : Ty) {b ty : Ty} (h : ElementOf b ty) :
    Yields (elementOf (some b) (some p) l) t (some ty) t := by
  cases h <;> exact yields_pure _ _

theorem meets_settle (element : Ty) (ts : List (Ty × Location)) :
    Meets (settle element ts)
      (Gives fun t ty u => element.combineAll? (ts.map (·.1)) = some ty ∧ u = t) := by
  induction ts generalizing element with
  | nil =>
    refine (meets_pure (some element)).mono ?_
    rintro t r u ⟨rfl, rfl⟩
    exact ⟨element, rfl, rfl, rfl⟩
  | cons x rest ih =>
    obtain ⟨x, l⟩ := x
    refine ((meets_reconcile element x l).bind (S := fun r v => fun b u => ∀ next, r = some next →
      ∃ ty, b = some ty ∧ next.combineAll? (rest.map (·.1)) = some ty ∧ u = v) fun r => ?_).mono ?_
    · cases r with
      | none => exact (meets_pure none).mono fun _ _ _ _ => nofun
      | some next =>
        refine (ih next).mono ?_
        rintro t r u ⟨ty, rfl, h, rfl⟩ _ ⟨⟩
        exact ⟨ty, rfl, h, rfl⟩
    · rintro t r u ⟨_, v, ⟨next, rfl, hn, rfl⟩, h⟩
      obtain ⟨ty, rfl, hty, rfl⟩ := h next rfl
      exact ⟨ty, rfl, by simp [Ty.combineAll?, hn, hty], rfl⟩

theorem yields_settle (t : TypeTable) {element ty : Ty} {ts : List (Ty × Location)}
    (h : element.combineAll? (ts.map (·.1)) = some ty) : Yields (settle element ts) t (some ty) t := by
  induction ts generalizing element with
  | nil =>
    cases h
    exact yields_pure _ _
  | cons x rest ih =>
    obtain ⟨x, l⟩ := x
    obtain ⟨next, hn, h⟩ := Option.bind_eq_some_iff.1 h
    exact (yields_reconcile t l hn).bind (ih h)

theorem mapM_id_eq_some {rest : List (Option Ty)} {tys : List Ty} :
    rest.mapM id = some tys ↔ rest = tys.map some := by
  induction rest generalizing tys with
  | nil => cases tys <;> simp
  | cons r rest ih =>
    cases r with
    | none => cases tys <;> simp
    | some x =>
      rw [List.mapM_cons]
      cases hm : rest.mapM id with
      | none =>
        cases tys with
        | nil => simp
        | cons y ys =>
          have hne : rest ≠ ys.map some := fun h => by rw [ih.2 h] at hm; cases hm
          simp [hne]
      | some zs =>
        have hz : rest = zs.map some := ih.1 hm
        cases tys with
        | nil => simp
        | cons y ys =>
          have hzs : rest = ys.map some ↔ zs = ys := by
            rw [← ih, hm, Option.some_inj]
          simp [hzs]

theorem meets_arrayOf (ref : IrId) (first : Option Ty) (rest : List (Option Ty))
    (loci : List Location) :
    Meets (arrayOf ref first rest loci) (fun t r u => ∀ x tys, first = some x →
      rest = tys.map some → tys.length = loci.length →
      ∃ element, r = some (.array ref element (tys.length + 1)) ∧
        x.combineAll? tys = some element ∧ u = t) := by
  unfold arrayOf
  split
  · rename_i x tys hm
    have hr : rest = tys.map some := mapM_id_eq_some.1 hm
    refine ((meets_settle x (tys.zip loci)).bind (S := fun r v => fun b u => ∀ element,
      r = some element → b = some (.array ref element (rest.length + 1)) ∧ u = v)
      fun r => ?_).mono ?_
    · cases r with
      | none => exact (meets_pure none).mono fun _ _ _ _ => nofun
      | some element =>
        refine (meets_pure _).mono ?_
        rintro t r u ⟨rfl, rfl⟩ _ ⟨⟩
        exact ⟨rfl, rfl⟩
    · rintro t r u ⟨_, v, ⟨element, rfl, he, rfl⟩, h⟩ y ys ⟨⟩ hys hl
      obtain ⟨rfl, rfl⟩ := h element rfl
      have hy : tys = ys := Option.some_inj.1 (hm.symm.trans (mapM_id_eq_some.2 hys))
      subst hy
      rw [List.map_fst_zip (Nat.le_of_eq hl)] at he
      exact ⟨element, by simp [hr], he, rfl⟩
  · rename_i hn
    refine (meets_pure none).mono fun t r u _ x tys hx hr _ => ?_
    exact absurd (mapM_id_eq_some.2 hr) (hn x tys hx)

theorem yields_arrayOf (t : TypeTable) (ref : IrId) {x element : Ty} {tys : List Ty}
    {loci : List Location} (hl : tys.length = loci.length)
    (h : x.combineAll? tys = some element) :
    Yields (arrayOf ref (some x) (tys.map some) loci) t
      (some (.array ref element (tys.length + 1))) t := by
  have hm : (tys.map some).mapM id = some tys := mapM_id_eq_some.2 rfl
  have hz : (tys.zip loci).map (·.1) = tys := by
    rw [List.map_fst_zip]
    exact Nat.le_of_eq hl
  unfold arrayOf
  rw [hm]
  refine (yields_settle t (by rw [hz]; exact h)).bind ?_
  simpa using yields_pure t (some (Ty.array ref element (tys.length + 1)))

/-! ## Struct literals -/

theorem meets_missingFields (l : Location) (struct : String) (given : List String)
    (decls : Members) :
    Meets (missingFields l struct given decls) (fun t b u =>
      b = true ∧ (∀ n ∈ decls.names, n ∈ given) ∧ u = t) := by
  match decls with
  | .nil =>
    refine (meets_pure true).mono ?_
    rintro t b u ⟨rfl, rfl⟩
    exact ⟨rfl, nofun, rfl⟩
  | .cons name type rest =>
    have ih := meets_missingFields l struct given rest
    unfold missingFields
    split
    · rename_i hc
      refine ih.mono ?_
      rintro t b u ⟨rfl, h, rfl⟩
      refine ⟨rfl, fun n hn => ?_, rfl⟩
      rcases List.mem_cons.1 hn with rfl | hn
      · simpa using hc
      · exact h n hn
    · refine ((meets_report l _ fun _ _ _ => False).bind fun _ =>
        (meets_discard ih).bind fun _ => meets_pure false).mono ?_
      rintro t b u ⟨_, _, h, _⟩
      exact h.elim

theorem yields_missingFields (t : TypeTable) (l : Location) (struct : String)
    {given : List String} {decls : Members} (h : ∀ n ∈ decls.names, n ∈ given) :
    Yields (missingFields l struct given decls) t true t := by
  match decls with
  | .nil => exact yields_pure _ _
  | .cons name type rest =>
    have hc : given.contains name = true := by
      simpa using h name (List.mem_cons_self ..)
    unfold missingFields
    rw [if_pos hc]
    exact yields_missingFields t l struct fun n hn => h n (List.mem_cons_of_mem _ hn)

theorem meets_fieldInit (h : Head) (declared : Option Ty) (p : Problem) (value : Option Ty) :
    Meets (fieldInit h declared p value) (fun t b u => ∀ vt, value = some vt →
      ∃ dt ty, b = true ∧ declared = some dt ∧ dt.combine? vt = some ty ∧
        u = t.record h.id.ir ty) := by
  unfold fieldInit
  split
  · refine ((meets_report _ _ fun _ _ _ => False).bind fun _ => meets_pure false).mono ?_
    rintro t b u ⟨_, _, h, _⟩
    exact h.elim
  · exact (meets_pure false).mono fun _ _ _ _ => nofun
  · rename_i dt vt
    refine ((meets_recording h.id.ir (meets_reconcile dt vt h.locus)).bind fun r =>
      meets_pure r.isSome).mono ?_
    rintro t b u ⟨_, v, ⟨ty, rfl, w, ⟨hc, rfl⟩, rfl⟩, rfl, rfl⟩ _ ⟨⟩
    exact ⟨dt, ty, rfl, rfl, hc, rfl⟩

theorem yields_fieldInit (t : TypeTable) (h : Head) (p : Problem) {dt vt ty : Ty}
    (hc : dt.combine? vt = some ty) :
    Yields (fieldInit h (some dt) p (some vt)) t true (t.record h.id.ir ty) :=
  (yields_recording h.id.ir (yields_reconcile t h.locus hc)).bind (yields_pure _ _)

/-! ## Assignments -/

theorem meets_settleDeclaration (target : Expr) (before after : Ty) :
    Meets (settleDeclaration s target before after)
      (fun t _ u => u = settled s t target before after) := by
  unfold settleDeclaration settled
  split
  · cases declaration s target with
    | ok id => exact meets_record id after
    | error p => exact (meets_pure ()).mono fun _ _ _ h => h.2
  · exact (meets_pure ()).mono fun _ _ _ h => h.2

theorem yields_settleDeclaration (t : TypeTable) (target : Expr) (before after : Ty) :
    Yields (settleDeclaration s target before after) t () (settled s t target before after) := by
  unfold settleDeclaration settled
  split
  · cases declaration s target with
    | ok id => exact yields_record t id after
    | error p => exact yields_pure t ()
  · exact yields_pure t ()

theorem meets_assigned (h : Head) (target : Expr) (targetType valueType : Option Ty) :
    Meets (assigned s h target targetType valueType) (fun t r u => ∀ tt vt,
      targetType = some tt → valueType = some vt → ∃ ty, r = some ty ∧ tt.combine? vt = some ty ∧
        u = settled s (t.record target.ir ty) target tt ty) := by
  unfold assigned
  split
  · rename_i tt vt
    refine ((meets_recording target.ir (meets_reconcile tt vt h.locus)).bind (S := fun r v =>
      fun b u => ∀ ty, r = some ty → b = some ty ∧ u = settled s v target tt ty) fun r => ?_).mono ?_
    · cases r with
      | none => exact (meets_pure none).mono fun _ _ _ _ => nofun
      | some ty =>
        refine ((meets_settleDeclaration target tt ty).bind fun _ => meets_pure (some ty)).mono ?_
        rintro t r u ⟨_, v, rfl, rfl, rfl⟩ _ ⟨⟩
        exact ⟨rfl, rfl⟩
    · rintro t r u ⟨_, v, ⟨ty, rfl, w, ⟨hc, rfl⟩, rfl⟩, h⟩ _ _ ⟨⟩ ⟨⟩
      obtain ⟨rfl, rfl⟩ := h ty rfl
      exact ⟨ty, rfl, hc, rfl⟩
  · rename_i hn
    exact (meets_pure none).mono fun t r u _ x y hx hy => absurd hy (hn x y hx)

theorem yields_assigned (t : TypeTable) (h : Head) (target : Expr) {tt vt ty : Ty}
    (hc : tt.combine? vt = some ty) :
    Yields (assigned s h target (some tt) (some vt)) t (some ty)
      (settled s (t.record target.ir ty) target tt ty) :=
  (yields_recording target.ir (yields_reconcile t h.locus hc)).bind
    ((yields_settleDeclaration _ target tt ty).bind (yields_pure _ _))

/-! ## Annotations and statements -/

theorem meets_letType_none (id : IrId) (annotated : Option Ty) :
    Meets (letType id annotated none) (fun t ty u => ty = annotated.getD (.infer id) ∧ u = t) := by
  cases annotated with
  | none => exact meets_pure _
  | some a => exact meets_pure _

theorem yields_letType_none (t : TypeTable) (id : IrId) (annotated : Option Ty) :
    Yields (letType id annotated none) t (annotated.getD (.infer id)) t := by
  cases annotated with
  | none => exact yields_pure _ _
  | some a => exact yields_pure _ _

theorem meets_letType (id : IrId) (annotated v : Option Ty) (l : Location) :
    Meets (letType id annotated (some (v, l))) (fun t ty u => ∀ vt, v = some vt →
      boundType? annotated vt = some ty ∧ u = t) := by
  cases v with
  | none => cases annotated <;> exact (meets_pure _).mono fun _ _ _ _ => nofun
  | some v =>
    cases annotated with
    | none =>
      refine (meets_pure v).mono ?_
      rintro t r u ⟨rfl, rfl⟩ _ ⟨⟩
      exact ⟨rfl, rfl⟩
    | some a =>
      refine ((meets_reconcile a v l).bind (S := fun r v => fun b u => ∀ ty, r = some ty →
        b = ty ∧ u = v) fun r => ?_).mono ?_
      · cases r with
        | none => exact (meets_pure a).mono fun _ _ _ _ => nofun
        | some ty =>
          refine (meets_pure ty).mono ?_
          rintro t r u h _ ⟨⟩
          exact h
      · rintro t r u ⟨_, w, ⟨ty, rfl, hc, rfl⟩, h⟩ _ ⟨⟩
        obtain ⟨rfl, rfl⟩ := h ty rfl
        exact ⟨hc, rfl⟩

theorem yields_letType (t : TypeTable) (id : IrId) (l : Location) {annotated : Option Ty}
    {v ty : Ty} (h : boundType? annotated v = some ty) :
    Yields (letType id annotated (some (some v, l))) t ty t := by
  cases annotated with
  | none => cases h; exact yields_pure _ _
  | some a => exact (yields_reconcile t l h).bind (yields_pure _ _)

theorem meets_typeExpr (a : TypeExpr) :
    Meets (typeExpr s a) (fun t ty u => Annotates s t a ty u) := by
  induction a with
  | unit h =>
    refine ((meets_record _ _).bind fun _ => meets_pure _).mono ?_
    rintro t ty u ⟨_, v, rfl, rfl, rfl⟩
    exact .unit h
  | array h element capacity ih =>
    refine (ih.bind fun x => (meets_record _ _).bind fun _ => meets_pure _).mono ?_
    rintro t ty u ⟨x, v, hx, _, w, rfl, rfl, rfl⟩
    exact .array h capacity hx
  | path h name =>
    refine (meets_get (R := fun t₀ => fun t ty u => pathType? s t₀ h = some ty ∧
      u = t.record h.id.ir ty) fun p => ?_).mono ?_
    · split
      · rename_i ty hp
        refine ((meets_record _ _).bind fun _ => meets_pure ty).mono ?_
        rintro t r u ⟨_, v, rfl, rfl, rfl⟩
        exact ⟨hp, rfl⟩
      · refine ((meets_report _ _ fun _ _ _ => False).bind fun _ =>
          (meets_record _ _).bind fun _ => meets_pure _).mono ?_
        rintro t r u ⟨_, _, h, _⟩
        exact h.elim
    · rintro t ty u ⟨hp, rfl⟩
      exact .path h name hp

theorem yields_typeExpr {t u : TypeTable} {a : TypeExpr} {ty : Ty} (h : Annotates s t a ty u) :
    Yields (typeExpr s a) t ty u := by
  induction h with
  | unit h => exact (yields_record _ _ _).bind (yields_pure _ _)
  | array h capacity _ ih => exact ih.bind ((yields_record _ _ _).bind (yields_pure _ _))
  | path h name hp =>
    refine yields_get fun p hpt => ?_
    rw [hpt, hp]
    exact (yields_record _ _ _).bind (yields_pure _ _)

theorem meets_typeExpr? (a : Option TypeExpr) :
    Meets (typeExpr? s a) (fun t ty u => Annotates? s t a ty u) := by
  cases a with
  | none =>
    refine (meets_pure none).mono ?_
    rintro t r u ⟨rfl, rfl⟩
    exact .none u
  | some a =>
    refine ((meets_typeExpr a).bind fun ty => meets_pure (some ty)).mono ?_
    rintro t r u ⟨ty, v, h, rfl, rfl⟩
    exact .some h

theorem yields_typeExpr? {t u : TypeTable} {a : Option TypeExpr} {ty : Option Ty}
    (h : Annotates? s t a ty u) : Yields (typeExpr? s a) t ty u := by
  cases h with
  | none => exact yields_pure _ _
  | some h => exact (yields_typeExpr h).bind (yields_pure _ _)

end MiddleEnd.Check
