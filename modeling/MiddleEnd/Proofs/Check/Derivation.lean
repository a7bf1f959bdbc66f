/-
  Checks without diagnostics are derivations: where a check of an expression or statement ends
  without a fault and reports nothing, the typing rules derive what it found (`meets_expr` and its
  companions), and whatever the rules derive the checker finds without a report
  (`Derives.yields`).

  The first half is by recursion over the syntax, along the recursion of the checker; the second by
  induction on the derivation.
-/
import MiddleEnd.Proofs.Check.Parts

namespace MiddleEnd.Check

variable {s : Scope}

/-- An assignment to anything but a name checks its target like any expression. -/
theorem expr_assign {h : Head} {target value : Expr} {final : Bool}
    (hn : ∀ g name, target ≠ .identifier g name) :
    expr s (.assign h target value) final = recording h.id.ir (do
      let targetType ← expr s target false
      let valueType ← expr s value false
      assigned s h target targetType valueType) := by
  cases target with
  | identifier g name => exact absurd rfl (hn g name)
  | _ => rfl

/-- A call with arguments `args` of something of the given type has type `ty`. -/
inductive Called (s : Scope) (args : List Expr) (t : TypeTable) : Ty → Ty → TypeTable → Prop
  | fn {r : IrId} {params : Members} {result : Ty} {u : TypeTable} :
    params.length = args.length → Derives s t (.arguments params args) u →
    Called s args t (.fn r params result) result u
  | error {r : IrId} {tys : List Ty} {u : TypeTable} :
    Derives s t (.exprs args tys) u → Called s args t (.error r) (.error r) u

theorem Derives.length_eq {t u : TypeTable} {es : List Expr} {tys : List Ty}
    (h : Derives s t (.exprs es tys) u) : tys.length = es.length := by
  induction es generalizing t tys with
  | nil => cases h; rfl
  | cons e es ih => cases h with | exprsCons _ _ _ h => rw [List.length_cons, List.length_cons, ih h]

mutual

theorem meets_expr : ∀ (e : Expr) (final : Bool),
    Meets (expr s e final) (Gives fun t ty u => Derives s t (.expr e final ty) u)
  | .literal h lit, final => by
    rw [expr]
    refine (meets_recording (T := fun t ty u => t.builtin? lit.primitive.name = some ty ∧ u = t)
      h.id.ir (((meets_literal lit).bind fun ty => meets_pure (some ty)).mono ?_)).mono ?_
    · rintro t r u ⟨ty, v, hb, rfl, rfl⟩
      exact ⟨ty, rfl, hb⟩
    · rintro t r u ⟨ty, rfl, v, ⟨hb, rfl⟩, rfl⟩
      exact ⟨ty, rfl, .literal h lit final hb⟩
  | .identifier h name, final => by
    rw [expr]
    refine (meets_recording h.id.ir (meets_identifier _)).mono ?_
    rintro t r u ⟨ty, rfl, v, ⟨id, hd, hg, hi, rfl⟩, rfl⟩
    exact ⟨ty, rfl, .identifier h name final hd hg hi⟩
  | .ret h none, final => by
    rw [expr]
    refine (meets_recording (T := fun t ty u => ∃ result, t.return? = some result ∧
      result.combine? (.unit h.id.ir) = some ty ∧ u = t) h.id.ir
      ((meets_return?.bind (S := fun r t b u => ∃ result ty, r = some result ∧ b = some ty ∧
        result.combine? (.unit h.id.ir) = some ty ∧ u = t) fun r => ?_).mono ?_)).mono ?_
    · cases r with
      | none => exact meets_defect _ _
      | some result =>
        refine (meets_reconcile result (.unit h.id.ir) h.locus).mono ?_
        rintro t r u ⟨ty, rfl, hc, rfl⟩
        exact ⟨result, ty, rfl, rfl, hc, rfl⟩
    · rintro t r u ⟨_, v, ⟨rfl, rfl⟩, result, ty, hr, rfl, hc, rfl⟩
      exact ⟨ty, rfl, result, hr, hc, rfl⟩
    · rintro t r u ⟨ty, rfl, v, ⟨result, hr, hc, rfl⟩, rfl⟩
      exact ⟨ty, rfl, .retUnit h final hr hc⟩
  | .ret h (some value), final => by
    rw [expr]
    refine (meets_recording (T := fun t ty u => ∃ result vt, t.return? = some result ∧
      Derives s t (.expr value false vt) u ∧ result.combine? vt = some ty) h.id.ir
      ((meets_return?.bind (S := fun r t b u => ∃ result vt ty, r = some result ∧ b = some ty ∧
        Derives s t (.expr value false vt) u ∧ result.combine? vt = some ty) fun r => ?_).mono
          ?_)).mono ?_
    · cases r with
      | none => exact meets_defect _ _
      | some result =>
        refine ((meets_expr value false).bind (S := fun r t b u => ∀ vt, r = some vt → ∃ ty,
          b = some ty ∧ result.combine? vt = some ty ∧ u = t) fun r => ?_).mono ?_
        · cases r with
          | none => exact (meets_pure none).mono fun _ _ _ _ => nofun
          | some vt =>
            refine (meets_reconcile result vt h.locus).mono ?_
            rintro t r u ⟨ty, rfl, hc, rfl⟩ _ ⟨⟩
            exact ⟨ty, rfl, hc, rfl⟩
        · rintro t r u ⟨_, v, ⟨vt, rfl, hv⟩, hs⟩
          obtain ⟨ty, rfl, hc, rfl⟩ := hs vt rfl
          exact ⟨result, vt, ty, rfl, rfl, hv, hc⟩
    · rintro t r u ⟨_, v, ⟨rfl, rfl⟩, result, vt, ty, hr, rfl, hv, hc⟩
      exact ⟨ty, rfl, result, vt, hr, hv, hc⟩
    · rintro t r u ⟨ty, rfl, v, ⟨result, vt, hr, hv, hc⟩, rfl⟩
      exact ⟨ty, rfl, .ret h value final hr hv hc⟩
  | .call h callee args, final => by
    rw [expr]
    refine (meets_recording (T := fun t ty u => ∃ decl id ct,
      s.bindings.name? callee.surface = some decl ∧
      s.registry.node? ⟨h.id.crate, decl⟩ = some id ∧ t.get? id = some ct ∧
      Called s args t ct ty u) h.id.ir
      (((meets_calleeType (.call h callee args) callee).bind (S := fun r t b u => ∀ ct,
        r = some ct → ∃ ty, b = some ty ∧ Called s args t ct ty u) fun r => ?_).mono ?_)).mono ?_
    · cases r with
      | none => exact (meets_pure none).mono fun _ _ _ _ => nofun
      | some ct =>
        cases ct with
        | error r =>
          refine ((meets_discard (meets_exprs args)).bind fun _ => meets_pure _).mono ?_
          rintro t b u ⟨_, v, ⟨_, tys, rfl, ha⟩, rfl, rfl⟩ _ ⟨⟩
          exact ⟨_, rfl, .error ha⟩
        | fn r params result =>
          dsimp only
          split
          · exact meets_reject _ _ _
          · rename_i hl
            refine ((meets_arguments params args).bind fun _ => meets_pure _).mono ?_
            rintro t b u ⟨_, v, ha, rfl, rfl⟩ _ ⟨⟩
            have hl := Decidable.not_not.1 hl
            obtain ⟨rfl, hd⟩ := ha hl
            exact ⟨result, rfl, .fn hl hd⟩
        | _ => exact meets_reject _ _ _
    · rintro t r u ⟨_, v, ⟨ct, rfl, decl, id, hd, hi, hg, rfl⟩, hs⟩
      obtain ⟨ty, rfl, hc⟩ := hs ct rfl
      exact ⟨ty, rfl, decl, id, ct, hd, hi, hg, hc⟩
    · rintro t r u ⟨ty, rfl, v, ⟨decl, id, ct, hd, hi, hg, hc⟩, rfl⟩
      cases hc with
      | fn hl ha => exact ⟨_, rfl, .call h callee args final hd hi hg hl ha⟩
      | error ha => exact ⟨_, rfl, .callError h callee args final hd hi hg ha⟩
  | .assign h target value, final => by
    by_cases hn : ∀ g name, target ≠ .identifier g name
    · rw [expr_assign hn]
      refine (meets_recording (T := fun t ty u => ∃ tt vt v w, Derives s t (.expr target false tt) v ∧
        Derives s v (.expr value false vt) w ∧ tt.combine? vt = some ty ∧
        u = settled s (w.record target.ir ty) target tt ty) h.id.ir
        (((meets_expr target false).bind fun r => (meets_expr value false).bind fun v =>
          meets_assigned h _ r v).mono ?_)).mono ?_
      · rintro t r u ⟨_, v, ⟨tt, rfl, ht⟩, _, w, ⟨vt, rfl, hv⟩, ha⟩
        obtain ⟨ty, rfl, hc, rfl⟩ := ha tt vt rfl rfl
        exact ⟨ty, rfl, tt, vt, v, w, ht, hv, hc, rfl⟩
      · rintro t r u ⟨ty, rfl, _, ⟨tt, vt, v, w, ht, hv, hc, rfl⟩, rfl⟩
        exact ⟨ty, rfl, .assign h target value final hn ht hv hc⟩
    · obtain ⟨g, name, rfl⟩ : ∃ g name, target = .identifier g name := by simpa using hn
      rw [expr]
      refine (meets_recording (T := fun t ty u => ∃ id tt vt v, declaration s (.identifier g name) =
        .ok id ∧ t.get? id = some tt ∧ Derives s (t.record g.id.ir tt) (.expr value false vt) v ∧
        tt.combine? vt = some ty ∧ u = settled s (v.record g.id.ir ty) (.identifier g name) tt ty)
        h.id.ir (((meets_recording g.id.ir (meets_identifier_target _)).bind fun r =>
          (meets_expr value false).bind fun v => meets_assigned h _ r v).mono ?_)).mono ?_
      · rintro t r u ⟨_, _, ⟨tt, rfl, v, ⟨id, hd, hg, rfl⟩, rfl⟩, _, w, ⟨vt, rfl, hv⟩, ha⟩
        obtain ⟨ty, rfl, hc, rfl⟩ := ha tt vt rfl rfl
        exact ⟨ty, rfl, id, tt, vt, w, hd, hg, hv, hc, rfl⟩
      · rintro t r u ⟨ty, rfl, _, ⟨id, tt, vt, w, hd, hg, hv, hc, rfl⟩, rfl⟩
        exact ⟨ty, rfl, .assignName h g name value final hd hg hv hc⟩
  | .binary h op lhs rhs, final => by
    rw [expr]
    refine (meets_recording (T := fun t ty u => ∃ lt rt v, Derives s t (.expr lhs false lt) v ∧
      Derives s v (.expr rhs false rt) u ∧ lt.combine? rt = some ty) h.id.ir
      (((meets_expr lhs false).bind fun l => (meets_expr rhs false).bind fun r =>
        meets_combined h.locus l r).mono ?_)).mono ?_
    · rintro t r u ⟨_, v, ⟨lt, rfl, hl⟩, _, w, ⟨rt, rfl, hr⟩, hc⟩
      obtain ⟨ty, rfl, hty, rfl⟩ := hc lt rt rfl rfl
      exact ⟨ty, rfl, lt, rt, v, hl, hr, hty⟩
    · rintro t r u ⟨ty, rfl, v, ⟨lt, rt, w, hl, hr, hc⟩, rfl⟩
      exact ⟨ty, rfl, .binary h op lhs rhs final hl hr hc⟩
  | .ifOnly h condition body, final => by
    rw [expr]
    refine (meets_recording (T := fun t ty u => ty = .unit h.id.ir ∧ ∃ ct bt v,
      Derives s t (.expr condition false ct) v ∧ Derives s v (.expr body false bt) u) h.id.ir
      (((meets_discard (meets_expr condition false)).bind fun _ =>
        (meets_discard (meets_expr body false)).bind fun _ => meets_pure _).mono ?_)).mono ?_
    · rintro t r u ⟨_, v, ⟨_, ct, rfl, hc⟩, _, w, ⟨_, bt, rfl, hb⟩, rfl, rfl⟩
      exact ⟨_, rfl, rfl, ct, bt, v, hc, hb⟩
    · rintro t r u ⟨_, rfl, v, ⟨rfl, ct, bt, w, hc, hb⟩, rfl⟩
      exact ⟨_, rfl, .ifOnly h condition body final hc hb⟩
  | .ifElse h condition thenBody elseBody, false => by
    rw [expr]
    refine (meets_recording (T := fun t ty u => ty = .unit h.id.ir ∧ ∃ ct tt et v w,
      Derives s t (.expr condition false ct) v ∧ Derives s v (.expr thenBody false tt) w ∧
      Derives s w (.expr elseBody false et) u) h.id.ir
      (((meets_discard (meets_expr condition false)).bind fun _ =>
        (meets_discard (meets_expr thenBody false)).bind fun _ =>
        (meets_discard (meets_expr elseBody false)).bind fun _ => meets_pure _).mono ?_)).mono ?_
    · rintro t r u ⟨_, v, ⟨_, ct, rfl, hc⟩, _, w, ⟨_, tt, rfl, ht⟩, _, x, ⟨_, et, rfl, he⟩, rfl, rfl⟩
      exact ⟨_, rfl, rfl, ct, tt, et, v, w, hc, ht, he⟩
    · rintro t r u ⟨_, rfl, v, ⟨rfl, ct, tt, et, w, x, hc, ht, he⟩, rfl⟩
      exact ⟨_, rfl, .ifElse h condition thenBody elseBody hc ht he⟩
  | .ifElse h condition thenBody elseBody, true => by
    rw [expr]
    refine (meets_recording (T := fun t ty u => ∃ expected ct tt et both v w,
      t.return? = some expected ∧ Derives s t (.expr condition false ct) v ∧
      Derives s v (.expr thenBody true tt) w ∧ Derives s w (.expr elseBody true et) u ∧
      expected.combine? tt = some both ∧ both.combine? et = some ty) h.id.ir
      ((meets_return?.bind (S := fun r t b u => ∃ expected ct tt et both ty v w,
        r = some expected ∧ b = some ty ∧ Derives s t (.expr condition false ct) v ∧
        Derives s v (.expr thenBody true tt) w ∧ Derives s w (.expr elseBody true et) u ∧
        expected.combine? tt = some both ∧ both.combine? et = some ty) fun r => ?_).mono ?_)).mono ?_
    · cases r with
      | none => exact meets_defect _ _
      | some expected =>
        refine ((meets_discard (meets_expr condition false)).bind fun _ =>
          (meets_expr thenBody true).bind fun a => (meets_expr elseBody true).bind fun b =>
          meets_branches expected a b thenBody.locus elseBody.locus).mono ?_
        rintro t r u ⟨_, v, ⟨_, ct, rfl, hc⟩, _, w, ⟨tt, rfl, ht⟩, _, x, ⟨et, rfl, he⟩, hs⟩
        obtain ⟨both, ty, rfl, hb, hty, rfl⟩ := hs tt et rfl rfl
        exact ⟨expected, ct, tt, et, both, ty, v, w, rfl, rfl, hc, ht, he, hb, hty⟩
    · rintro t r u ⟨_, _, ⟨rfl, rfl⟩, expected, ct, tt, et, both, ty, v, w, hr, rfl, hs⟩
      exact ⟨ty, rfl, expected, ct, tt, et, both, v, w, hr, hs⟩
    · rintro t r u ⟨ty, rfl, _, ⟨expected, ct, tt, et, both, v, w, hr, hc, ht, he, hb, hty⟩, rfl⟩
      exact ⟨ty, rfl, .ifElseFinal h condition thenBody elseBody hr hc ht he hb hty⟩
  | .ifElseIf h condition thenBody elseIf, final => by
    rw [expr]
    refine (meets_recording (T := fun t ty u => ty = .unit h.id.ir ∧ ∃ ct tt et v w,
      Derives s t (.expr condition false ct) v ∧ Derives s v (.expr thenBody false tt) w ∧
      Derives s w (.expr elseIf false et) u) h.id.ir
      (((meets_discard (meets_expr condition false)).bind fun _ =>
        (meets_discard (meets_expr thenBody false)).bind fun _ =>
        (meets_discard (meets_expr elseIf false)).bind fun _ => meets_pure _).mono ?_)).mono ?_
    · rintro t r u ⟨_, v, ⟨_, ct, rfl, hc⟩, _, w, ⟨_, tt, rfl, ht⟩, _, x, ⟨_, et, rfl, he⟩, rfl, rfl⟩
      exact ⟨_, rfl, rfl, ct, tt, et, v, w, hc, ht, he⟩
    · rintro t r u ⟨_, rfl, v, ⟨rfl, ct, tt, et, w, x, hc, ht, he⟩, rfl⟩
      exact ⟨_, rfl, .ifElseIf h condition thenBody elseIf final hc ht he⟩
  | .block h body none, final => by
    rw [expr]
    refine (meets_recording (T := fun t ty u => ty = .unit h.id.ir ∧ Derives s t (.stmts body) u)
      h.id.ir (((meets_stmts body).bind fun _ => meets_pure _).mono ?_)).mono ?_
    · rintro t r u ⟨_, v, hb, rfl, rfl⟩
      exact ⟨_, rfl, rfl, hb⟩
    · rintro t r u ⟨_, rfl, v, ⟨rfl, hb⟩, rfl⟩
      exact ⟨_, rfl, .blockUnit h body final hb⟩
  | .block h body (some tail), final => by
    rw [expr]
    refine (meets_recording (T := fun t ty u => ∃ v, Derives s t (.stmts body) v ∧
      Derives s v (.expr tail final ty) u) h.id.ir
      (((meets_stmts body).bind fun _ => meets_expr tail final).mono ?_)).mono ?_
    · rintro t r u ⟨_, v, hb, ty, rfl, ht⟩
      exact ⟨ty, rfl, v, hb, ht⟩
    · rintro t r u ⟨ty, rfl, _, ⟨v, hb, ht⟩, rfl⟩
      exact ⟨ty, rfl, .block h body tail final hb ht⟩
  | .index h base position, final => by
    rw [expr]
    refine (meets_recording (T := fun t ty u => ∃ pt both bt v,
      Derives s t (.expr position false pt) v ∧ (Ty.int position.ir .w32).combine? pt = some both ∧
      Derives s v (.expr base false bt) u ∧ ElementOf bt ty) h.id.ir
      (((meets_expr position false).bind fun p => (meets_checkIndex position.ir p).bind fun _ =>
        (meets_expr base false).bind fun b => meets_elementOf b p base.locus).mono ?_)).mono ?_
    · rintro t r u ⟨_, v, ⟨pt, rfl, hp⟩, _, w, hci, _, x, ⟨bt, rfl, hb⟩, heo⟩
      obtain ⟨⟨both, hi⟩, rfl⟩ := hci pt rfl
      obtain ⟨ty, rfl, he, rfl⟩ := heo bt pt rfl rfl
      exact ⟨ty, rfl, pt, both, bt, w, hp, hi, hb, he⟩
    · rintro t r u ⟨ty, rfl, _, ⟨pt, both, bt, v, hp, hi, hb, he⟩, rfl⟩
      cases he with
      | array => exact ⟨_, rfl, .index h base position final hp hi hb⟩
      | error => exact ⟨_, rfl, .indexError h base position final hp hi hb⟩
  | .array h [], final => by
    rw [expr]
    refine (meets_recording (T := fun _ _ _ => False) h.id.ir (meets_reject _ _ _)).mono ?_
    rintro t r u ⟨_, _, _, h, _⟩
    exact h.elim
  | .array h (first :: rest), final => by
    rw [expr]
    refine (meets_recording (T := fun t ty u => ∃ ft element tys v, ty =
      .array h.id.ir element (tys.length + 1) ∧ Derives s t (.expr first false ft) v ∧
      Derives s v (.exprs rest tys) u ∧ ft.combineAll? tys = some element) h.id.ir
      (((meets_expr first false).bind fun f => (meets_exprs rest).bind fun rs =>
        meets_arrayOf h.id.ir f rs (rest.map Expr.locus)).mono ?_)).mono ?_
    · rintro t r u ⟨_, v, ⟨ft, rfl, hf⟩, _, w, ⟨tys, rfl, hr⟩, ha⟩
      obtain ⟨element, rfl, he, rfl⟩ := ha ft tys rfl rfl (by rw [hr.length_eq, List.length_map])
      exact ⟨_, rfl, ft, element, tys, v, rfl, hf, hr, he⟩
    · rintro t r u ⟨_, rfl, _, ⟨ft, element, tys, v, rfl, hf, hr, he⟩, rfl⟩
      rw [hr.length_eq]
      exact ⟨_, rfl, .array h first rest final hf hr he⟩
  | .copies h element count, final => by
    rw [expr]
    refine (meets_recording (T := fun t ty u => ∃ et, ty = .array h.id.ir et count.toNat ∧
      Derives s t (.expr element false et) u) h.id.ir
      (((meets_expr element false).bind (S := fun r t b u => ∀ et, r = some et →
        b = some (.array h.id.ir et count.toNat) ∧ u = t) fun r => ?_).mono ?_)).mono ?_
    · cases r with
      | none => exact (meets_pure none).mono fun _ _ _ _ => nofun
      | some et =>
        refine (meets_pure _).mono ?_
        rintro t r u h _ ⟨⟩
        exact h
    · rintro t r u ⟨_, v, ⟨et, rfl, he⟩, hs⟩
      obtain ⟨rfl, rfl⟩ := hs et rfl
      exact ⟨_, rfl, et, rfl, he⟩
    · rintro t r u ⟨_, rfl, _, ⟨et, rfl, he⟩, rfl⟩
      exact ⟨_, rfl, .copies h element count final he⟩
  | .struct h path fields, final => by
    rw [expr]
    refine (meets_recording (T := fun t ty u => ∃ decl id r name decls,
      s.bindings.type? path.id.surface = some decl ∧
      s.registry.node? ⟨path.id.crate, decl⟩ = some id ∧ ty = .struct r name decls ∧
      t.get? id = some ty ∧ Derives s t (.fields decls fields) u ∧
      ∀ n ∈ decls.names, n ∈ fields.map FieldInit.name) h.id.ir
      (((meets_structType (.struct h path fields) path).bind (S := fun r t b u => ∀ ct,
        r = some ct → b = some ct ∧ ∃ r name decls, ct = .struct r name decls ∧
        Derives s t (.fields decls fields) u ∧ ∀ n ∈ decls.names, n ∈ fields.map FieldInit.name)
        fun r => ?_).mono ?_)).mono ?_
    · cases r with
      | none => exact (meets_pure none).mono fun _ _ _ _ => nofun
      | some ct =>
        cases ct with
        | struct r name decls =>
          refine ((meets_fieldInits name decls fields).bind fun ok =>
            (meets_missingFields h.locus name (fields.map FieldInit.name) decls).bind fun full =>
            meets_pure _).mono ?_
          rintro t b u ⟨_, v, ⟨rfl, hf⟩, _, w, ⟨rfl, hm, rfl⟩, rfl, rfl⟩ _ ⟨⟩
          exact ⟨rfl, r, name, decls, rfl, hf, hm⟩
        | _ => exact meets_reject _ _ _
    · rintro t r u ⟨_, v, ⟨ct, rfl, decl, id, hd, hi, hg, rfl⟩, hs⟩
      obtain ⟨rfl, r, name, decls, rfl, hf, hm⟩ := hs ct rfl
      exact ⟨_, rfl, decl, id, r, name, decls, hd, hi, rfl, hg, hf, hm⟩
    · rintro t r u ⟨_, rfl, v, ⟨decl, id, r, name, decls, hd, hi, rfl, hg, hf, hm⟩, rfl⟩
      exact ⟨_, rfl, .struct h path fields final hd hi hg hf hm⟩

theorem meets_exprs : ∀ es : List Expr,
    Meets (exprs s es) (fun t r u => ∃ tys, r = tys.map some ∧ Derives s t (.exprs es tys) u)
  | [] => by
    rw [exprs]
    refine (meets_pure []).mono ?_
    rintro t r u ⟨rfl, rfl⟩
    exact ⟨[], rfl, .exprsNil u⟩
  | e :: rest => by
    rw [exprs]
    refine ((meets_expr e false).bind fun x => (meets_exprs rest).bind fun xs =>
      meets_pure (x :: xs)).mono ?_
    rintro t r u ⟨_, v, ⟨ty, rfl, he⟩, _, w, ⟨tys, rfl, hr⟩, rfl, rfl⟩
    exact ⟨ty :: tys, rfl, .exprsCons e rest he hr⟩

theorem meets_arguments : ∀ (params : Members) (es : List Expr),
    Meets (arguments s params es) (fun t b u => params.length = es.length →
      b = true ∧ Derives s t (.arguments params es) u)
  | .nil, [] => by
    rw [arguments]
    · refine (meets_pure true).mono ?_
      rintro t b u ⟨rfl, rfl⟩ _
      exact ⟨rfl, .argumentsNil u⟩
    · nofun
  | .nil, _ :: _ => by
    rw [arguments]
    · exact (meets_pure true).mono fun _ _ _ _ => nofun
    · nofun
  | .cons .., [] => by
    rw [arguments]
    · exact (meets_pure true).mono fun _ _ _ _ => nofun
    · nofun
  | .cons name param params, e :: rest => by
    rw [arguments]
    refine ((meets_expr e false).bind fun x => (meets_fits param x e.locus).bind fun ok =>
      (meets_arguments params rest).bind fun others => meets_pure (ok && others)).mono ?_
    rintro t b u ⟨_, v, ⟨ty, rfl, he⟩, _, w, ⟨rfl, hf⟩, _, x, ha, rfl, rfl⟩ hl
    obtain ⟨⟨both, hc⟩, rfl⟩ := hf ty rfl
    obtain ⟨rfl, hr⟩ := ha (Nat.succ.inj hl)
    exact ⟨rfl, .argumentsCons name param params e rest he hc hr⟩

theorem meets_fieldInits (struct : String) (decls : Members) : ∀ fs : List FieldInit,
    Meets (fieldInits s struct decls fs) (fun t b u => b = true ∧ Derives s t (.fields decls fs) u)
  | [] => by
    rw [fieldInits]
    refine (meets_pure true).mono ?_
    rintro t b u ⟨rfl, rfl⟩
    exact ⟨rfl, .fieldsNil decls u⟩
  | .mk h name value :: rest => by
    rw [fieldInits]
    refine ((meets_expr value false).bind fun x => (meets_fieldInit h (decls.find? name) _ x).bind
      fun ok => (meets_fieldInits struct decls rest).bind fun others =>
      meets_pure (ok && others)).mono ?_
    rintro t b u ⟨_, v, ⟨vt, rfl, hv⟩, _, w, hf, _, x, ⟨rfl, hr⟩, rfl, rfl⟩
    obtain ⟨dt, ty, rfl, hd, hc, rfl⟩ := hf vt rfl
    exact ⟨rfl, .fieldsCons decls h name value rest hv hd hc hr⟩

theorem meets_stmt : ∀ st : Stmt, Meets (stmt s st) (fun t _ u => Derives s t (.stmt st) u)
  | .expr e => by
    rw [stmt]
    refine (meets_discard (meets_expr e false)).mono ?_
    rintro t _ u ⟨_, ty, rfl, he⟩
    exact .effect e he
  | .bind h pattern annotated none => by
    rw [stmt]
    refine ((meets_typeExpr? annotated).bind fun a => (meets_letType_none h.id.ir a).bind fun ty =>
      (meets_record pattern.id.ir ty).bind fun _ => meets_record h.id.ir ty).mono ?_
    rintro t _ u ⟨a, v, ha, _, w, ⟨rfl, rfl⟩, _, x, rfl, rfl⟩
    exact .declare h pattern annotated ha
  | .bind h pattern annotated (some init) => by
    rw [stmt]
    refine ((meets_typeExpr? annotated).bind fun a => (meets_expr init false).bind fun v =>
      (meets_letType h.id.ir a v init.locus).bind fun ty =>
      (meets_record pattern.id.ir ty).bind fun _ => meets_record h.id.ir ty).mono ?_
    rintro t _ u ⟨a, v, ha, _, w, ⟨vt, rfl, hv⟩, ty, x, hl, _, y, rfl, rfl⟩
    obtain ⟨hb, rfl⟩ := hl vt rfl
    exact .bind h pattern annotated init ha hv hb

theorem meets_stmts : ∀ sts : List Stmt,
    Meets (stmts s sts) (fun t _ u => Derives s t (.stmts sts) u)
  | [] => by
    rw [stmts]
    refine (meets_pure ()).mono ?_
    rintro t _ u ⟨_, rfl⟩
    exact .stmtsNil u
  | st :: rest => by
    rw [stmts]
    refine ((meets_stmt st).bind fun _ => meets_stmts rest).mono ?_
    rintro t _ u ⟨_, v, hs, hr⟩
    exact .stmtsCons st rest hs hr

end

/-! ## From derivations to runs -/

/-- The checker establishes the judgement without a report. -/
def Judgement.Found (s : Scope) (t : TypeTable) (j : Judgement) (u : TypeTable) : Prop :=
  match j with
  | .expr e final ty => Yields (Check.expr s e final) t (some ty) u
  | .exprs es tys => Yields (Check.exprs s es) t (tys.map some) u
  | .arguments params es => Yields (Check.arguments s params es) t true u
  | .fields decls fs => ∀ struct, Yields (fieldInits s struct decls fs) t true u
  | .stmt st => Yields (Check.stmt s st) t () u
  | .stmts sts => Yields (Check.stmts s sts) t () u

theorem yields_fits (t : TypeTable) (l : Location) {a b ty : Ty} (h : a.combine? b = some ty) :
    Yields (fits a (some b) l) t true t :=
  (yields_reconcile t l h).bind (yields_pure _ _)

theorem Derives.found {t u : TypeTable} {j : Judgement} (h : Derives s t j u) : j.Found s t u := by
  induction h with
  | literal h lit final hb =>
    show Yields _ _ _ _
    rw [expr]
    exact yields_recording _ ((yields_literal hb).bind (yields_pure _ _))
  | identifier h name final hd hg hi =>
    show Yields _ _ _ _
    rw [expr]
    exact yields_recording _ (yields_identifier hd hg hi)
  | retUnit h final hr hc =>
    show Yields _ _ _ _
    rw [expr]
    refine yields_recording _ ((yields_return? _).bind ?_)
    rw [hr]
    exact yields_reconcile _ _ hc
  | ret h value final hr _ hc ih =>
    show Yields _ _ _ _
    rw [expr]
    refine yields_recording _ ((yields_return? _).bind ?_)
    rw [hr]
    exact ih.bind (yields_reconcile _ _ hc)
  | call h callee args final hd hi hg hl _ ih =>
    show Yields _ _ _ _
    rw [expr]
    refine yields_recording _ ((yields_calleeType (e := .call h callee args) hd hi hg).bind ?_)
    dsimp only
    rw [if_neg (Decidable.not_not.2 hl)]
    exact ih.bind (yields_pure _ _)
  | callError h callee args final hd hi hg _ ih =>
    show Yields _ _ _ _
    rw [expr]
    refine yields_recording _ ((yields_calleeType (e := .call h callee args) hd hi hg).bind ?_)
    exact (yields_discard ih).bind (yields_pure _ _)
  | assignName h g name value final hd hg _ hc ih =>
    show Yields _ _ _ _
    rw [expr]
    refine yields_recording _ ((yields_recording g.id.ir (yields_identifier_target hd hg)).bind ?_)
    exact Yields.bind ih (yields_assigned _ h (.identifier g name) hc)
  | assign h target value final hn _ _ hc iht ihv =>
    show Yields _ _ _ _
    rw [expr_assign hn]
    exact yields_recording _ (Yields.bind iht (Yields.bind ihv (yields_assigned _ h target hc)))
  | binary h op lhs rhs final _ _ hc ihl ihr =>
    show Yields _ _ _ _
    rw [expr]
    exact yields_recording _ (Yields.bind ihl (Yields.bind ihr (yields_combined _ _ hc)))
  | ifOnly h condition body final _ _ ihc ihb =>
    show Yields _ _ _ _
    rw [expr]
    exact yields_recording _
      ((yields_discard ihc).bind ((yields_discard ihb).bind (yields_pure _ _)))
  | ifElse h condition thenBody elseBody _ _ _ ihc iht ihe =>
    show Yields _ _ _ _
    rw [expr]
    exact yields_recording _ ((yields_discard ihc).bind
      ((yields_discard iht).bind ((yields_discard ihe).bind (yields_pure _ _))))
  | ifElseFinal h condition thenBody elseBody hr _ _ _ hb hty ihc iht ihe =>
    show Yields _ _ _ _
    rw [expr]
    refine yields_recording _ ((yields_return? _).bind ?_)
    rw [hr]
    exact (yields_discard ihc).bind
      (Yields.bind iht (Yields.bind ihe (yields_branches _ _ _ hb hty)))
  | ifElseIf h condition thenBody elseIf final _ _ _ ihc iht ihe =>
    show Yields _ _ _ _
    rw [expr]
    exact yields_recording _ ((yields_discard ihc).bind
      ((yields_discard iht).bind ((yields_discard ihe).bind (yields_pure _ _))))
  | blockUnit h body final _ ih =>
    show Yields _ _ _ _
    rw [expr]
    exact yields_recording _ (Yields.bind ih (yields_pure _ _))
  | block h body tail final _ _ ihb iht =>
    show Yields _ _ _ _
    rw [expr]
    exact yields_recording _ (Yields.bind ihb iht)
  | index h base position final _ hi _ ihp ihb =>
    show Yields _ _ _ _
    rw [expr]
    exact yields_recording _ (Yields.bind ihp ((yields_checkIndex _ hi).bind
      (Yields.bind ihb (yields_elementOf _ _ _ (.array _ _ _)))))
  | indexError h base position final _ hi _ ihp ihb =>
    show Yields _ _ _ _
    rw [expr]
    exact yields_recording _ (Yields.bind ihp ((yields_checkIndex _ hi).bind
      (Yields.bind ihb (yields_elementOf _ _ _ (.error _)))))
  | @array t u v ft element tys h first rest final _ hr he ihf ihr =>
    show Yields _ _ _ _
    rw [expr, ← hr.length_eq]
    exact yields_recording _ (Yields.bind ihf (Yields.bind ihr
      (yields_arrayOf _ _ (by rw [hr.length_eq, List.length_map]) he)))
  | copies h element count final _ ih =>
    show Yields _ _ _ _
    rw [expr]
    exact yields_recording _ (Yields.bind ih (yields_pure _ _))
  | struct h path fields final hd hi hg _ hm ih =>
    show Yields _ _ _ _
    rw [expr]
    refine yields_recording _ ((yields_structType (e := .struct h path fields) hd hi hg).bind ?_)
    exact (ih _).bind ((yields_missingFields _ _ _ hm).bind (yields_pure _ _))
  | exprsNil t =>
    show Yields _ _ _ _
    rw [exprs]
    exact yields_pure _ _
  | exprsCons e es _ _ ihe ihr =>
    show Yields _ _ _ _
    rw [exprs]
    exact Yields.bind ihe (Yields.bind ihr (yields_pure _ _))
  | argumentsNil t =>
    show Yields _ _ _ _
    rw [arguments]
    · exact yields_pure _ _
    · nofun
  | argumentsCons name param params e es _ hc _ ihe ihr =>
    show Yields _ _ _ _
    rw [arguments]
    exact Yields.bind ihe ((yields_fits _ _ hc).bind (Yields.bind ihr (yields_pure _ _)))
  | fieldsNil decls t =>
    intro struct
    rw [fieldInits]
    exact yields_pure _ _
  | fieldsCons decls h name value rest _ hd hc _ ihv ihr =>
    intro struct
    rw [fieldInits, hd]
    exact Yields.bind ihv ((yields_fieldInit _ h _ hc).bind ((ihr struct).bind (yields_pure _ _)))
  | effect e _ ih =>
    show Yields _ _ _ _
    rw [stmt]
    exact yields_discard ih
  | declare h pattern ascribed ha =>
    show Yields _ _ _ _
    rw [stmt]
    exact (yields_typeExpr? ha).bind ((yields_letType_none _ _ _).bind
      ((yields_record _ _ _).bind (yields_record _ _ _)))
  | bind h pattern ascribed init ha _ hb ih =>
    show Yields _ _ _ _
    rw [stmt]
    exact (yields_typeExpr? ha).bind (Yields.bind ih ((yields_letType _ _ _ hb).bind
      ((yields_record _ _ _).bind (yields_record _ _ _))))
  | stmtsNil t =>
    show Yields _ _ _ _
    rw [stmts]
    exact yields_pure _ _
  | stmtsCons st rest _ _ ihs ihr =>
    show Yields _ _ _ _
    rw [stmts]
    exact Yields.bind ihs ihr

end MiddleEnd.Check
