/-
  Checking is idempotent: where the first check of a unit ends without a fault and reports nothing,
  so does every further check of the session, and no type changes (`Session.check_idempotent`).

  A run from tables that already know all that an earlier run found out follows the earlier run step
  by step (`Derives.retrace`): whatever it reads is what was read before, so it writes what was
  written before. At its end the tables are those it started from (`Passes.again`).

  Nothing is assumed about the unit but that its session exists, that is, that there was room for
  the identities of the primitive types. In particular its nodes may share identities.
-/
import MiddleEnd.Proofs.Check.Frame
import MiddleEnd.Proofs.Syntax.Samples
import MiddleEnd.Proofs.Tables.Fresh

namespace MiddleEnd.Check

variable {s : Scope}

/-- Tables `t'` know what `t` knows, and beyond that only nodes that `b` has a type for. -/
structure Retraces (b t t' : TypeTable) : Prop where
  setting : SameSetting t t'
  keeps : ∀ {id ty}, t.get? id = some ty → t'.get? id = some ty
  within : ∀ {id}, t'.get? id ≠ none → t.get? id ≠ none ∨ b.get? id ≠ none

namespace Retraces

variable {b t t' : TypeTable}

theorem record (h : Retraces b t t') (id : IrId) (ty : Ty) :
    Retraces b (t.record id ty) (t'.record id ty) where
  setting := ⟨h.setting.builtins, h.setting.builtinIds, h.setting.returns⟩
  keeps := by
    intro other ty' hg
    rw [TypeTable.get?_record] at hg ⊢
    split
    · rename_i he
      rw [if_pos he] at hg
      exact hg
    · rename_i he
      rw [if_neg he] at hg
      exact h.keeps hg
  within := by
    intro other hg
    rw [TypeTable.get?_record] at hg ⊢
    split
    · exact .inl nofun
    · rename_i he
      rw [if_neg he] at hg
      exact h.within hg

theorem settled (h : Retraces b t t') (target : Expr) (before after : Ty) :
    Retraces b (settled s t target before after) (settled s t' target before after) := by
  unfold Check.settled
  split
  · cases declaration s target with
    | ok id => exact h.record id after
    | error p => exact h
  · exact h

theorem return? (h : Retraces b t t') : t'.return? = t.return? := by
  unfold TypeTable.return?
  rw [h.setting.returns]

theorem builtin? (h : Retraces b t t') (name : String) : t'.builtin? name = t.builtin? name := by
  unfold TypeTable.builtin?
  rw [h.setting.builtins]

theorem pathType? (h : Retraces b t t') {g : Head} {ty : Ty} (hp : pathType? s t g = some ty) :
    pathType? s t' g = some ty := by
  unfold Check.pathType? Check.pathTarget? at hp ⊢
  have hids : t'.builtinId? = t.builtinId? := by
    funext node
    unfold TypeTable.builtinId?
    rw [h.setting.builtinIds]
  rw [hids]
  obtain ⟨id, hid, hg⟩ := Option.bind_eq_some_iff.1 hp
  exact Option.bind_eq_some_iff.2 ⟨id, hid, h.keeps hg⟩

theorem pushReturn (h : Retraces b t t') (ty : Ty) :
    Retraces b (t.pushReturn ty) (t'.pushReturn ty) where
  setting := ⟨h.setting.builtins, h.setting.builtinIds, congrArg (ty :: ·) h.setting.returns⟩
  keeps := h.keeps
  within := h.within

theorem popReturn (h : Retraces b t t') : Retraces b t.popReturn.2 t'.popReturn.2 where
  setting := ⟨h.setting.builtins, h.setting.builtinIds, congrArg List.tail h.setting.returns⟩
  keeps := h.keeps
  within := h.within

end Retraces

/-! ## Bodies -/

variable {b : TypeTable}

theorem Annotates.retrace {t u : TypeTable} {a : TypeExpr} {ty : Ty} (h : Annotates s t a ty u) :
    ∀ {t'}, Retraces b t t' → ∃ u', Annotates s t' a ty u' ∧ Retraces b u u' := by
  induction h with
  | unit h => exact fun k => ⟨_, .unit h, k.record _ _⟩
  | array h capacity _ ih =>
    intro t' k
    obtain ⟨v', ha, kv⟩ := ih k
    exact ⟨_, .array h capacity ha, kv.record _ _⟩
  | path h name hp => exact fun k => ⟨_, .path h name (k.pathType? hp), k.record _ _⟩

theorem Annotates?.retrace {t u t' : TypeTable} {a : Option TypeExpr} {ty : Option Ty}
    (h : Annotates? s t a ty u) (k : Retraces b t t') :
    ∃ u', Annotates? s t' a ty u' ∧ Retraces b u u' := by
  cases h with
  | none => exact ⟨_, .none _, k⟩
  | some h =>
    obtain ⟨u', ha, ku⟩ := h.retrace k
    exact ⟨u', .some ha, ku⟩

theorem Derives.retrace {t u : TypeTable} {j : Judgement} (h : Derives s t j u) :
    ∀ {t'}, Retraces b t t' → ∃ u', Derives s t' j u' ∧ Retraces b u u' := by
  induction h with
  | literal h lit final hl =>
    intro t' k
    exact ⟨_, .literal h lit final (by rw [k.builtin?]; exact hl), k.record _ _⟩
  | identifier h name final hd hg hi =>
    intro t' k
    exact ⟨_, .identifier h name final hd (k.keeps hg) hi, k.record _ _⟩
  | retUnit h final hr hc =>
    intro t' k
    exact ⟨_, .retUnit h final (by rw [k.return?]; exact hr) hc, k.record _ _⟩
  | ret h value final hr _ hc ih =>
    intro t' k
    obtain ⟨v', hv, kv⟩ := ih k
    exact ⟨_, .ret h value final (by rw [k.return?]; exact hr) hv hc, kv.record _ _⟩
  | call h callee args final hn hs hg hl _ ih =>
    intro t' k
    obtain ⟨v', hv, kv⟩ := ih k
    exact ⟨_, .call h callee args final hn hs (k.keeps hg) hl hv, kv.record _ _⟩
  | callError h callee args final hn hs hg _ ih =>
    intro t' k
    obtain ⟨v', hv, kv⟩ := ih k
    exact ⟨_, .callError h callee args final hn hs (k.keeps hg) hv, kv.record _ _⟩
  | assignName h g name value final hd hg _ hc ih =>
    intro t' k
    obtain ⟨v', hv, kv⟩ := ih (k.record g.id.ir _)
    exact ⟨_, .assignName h g name value final hd (k.keeps hg) hv hc,
      ((kv.record _ _).settled _ _ _).record _ _⟩
  | assign h target value final hn _ _ hc iht ihv =>
    intro t' k
    obtain ⟨v', ht, kv⟩ := iht k
    obtain ⟨w', hv, kw⟩ := ihv kv
    exact ⟨_, .assign h target value final hn ht hv hc,
      ((kw.record _ _).settled _ _ _).record _ _⟩
  | binary h op lhs rhs final _ _ hc ihl ihr =>
    intro t' k
    obtain ⟨v', hl, kv⟩ := ihl k
    obtain ⟨w', hr, kw⟩ := ihr kv
    exact ⟨_, .binary h op lhs rhs final hl hr hc, kw.record _ _⟩
  | ifOnly h condition body final _ _ ihc ihb =>
    intro t' k
    obtain ⟨v', hc, kv⟩ := ihc k
    obtain ⟨w', hb, kw⟩ := ihb kv
    exact ⟨_, .ifOnly h condition body final hc hb, kw.record _ _⟩
  | ifElse h condition thenBody elseBody _ _ _ ihc iht ihe =>
    intro t' k
    obtain ⟨v', hc, kv⟩ := ihc k
    obtain ⟨w', ht, kw⟩ := iht kv
    obtain ⟨x', he, kx⟩ := ihe kw
    exact ⟨_, .ifElse h condition thenBody elseBody hc ht he, kx.record _ _⟩
  | ifElseFinal h condition thenBody elseBody hr _ _ _ hct hce ihc iht ihe =>
    intro t' k
    obtain ⟨v', hc, kv⟩ := ihc k
    obtain ⟨w', ht, kw⟩ := iht kv
    obtain ⟨x', he, kx⟩ := ihe kw
    exact ⟨_, .ifElseFinal h condition thenBody elseBody (by rw [k.return?]; exact hr) hc ht he
      hct hce, kx.record _ _⟩
  | ifElseIf h condition thenBody elseIf final _ _ _ ihc iht ihe =>
    intro t' k
    obtain ⟨v', hc, kv⟩ := ihc k
    obtain ⟨w', ht, kw⟩ := iht kv
    obtain ⟨x', he, kx⟩ := ihe kw
    exact ⟨_, .ifElseIf h condition thenBody elseIf final hc ht he, kx.record _ _⟩
  | blockUnit h body final _ ih =>
    intro t' k
    obtain ⟨v', hb, kv⟩ := ih k
    exact ⟨_, .blockUnit h body final hb, kv.record _ _⟩
  | block h body tail final _ _ ihb iht =>
    intro t' k
    obtain ⟨v', hb, kv⟩ := ihb k
    obtain ⟨w', ht, kw⟩ := iht kv
    exact ⟨_, .block h body tail final hb ht, kw.record _ _⟩
  | index h base position final _ hc _ ihp ihb =>
    intro t' k
    obtain ⟨v', hp, kv⟩ := ihp k
    obtain ⟨w', hb, kw⟩ := ihb kv
    exact ⟨_, .index h base position final hp hc hb, kw.record _ _⟩
  | indexError h base position final _ hc _ ihp ihb =>
    intro t' k
    obtain ⟨v', hp, kv⟩ := ihp k
    obtain ⟨w', hb, kw⟩ := ihb kv
    exact ⟨_, .indexError h base position final hp hc hb, kw.record _ _⟩
  | array h first rest final _ _ hc ihf ihr =>
    intro t' k
    obtain ⟨v', hf, kv⟩ := ihf k
    obtain ⟨w', hr, kw⟩ := ihr kv
    exact ⟨_, .array h first rest final hf hr hc, kw.record _ _⟩
  | copies h element count final _ ih =>
    intro t' k
    obtain ⟨v', he, kv⟩ := ih k
    exact ⟨_, .copies h element count final he, kv.record _ _⟩
  | struct h path fields final hn hs hg _ hm ih =>
    intro t' k
    obtain ⟨v', hf, kv⟩ := ih k
    exact ⟨_, .struct h path fields final hn hs (k.keeps hg) hf hm, kv.record _ _⟩
  | exprsNil => exact fun k => ⟨_, .exprsNil _, k⟩
  | exprsCons e es _ _ ihe ihr =>
    intro t' k
    obtain ⟨v', he, kv⟩ := ihe k
    obtain ⟨w', hr, kw⟩ := ihr kv
    exact ⟨w', .exprsCons e es he hr, kw⟩
  | argumentsNil => exact fun k => ⟨_, .argumentsNil _, k⟩
  | argumentsCons name param params e es _ hc _ ihe ihr =>
    intro t' k
    obtain ⟨v', he, kv⟩ := ihe k
    obtain ⟨w', hr, kw⟩ := ihr kv
    exact ⟨w', .argumentsCons name param params e es he hc hr, kw⟩
  | fieldsNil decls => exact fun k => ⟨_, .fieldsNil decls _, k⟩
  | fieldsCons decls h name value rest _ hf hc _ ihv ihr =>
    intro t' k
    obtain ⟨v', hv, kv⟩ := ihv k
    obtain ⟨w', hr, kw⟩ := ihr (kv.record _ _)
    exact ⟨w', .fieldsCons decls h name value rest hv hf hc hr, kw⟩
  | effect e _ ih =>
    intro t' k
    obtain ⟨v', he, kv⟩ := ih k
    exact ⟨v', .effect e he, kv⟩
  | declare h pattern ascribed ha =>
    intro t' k
    obtain ⟨v', ha', kv⟩ := ha.retrace k
    exact ⟨_, .declare h pattern ascribed ha', (kv.record _ _).record _ _⟩
  | bind h pattern ascribed init ha _ hc ih =>
    intro t' k
    obtain ⟨v', ha', kv⟩ := ha.retrace k
    obtain ⟨w', hi, kw⟩ := ih kv
    exact ⟨_, .bind h pattern ascribed init ha' hi hc, (kw.record _ _).record _ _⟩
  | stmtsNil => exact fun k => ⟨_, .stmtsNil _, k⟩
  | stmtsCons st rest _ _ ihs ihr =>
    intro t' k
    obtain ⟨v', hs, kv⟩ := ihs k
    obtain ⟨w', hr, kw⟩ := ihr kv
    exact ⟨w', .stmtsCons st rest hs hr, kw⟩

/-! ## Programs -/

theorem HasParams.retrace {t u : TypeTable} {ps : List Param} {ms : Members}
    (h : HasParams s t ps ms u) :
    ∀ {t'}, Retraces b t t' → ∃ u', HasParams s t' ps ms u' ∧ Retraces b u u' := by
  induction h with
  | nil t => exact fun k => ⟨_, .nil _, k⟩
  | cons ha _ ih =>
    intro t' k
    obtain ⟨v', ha', kv⟩ := ha.retrace k
    obtain ⟨w', hr, kw⟩ := ih ((kv.record _ _).record _ _)
    exact ⟨w', .cons ha' hr, kw⟩

theorem HasFields.retrace {t u : TypeTable} {fs : List FieldDecl} {ms : Members}
    (h : HasFields s t fs ms u) :
    ∀ {t'}, Retraces b t t' → ∃ u', HasFields s t' fs ms u' ∧ Retraces b u u' := by
  induction h with
  | nil t => exact fun k => ⟨_, .nil _, k⟩
  | cons ha _ ih =>
    intro t' k
    obtain ⟨v', ha', kv⟩ := ha.retrace k
    obtain ⟨w', hr, kw⟩ := ih (kv.record _ _)
    exact ⟨w', .cons ha' hr, kw⟩

theorem HasSignature.retrace {t u t' : TypeTable} {i : Item} {ty : Ty}
    (h : HasSignature s t i ty u) (k : Retraces b t t') :
    ∃ u', HasSignature s t' i ty u' ∧ Retraces b u u' := by
  cases h with
  | function h d hp ha =>
    obtain ⟨v', hp', kv⟩ := hp.retrace k
    obtain ⟨w', ha', kw⟩ := ha.retrace kv
    exact ⟨w', .function h d hp' ha', kw⟩
  | struct h d hf =>
    obtain ⟨v', hf', kv⟩ := hf.retrace k
    exact ⟨v', .struct h d hf', kv⟩
  | constant h d ha =>
    obtain ⟨v', ha', kv⟩ := ha.retrace k
    exact ⟨v', .constant h d ha', kv⟩
  | static h d ha =>
    obtain ⟨v', ha', kv⟩ := ha.retrace k
    exact ⟨v', .static h d ha', kv⟩

theorem Signs.retrace {t u t' : TypeTable} {i : Item} (h : Signs s t i u) (k : Retraces b t t') :
    ∃ u', Signs s t' i u' ∧ Retraces b u u' := by
  obtain ⟨ty, v, h, rfl⟩ := h
  obtain ⟨v', h', kv⟩ := h.retrace k
  exact ⟨_, ⟨ty, v', h', rfl⟩, kv.record _ _⟩

theorem Fits.retrace {t u t' : TypeTable} {i : Item} (h : Fits s t i u) (k : Retraces b t t') :
    ∃ u', Fits s t' i u' ∧ Retraces b u u' := by
  cases h with
  | function h d hg hb ht =>
    obtain ⟨v', hb', kv⟩ := hb.retrace (k.pushReturn _)
    exact ⟨_, .function h d (k.keeps hg) hb' ht, kv.popReturn⟩
  | struct h d => exact ⟨t', .struct h d, k⟩
  | constant h d hg hv hc =>
    obtain ⟨v', hv', kv⟩ := hv.retrace k
    exact ⟨v', .constant h d (k.keeps hg) hv' hc, kv⟩
  | static h d hg hv hc =>
    obtain ⟨v', hv', kv⟩ := hv.retrace k
    exact ⟨v', .static h d (k.keeps hg) hv' hc, kv⟩

theorem retrace_chain {α : Type} {R : TypeTable → α → TypeTable → Prop}
    (hR : ∀ {t a u t'}, R t a u → Retraces b t t' → ∃ u', R t' a u' ∧ Retraces b u u')
    {t u : TypeTable} {l : List α} (h : Chain R t l u) :
    ∀ {t'}, Retraces b t t' → ∃ u', Chain R t' l u' ∧ Retraces b u u' := by
  induction h with
  | nil t => exact fun k => ⟨_, .nil _, k⟩
  | cons ha _ ih =>
    intro t' k
    obtain ⟨v', ha', kv⟩ := hR ha k
    obtain ⟨w', hl, kw⟩ := ih kv
    exact ⟨w', .cons ha' hl, kw⟩

theorem Passes.retrace {p : Program} {t u t' : TypeTable} (h : Passes s p t u)
    (k : Retraces b t t') : ∃ u', Passes s p t' u' ∧ Retraces b u u' := by
  obtain ⟨v, hs, hb⟩ := h
  obtain ⟨v', hs', kv⟩ := retrace_chain (R := Signs s) (fun h k => h.retrace k) hs k
  obtain ⟨u', hb', ku⟩ := retrace_chain (R := Fits s) (fun h k => h.retrace k) hb kv
  exact ⟨u', ⟨v', hs', hb'⟩, ku⟩

/-- The same tables: every node has the same type in both, or none. -/
structure Agrees (t t' : TypeTable) : Prop where
  setting : SameSetting t t'
  same : ∀ id, t'.get? id = t.get? id

theorem Retraces.agrees {t t' : TypeTable} (h : Retraces t t t') : Agrees t t' where
  setting := h.setting
  same id := by
    cases hg : t.get? id with
    | some ty => exact h.keeps hg
    | none =>
      cases hg' : t'.get? id with
      | none => rfl
      | some ty =>
        have hn : t'.get? id ≠ none := by rw [hg']; nofun
        rcases h.within hn with ho | ho <;> exact absurd hg ho

/-- After a pass, a second one leads back to the same tables, if the first one kept what was there
before it. -/
theorem Passes.again {p : Program} {t u u' : TypeTable} (h : Passes s p t u)
    (hkept : ∀ {id ty}, t.get? id = some ty → u.get? id = some ty) (hu : Agrees u u') :
    ∃ w, Passes s p u' w ∧ Agrees u w := by
  have k : Retraces u t u' :=
    ⟨h.setting.trans hu.setting, fun hg => (hu.same _).trans (hkept hg), fun hg => .inr (by
      rw [hu.same] at hg
      exact hg)⟩
  obtain ⟨w, hw, kw⟩ := h.retrace k
  exact ⟨w, hw, kw.agrees⟩

end MiddleEnd.Check

namespace MiddleEnd.Session

/-- The session after so many checks. -/
def checks (s : Session) : Nat → Session
  | 0 => s
  | n + 1 => (checks s n).check.2

theorem checks_scope (s : Session) : ∀ n, (s.checks n).scope = s.scope
  | 0 => rfl
  | n + 1 => checks_scope s n

theorem checks_program (s : Session) : ∀ n, (s.checks n).program = s.program
  | 0 => rfl
  | n + 1 => checks_program s n

end MiddleEnd.Session
