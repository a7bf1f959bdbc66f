/-
  Independent errors are reported in one pass. Wherever a check ends without a fault it has reported
  every name in a body or an initial value that means nothing, whatever else is wrong around it, but
  for one case: a call whose function is not found or does not take so many arguments, and a struct
  literal whose struct is not found, are given up before what stands in them is looked at
  (`Session.unbound_reported`).

  `Tells D T m` is read off a run that ends well and whose reports are all in `D`. Reports are only
  ever added, so of a run in two parts both parts have their reports in `D` (`Tells.bind`).
-/
import MiddleEnd.Proofs.Check.Pass
import MiddleEnd.Proofs.Syntax.Parts
import MiddleEnd.Proofs.Syntax.Samples

namespace MiddleEnd

/-- The parts of an expression that are checked only where the function or the struct it names is
known. -/
def Expr.deferred : Expr → List Part
  | .call _ _ args => Expr.partsAll args
  | .struct _ _ fields => FieldInit.partsAll fields
  | _ => []

namespace Check

variable {α β : Type} {s : Scope} {D : List Diagnostic}

/-! ## What is reported -/

/-- A declaration that was found leads to a node. -/
def LeadsToNode (s : Scope) (c : CrateNumber) (decl : Option SurfaceId) : Prop :=
  ∃ site id, decl = some site ∧ s.registry.node? ⟨c, site⟩ = some id

/-- The problems for which a call or a struct literal is given up, and when it is. -/
inductive Dismissal (s : Scope) : Expr → Problem → Prop
  | callee {h : Head} {callee : Expr} {args : List Expr} :
    s.bindings.name? callee.surface = none →
    Dismissal s (.call h callee args) (.unboundName (Expr.call h callee args).text)
  | calleeNode {h : Head} {callee : Expr} {args : List Expr} {decl : SurfaceId} :
    s.bindings.name? callee.surface = some decl →
    s.registry.node? ⟨h.id.crate, decl⟩ = none →
    Dismissal s (.call h callee args) .noSuchNode
  | calleeType {h : Head} {callee : Expr} {args : List Expr} :
    LeadsToNode s h.id.crate (s.bindings.name? callee.surface) →
    Dismissal s (.call h callee args) (.untyped (Expr.call h callee args).text)
  | notAFunction {h : Head} {callee : Expr} {args : List Expr} {t : Ty} :
    LeadsToNode s h.id.crate (s.bindings.name? callee.surface) →
    (∀ r params result, t ≠ .fn r params result) → (∀ r, t ≠ .error r) →
    Dismissal s (.call h callee args) (.notAFunction t)
  | argumentCount {h : Head} {callee : Expr} {args : List Expr} {n : Nat} :
    LeadsToNode s h.id.crate (s.bindings.name? callee.surface) → n ≠ args.length →
    Dismissal s (.call h callee args) (.argumentCount n args.length)
  | path {h : Head} {path : StructPath} {fields : List FieldInit} :
    s.bindings.type? path.id.surface = none →
    Dismissal s (.struct h path fields) (.unresolvedStruct path.name)
  | pathNode {h : Head} {path : StructPath} {fields : List FieldInit} {decl : SurfaceId} :
    s.bindings.type? path.id.surface = some decl →
    s.registry.node? ⟨path.id.crate, decl⟩ = none →
    Dismissal s (.struct h path fields) .noSuchNode
  | pathType {h : Head} {path : StructPath} {fields : List FieldInit} :
    LeadsToNode s path.id.crate (s.bindings.type? path.id.surface) →
    Dismissal s (.struct h path fields) (.untyped (Expr.struct h path fields).text)
  | notAStruct {h : Head} {path : StructPath} {fields : List FieldInit} {t : Ty} :
    LeadsToNode s path.id.crate (s.bindings.type? path.id.surface) →
    (∀ r name decls, t ≠ .struct r name decls) →
    Dismissal s (.struct h path fields) (.notAStruct t)

/-- The expression was given up, as a report at its own location says. -/
def Dismissed (s : Scope) (D : List Diagnostic) (e : Expr) : Prop :=
  ∃ p, Dismissal s e p ∧ ⟨.error, p, e.locus⟩ ∈ D

/-- Every name among the parts that means nothing is reported where it stands, or stands in a part
that was given up. -/
def Told (s : Scope) (D : List Diagnostic) (parts : List Part) : Prop :=
  ∀ g x, .expr (.identifier g x) ∈ parts → s.bindings.name? g.id.surface = none →
    ⟨.error, .unboundName x, g.locus⟩ ∈ D ∨
      ∃ e, .expr e ∈ parts ∧ Dismissed s D e ∧ .expr (.identifier g x) ∈ e.deferred

namespace Told

variable {parts parts' : List Part}

/-- More parts of which none is a name. -/
theorem mono (h : Told s D parts) (hsub : parts ⊆ parts')
    (hnew : ∀ g x, .expr (.identifier g x) ∈ parts' → .expr (.identifier g x) ∈ parts) :
    Told s D parts' := fun g x hm hn =>
  (h g x (hnew g x hm) hn).imp_right fun ⟨e, he, hr, hin⟩ => ⟨e, hsub he, hr, hin⟩

theorem nil : Told s D [] := fun _ _ h => absurd h List.not_mem_nil

theorem cons {p : Part} (hp : ∀ g x, p ≠ .expr (.identifier g x)) (h : Told s D parts) :
    Told s D (p :: parts) :=
  h.mono (List.subset_cons_self ..) fun g x hm => (List.mem_cons.1 hm).resolve_left (hp g x).symm

theorem append (h : Told s D parts) (h' : Told s D parts') : Told s D (parts ++ parts') := by
  intro g x hm hn
  rcases List.mem_append.1 hm with hm | hm
  · exact (h g x hm hn).imp_right fun ⟨e, he, hr⟩ => ⟨e, List.mem_append_left _ he, hr⟩
  · exact (h' g x hm hn).imp_right fun ⟨e, he, hr⟩ => ⟨e, List.mem_append_right _ he, hr⟩

/-- There are no names of values in an annotation. -/
theorem ascribed (a : Option TypeExpr) : Told s D (TypeExpr.partsOf a) :=
  fun _ _ hm => absurd hm (TypeExpr.noExpr_partsOf a _)

/-- What stands in an expression that was given up need not be told. -/
theorem deferred {e : Expr} {p : Part} (he : ∀ g x, e ≠ .identifier g x)
    (hp : ∀ g x, p ≠ .expr (.identifier g x)) (h : Dismissed s D e ∨ Told s D e.deferred) :
    Told s D (.expr e :: p :: e.deferred) := by
  have hnode : ∀ g x, Part.expr e ≠ .expr (.identifier g x) := fun g x h =>
    he g x (Part.expr.inj h)
  rcases h with hr | ht
  · intro g x hm _
    have hin := (List.mem_cons.1 hm).resolve_left (hnode g x).symm
    exact .inr ⟨e, List.mem_cons_self .., hr, (List.mem_cons.1 hin).resolve_left (hp g x).symm⟩
  · exact .cons hnode (.cons hp ht)

end Told

/-! ## Steps -/

/-- Reports are kept; and where the run ends well with all reports in `D`, what it gives satisfies
`T`. -/
structure Tells (D : List Diagnostic) (T : α → Prop) (m : Check α) : Prop where
  keeps : ∀ p, p.diagnostics ⊆ (m.run.run p).2.diagnostics
  tells : ∀ p a q, m.run.run p = (.ok a, q) → q.diagnostics ⊆ D → T a

/-- The step tells of the names among the parts that mean nothing. -/
abbrev Announces (s : Scope) (D : List Diagnostic) (parts : List Part) (m : Check α) : Prop :=
  Tells D (fun _ => Told s D parts) m

namespace Tells

variable {T : α → Prop} {m : Check α} {f : α → Check β}

theorem of_meets {R : Step α} (h : Meets m R) : Tells D (fun _ => True) m where
  keeps p := (h.keeps p).subset
  tells _ _ _ _ _ := trivial

theorem mono {T' : α → Prop} (h : Tells D T m) (hT : ∀ a, T a → T' a) : Tells D T' m where
  keeps := h.keeps
  tells p a q hr hq := hT a (h.tells p a q hr hq)

theorem bind {U : α → β → Prop} (hm : Tells D T m) (hf : ∀ a, Tells D (U a) (f a)) :
    Tells D (fun b => ∃ a, T a ∧ U a b) (m >>= f) where
  keeps p := by
    have h := hm.keeps p
    rw [run_bind]
    rcases hr : m.run.run p with ⟨e | a, q⟩ <;> rw [hr] at h
    · exact h
    · exact List.Subset.trans h ((hf a).keeps q)
  tells p b q hb hq := by
    obtain ⟨a, r, hr, hb⟩ := run_bind_ok_iff.1 hb
    have hkept := (hf a).keeps r
    rw [hb] at hkept
    exact ⟨a, hm.tells p a r hr (List.Subset.trans hkept hq), (hf a).tells r b q hb hq⟩

theorem pure {a : α} (h : T a) : Tells D T (pure a : Check α) where
  keeps _ := List.Subset.refl _
  tells _ _ _ hr _ := by
    cases hr
    exact h

theorem defect (d : Defect) : Tells D T (Check.defect d : Check α) where
  keeps _ := List.Subset.refl _
  tells _ _ _ hr _ := by cases hr

theorem reconcile (a b : Ty) (l : Location) : Tells D (fun _ => True) (Check.reconcile a b l) :=
  .of_meets (meets_reconcile a b l)

/-- Only the first step tells something. -/
theorem first {P : Prop} (hm : Tells D (fun _ => P) m) (hf : ∀ a, Tells D (fun _ => True) (f a)) :
    Tells D (fun _ => P) (m >>= f) :=
  (hm.bind hf).mono fun _ ⟨_, h, _⟩ => h

/-- Only the second step tells something. -/
theorem second {U : β → Prop} (hm : Tells D T m) (hf : ∀ a, Tells D U (f a)) :
    Tells D U (m >>= f) :=
  (hm.bind hf).mono fun _ ⟨_, _, h⟩ => h

/-- Parts told one after the other. -/
theorem append {ps qs : List Part} (hm : Announces s D ps m) (hf : ∀ a, Announces s D qs (f a)) :
    Announces s D (ps ++ qs) (m >>= f) :=
  (hm.bind hf).mono fun _ ⟨_, hps, hqs⟩ => hps.append hqs

theorem discard {P : Prop} (h : Tells D (fun _ => P) m) : Tells D (fun _ => P) (discard m) :=
  h.first fun _ => .of_meets (meets_pure PUnit.unit)

theorem reject (l : Location) (p : Problem) :
    Tells D (fun _ => ⟨.error, p, l⟩ ∈ D) (reject l p) where
  keeps _ := (List.prefix_append _ _).subset
  tells _ _ _ hr hq := by
    cases hr
    exact hq (List.mem_append_right _ (List.mem_singleton_self _))

theorem recording {P : Prop} {id : IrId} {m : Check (Option Ty)} (h : Tells D (fun _ => P) m) :
    Tells D (fun _ => P) (recording id m) :=
  h.first fun r => by
    cases r with
    | none => exact .of_meets (meets_pure none)
    | some t => exact .of_meets ((meets_record id t).bind fun _ => meets_pure (some t))

/-- What an expression consists of is told, and the expression itself is not a name. -/
theorem node {e : Expr} {parts : List Part} {id : IrId} {m : Check (Option Ty)}
    (he : ∀ g x, e ≠ .identifier g x) (h : Announces s D parts m) :
    Announces s D (.expr e :: parts) (Check.recording id m) :=
  h.recording.mono fun _ hparts => hparts.cons fun g x hp => he g x (Part.expr.inj hp)

/-- A call or a struct literal, which is given up where the type it names is missing. If the type is
found, `P` holds. -/
theorem deferring {e : Expr} {part : Part} {id : IrId} {P : Prop} {m : Check (Option Ty)}
    {f : Option Ty → Check (Option Ty)} (he : ∀ g x, e ≠ .identifier g x)
    (hpart : ∀ g x, part ≠ .expr (.identifier g x))
    (hm : Tells D (fun r => Dismissed s D e ∨ r ≠ none ∧ P) m) (hnone : f none = Pure.pure none)
    (hsome : ∀ t, Tells D (fun _ => P → Dismissed s D e ∨ Told s D e.deferred) (f (some t))) :
    Announces s D (.expr e :: part :: e.deferred) (Check.recording id (m >>= f)) := by
  have hf : ∀ r, Tells D (fun _ => r ≠ none ∧ P → Dismissed s D e ∨ Told s D e.deferred) (f r) := by
    intro r
    cases r with
    | none =>
      rw [hnone]
      exact .pure fun hr => absurd rfl hr.1
    | some t => exact (hsome t).mono fun _ h hr => h hr.2
  exact (hm.bind hf).recording.mono fun _ ⟨r, hfound, hgiven⟩ =>
    .deferred he hpart (hfound.elim .inl hgiven)

theorem inFunction {T : α → Prop} (t : Ty) (h : Tells D T m) : Tells D T (inFunction t m) where
  keeps p := h.keeps { p with types := p.types.pushReturn t }
  tells p a q hr hq := by
    rw [run_inFunction] at hr
    rcases hm : m.run.run { p with types := p.types.pushReturn t } with ⟨b, q'⟩
    rw [hm] at hr
    cases hr
    exact h.tells _ a q' hm hq

theorem forM {P : α → Prop} {f : α → Check PUnit} (h : ∀ a, Tells D (fun _ => P a) (f a)) :
    ∀ l : List α, Tells D (fun _ => ∀ a ∈ l, P a) (l.forM f)
  | [] => (of_meets (meets_pure PUnit.unit)).mono fun _ _ _ ha => absurd ha List.not_mem_nil
  | a :: l => ((h a).bind fun _ => forM h l).mono fun _ ⟨_, ha, hl⟩ =>
      List.forall_mem_cons.2 ⟨ha, hl⟩

end Tells

/-! ## Names -/

/-- A name that means nothing is reported where it stands. -/
theorem announces_identifier (g : Head) (x : String) (isTarget : Bool) :
    Announces s D [.expr (.identifier g x)] (identifier s (.identifier g x) isTarget) := by
  cases hname : s.bindings.name? g.id.surface with
  | some decl =>
    have hmeets : Tells D (fun _ => True) (identifier s (.identifier g x) isTarget) := by
      cases isTarget
      · exact .of_meets (meets_identifier _)
      · exact .of_meets (meets_identifier_target _)
    refine hmeets.mono fun _ _ g' x' hm hn => ?_
    cases List.mem_singleton.1 hm
    rw [hname] at hn
    cases hn
  | none =>
    have hdecl : declaration s (.identifier g x) = .error (.unboundName x) := by
      have hsurface : s.bindings.name? (Expr.identifier g x).surface = none := hname
      unfold declaration
      rw [hsurface]
      rfl
    unfold identifier
    rw [hdecl]
    refine (Tells.reject _ _).mono fun _ hin g' x' hm _ => ?_
    cases List.mem_singleton.1 hm
    exact .inl hin

/-- The type that a node was given, or else a report. -/
theorem tells_typeOf? (id : IrId) (l : Location) (p : Problem) :
    Tells D (fun r => ⟨.error, p, l⟩ ∈ D ∨ r ≠ none) (do
      match ← typeOf? id with
      | none => reject l p
      | some t => return some t) := by
  refine (Tells.of_meets (meets_typeOf? id)).second fun r => ?_
  cases r with
  | none => exact (Tells.reject l p).mono fun _ => .inl
  | some t => exact .pure (.inr nofun)

/-- The type of a callee is missing only if the call is given up. -/
theorem tells_calleeType (h : Head) (callee : Expr) (args : List Expr) :
    Tells D (fun r => Dismissed s D (.call h callee args) ∨
        r ≠ none ∧ LeadsToNode s h.id.crate (s.bindings.name? callee.surface))
      (calleeType s (.call h callee args) callee) := by
  unfold calleeType
  split
  · rename_i hdecl
    exact (Tells.reject _ _).mono fun _ hin => .inl ⟨_, .callee hdecl, hin⟩
  · rename_i decl hdecl
    split
    · rename_i hnode
      exact (Tells.reject _ _).mono fun _ hin => .inl ⟨_, .calleeNode hdecl hnode, hin⟩
    · rename_i id hnode
      have hleads : LeadsToNode s h.id.crate (s.bindings.name? callee.surface) :=
        ⟨decl, id, hdecl, hnode⟩
      exact (tells_typeOf? id _ _).mono fun _ hr =>
        hr.imp (fun hin => ⟨_, .calleeType hleads, hin⟩) fun hr => ⟨hr, hleads⟩

/-- The type that a struct literal names is missing only if the literal is given up. -/
theorem tells_structType (h : Head) (path : StructPath) (fields : List FieldInit) :
    Tells D (fun r => Dismissed s D (.struct h path fields) ∨
        r ≠ none ∧ LeadsToNode s path.id.crate (s.bindings.type? path.id.surface))
      (structType s (.struct h path fields) path) := by
  unfold structType
  split
  · rename_i hdecl
    exact (Tells.reject _ _).mono fun _ hin => .inl ⟨_, .path hdecl, hin⟩
  · rename_i decl hdecl
    split
    · rename_i hnode
      exact (Tells.reject _ _).mono fun _ hin => .inl ⟨_, .pathNode hdecl hnode, hin⟩
    · rename_i id hnode
      have hleads : LeadsToNode s path.id.crate (s.bindings.type? path.id.surface) :=
        ⟨decl, id, hdecl, hnode⟩
      exact (tells_typeOf? id _ _).mono fun _ hr =>
        hr.imp (fun hin => ⟨_, .pathType hleads, hin⟩) fun hr => ⟨hr, hleads⟩

/-! ## Expressions -/

mutual

/-- Checking an expression reports the names in it that mean nothing. -/
theorem announces_expr : ∀ (e : Expr) (final : Bool), Announces s D e.parts (expr s e final)
  | .literal h lit, _ => by
    rw [expr]
    exact .node nofun ((Tells.of_meets (meets_literal lit)).second fun _ => .pure .nil)
  | .identifier h name, _ => by
    rw [expr]
    exact .recording (announces_identifier h name false)
  | .ret h none, _ => by
    rw [expr]
    refine .node nofun ((Tells.of_meets meets_return?).second fun r => ?_)
    cases r with
    | none => exact .defect _
    | some result => exact (Tells.reconcile ..).mono fun _ _ => .nil
  | .ret h (some value), _ => by
    rw [expr]
    refine .node nofun ((Tells.of_meets meets_return?).second fun r => ?_)
    cases r with
    | none => exact .defect _
    | some result =>
      refine (announces_expr value false).first fun v => ?_
      cases v with
      | none => exact .pure trivial
      | some t => exact .reconcile ..
  | .call h callee args, _ => by
    rw [expr]
    refine .deferring nofun nofun (tells_calleeType h callee args) rfl fun t => ?_
    cases t with
    | error r =>
      exact ((announces_exprs args).discard.first fun _ => .pure trivial).mono fun _ ht _ => .inr ht
    | fn r params result =>
      dsimp only
      split
      · rename_i hl
        exact (Tells.reject _ _).mono fun _ hin hn => .inl ⟨_, .argumentCount hn hl, hin⟩
      · rename_i hl
        exact ((announces_arguments params args (Decidable.not_not.1 hl)).first fun _ =>
          .pure trivial).mono fun _ ht _ => .inr ht
    | _ => exact (Tells.reject _ _).mono fun _ hin hn =>
        .inl ⟨_, .notAFunction hn (by nofun) (by nofun), hin⟩
  | .assign h target value, _ => by
    by_cases hn : ∀ g name, target ≠ .identifier g name
    · rw [expr_assign hn]
      exact .node nofun ((announces_expr target false).append fun _ =>
        (announces_expr value false).first fun _ => .of_meets (meets_assigned h _ _ _))
    · obtain ⟨g, name, rfl⟩ : ∃ g name, target = .identifier g name := by simpa using hn
      rw [expr]
      exact .node nofun ((announces_identifier g name true).recording.append fun _ =>
        (announces_expr value false).first fun _ => .of_meets (meets_assigned h _ _ _))
  | .binary h op lhs rhs, _ => by
    rw [expr]
    exact .node nofun ((announces_expr lhs false).append fun _ =>
      (announces_expr rhs false).first fun _ => .of_meets (meets_combined h.locus _ _))
  | .ifOnly h condition body, _ => by
    rw [expr]
    exact .node nofun ((announces_expr condition false).discard.append fun _ =>
      (announces_expr body false).discard.first fun _ => .pure trivial)
  | .ifElse h condition thenBody elseBody, false => by
    rw [expr]
    exact .node nofun ((announces_expr condition false).discard.append fun _ =>
      (announces_expr thenBody false).discard.append fun _ =>
      (announces_expr elseBody false).discard.first fun _ => .pure trivial)
  | .ifElse h condition thenBody elseBody, true => by
    rw [expr]
    refine .node nofun ((Tells.of_meets meets_return?).second fun r => ?_)
    cases r with
    | none => exact .defect _
    | some expected =>
      exact (announces_expr condition false).discard.append fun _ =>
        (announces_expr thenBody true).append fun _ =>
        (announces_expr elseBody true).first fun _ => .of_meets (meets_branches expected _ _ _ _)
  | .ifElseIf h condition thenBody elseIf, _ => by
    rw [expr]
    exact .node nofun ((announces_expr condition false).discard.append fun _ =>
      (announces_expr thenBody false).discard.append fun _ =>
      (announces_expr elseIf false).discard.first fun _ => .pure trivial)
  | .block h body none, _ => by
    rw [expr]
    exact .node nofun ((announces_stmts body).first fun _ => .pure trivial)
  | .block h body (some tail), final => by
    rw [expr]
    exact .node nofun ((announces_stmts body).append fun _ => announces_expr tail final)
  | .index h base position, _ => by
    rw [expr]
    -- the index is checked before the array, which stands before it
    exact .node nofun (((announces_expr position false).bind fun p =>
      (Tells.of_meets (meets_checkIndex position.ir p)).second fun _ =>
      (announces_expr base false).first fun b => .of_meets (meets_elementOf b p base.locus)).mono
        fun _ ⟨_, hposition, hbase⟩ => hbase.append hposition)
  | .array h [], _ => by
    rw [expr]
    exact .node nofun ((Tells.reject _ _).mono fun _ _ => .nil)
  | .array h (first :: rest), _ => by
    rw [expr]
    exact .node nofun ((announces_expr first false).append fun _ =>
      (announces_exprs rest).first fun _ => .of_meets (meets_arrayOf h.id.ir _ _ _))
  | .copies h element count, _ => by
    rw [expr]
    refine .node nofun ((announces_expr element false).first fun r => ?_)
    cases r with
    | none => exact .pure trivial
    | some t => exact .pure trivial
  | .struct h path fields, _ => by
    rw [expr]
    refine .deferring nofun nofun (tells_structType h path fields) rfl fun t => ?_
    cases t with
    | struct r name decls =>
      exact ((announces_fieldInits name decls fields).first fun _ =>
        (Tells.of_meets (meets_missingFields h.locus name _ decls)).second fun _ =>
        .pure trivial).mono fun _ ht _ => .inr ht
    | _ => exact (Tells.reject _ _).mono fun _ hin hn =>
        .inl ⟨_, .notAStruct hn (by nofun), hin⟩

theorem announces_exprs : ∀ es : List Expr, Announces s D (Expr.partsAll es) (exprs s es)
  | [] => .pure .nil
  | e :: rest => by
    rw [exprs]
    exact (announces_expr e false).append fun _ =>
      (announces_exprs rest).first fun _ => .pure trivial

theorem announces_arguments : ∀ (params : Members) (es : List Expr), params.length = es.length →
    Announces s D (Expr.partsAll es) (arguments s params es)
  | .nil, [], _ => by
    rw [arguments]
    · exact .pure .nil
    · nofun
  | .cons name param params, e :: rest, hl => by
    rw [arguments]
    exact (announces_expr e false).append fun _ => (Tells.of_meets (meets_fits param _ _)).second
      fun _ => (announces_arguments params rest (Nat.succ.inj hl)).first fun _ => .pure trivial

theorem announces_fieldInits (struct : String) (decls : Members) : ∀ fs : List FieldInit,
    Announces s D (FieldInit.partsAll fs) (fieldInits s struct decls fs)
  | [] => .pure .nil
  | .mk h name value :: rest => by
    rw [fieldInits]
    exact ((announces_expr value false).append fun _ =>
      (Tells.of_meets (meets_fieldInit h _ _ _)).second fun _ =>
      (announces_fieldInits struct decls rest).first fun _ => .pure trivial).mono
        fun _ ht => .cons nofun ht

theorem announces_stmt : ∀ st : Stmt, Announces s D st.parts (stmt s st)
  | .expr e => by
    rw [stmt]
    exact (announces_expr e false).discard
  | .bind h pattern annotated none =>
    (Tells.of_meets (meets_stmt _)).mono fun _ _ => .cons nofun (.ascribed annotated)
  | .bind h pattern annotated (some init) => by
    rw [stmt]
    refine Tells.mono (T := fun _ => Told s D init.parts) ?_ fun _ ht =>
      .cons nofun ((Told.ascribed annotated).append ht)
    exact (Tells.of_meets (meets_typeExpr? annotated)).second fun a =>
      (announces_expr init false).first fun v =>
      .of_meets ((meets_letType h.id.ir a v init.locus).bind fun t =>
        (meets_record pattern.id.ir t).bind fun _ => meets_record h.id.ir t)

theorem announces_stmts : ∀ sts : List Stmt, Announces s D (Stmt.partsAll sts) (stmts s sts)
  | [] => .pure .nil
  | st :: rest => by
    rw [stmts]
    exact (announces_stmt st).append fun _ => announces_stmts rest

end

/-! ## Programs -/

theorem announces_functionBody (id : IrId) (d : FunctionDecl) :
    Announces s D d.body.parts (functionBody s id d) := by
  refine (Tells.of_meets (meets_typeOf? id)).second fun r => ?_
  split
  · rename_i result
    refine (Tells.of_meets (meets_note _)).second fun _ =>
      ((announces_expr d.body true).inFunction result).first fun bodyType => ?_
    exact .of_meets (meets_tail result d.body.tail? bodyType)
  · exact .defect _

theorem announces_initialValue (i : Item) (value : Expr) :
    Announces s D value.parts (initialValue s i value) := by
  refine (Tells.of_meets (meets_typeOf? _)).second fun r => ?_
  cases r with
  | none => exact .defect _
  | some declared =>
    refine (announces_expr value false).first fun v => ?_
    cases v with
    | none => exact .pure trivial
    | some t => exact (Tells.reconcile ..).discard

theorem announces_body (i : Item) : Announces s D i.bodyParts (body s i) := by
  obtain ⟨h, k⟩ := i
  cases k with
  | function d => exact announces_functionBody _ d
  | struct d => exact .pure .nil
  | constant d => exact announces_initialValue _ d.value
  | static d => exact announces_initialValue _ d.value

/-- Checking a program reports the names that mean nothing in all its bodies and initial values. -/
theorem tells_program (p : Program) :
    Tells D (fun _ => ∀ i ∈ p.items, Told s D i.bodyParts) (program s p) :=
  (Tells.of_meets (meets_note _)).second fun _ =>
    (Tells.of_meets (meets_forM meets_signature _)).second fun _ => .forM announces_body p.items

end Check

/-! ## Sessions -/

namespace Session

open Check

/-- Where the first check of a unit ends well, every name in a body or an initial value that means
nothing is reported where it stands, or stands in a call or a struct literal that was given up. -/
theorem unbound_reported (u : CompilationUnit) (hok : (ofUnit u).check.1 = .ok ()) :
    ∀ i ∈ u.program.items, ∀ g x, .expr (.identifier g x) ∈ i.bodyParts →
      (ofUnit u).scope.bindings.name? g.id.surface = none →
        ⟨.error, .unboundName x, g.locus⟩ ∈ (ofUnit u).check.2.diagnostics ∨
          ∃ e, .expr e ∈ i.bodyParts ∧ Dismissed (ofUnit u).scope (ofUnit u).check.2.diagnostics e ∧
            .expr (.identifier g x) ∈ e.deferred :=
  (tells_program u.program).tells (ofUnit u).progress () (ofUnit u).check.2.progress
    (Prod.ext hok rfl) (List.Subset.refl _)

open Samples in
/-- In `refusing` the name `y` is not reported, since the call it stands in was given up. -/
theorem unbound_reported_refusing : (ofUnit refusing).check.1 = .ok () ∧
    ⟨.error, .unboundName "y", (head 5).locus⟩ ∉ (ofUnit refusing).check.2.diagnostics ∧
    ∃ i ∈ refusing.program.items, ∃ e, .expr e ∈ i.bodyParts ∧
      Dismissed (ofUnit refusing).scope (ofUnit refusing).check.2.diagnostics e ∧
      .expr (name 5 "y") ∈ e.deferred := by
  have hok : (ofUnit refusing).check.1 = .ok () := by decide +kernel
  have hmissing : ⟨.error, .unboundName "y", (head 5).locus⟩ ∉
      (ofUnit refusing).check.2.diagnostics := by
    decide +kernel
  have hunbound : (ofUnit refusing).scope.bindings.name? ⟨5⟩ = none := by decide +kernel
  obtain ⟨i, hi, hin⟩ : ∃ i ∈ refusing.program.items, .expr (name 5 "y") ∈ i.bodyParts :=
    ⟨_, List.mem_singleton_self _, .tail _ (.tail _ (.tail _ (.head _)))⟩
  exact ⟨hok, hmissing, i, hi,
    (unbound_reported refusing hok i hi (head 5) "y" hin hunbound).resolve_left hmissing⟩

end Session

end MiddleEnd
