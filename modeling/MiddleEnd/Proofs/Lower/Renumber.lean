/-
  Lowering under other numbers. From tables that renumber others every step of lowering builds the
  very same C program, or comes to the renumbered fault (`Lower.mirrors_program`): identities are
  read only to look up what was built for them.
-/
import MiddleEnd.Proofs.Check.Translate
import MiddleEnd.Proofs.Lower.Emitted

namespace MiddleEnd

open Std

variable {ρ : Renumbering}

/-- The same tables to lower with, under new numbers. -/
structure Checked.Renumbers (ρ : Renumbering) (k k' : Checked) : Prop where
  scope : k.scope.Renumbers ρ k'.scope
  types : k.types.Renumbers ρ k'.types

/-- The same C program, and the same parts of it built for the renumbered nodes. -/
structure Lowering.Renumbers (ρ : Renumbering) (l l' : Lowering) : Prop where
  c : l'.c = l.c
  types : ∀ i, l'.types[ρ.ir i]? = l.types[i]?
  functions : ∀ i, l'.functions[ρ.ir i]? = l.functions[i]?
  vars : ∀ i, l'.vars[ρ.ir i]? = l.vars[i]?
  constants : ∀ i, l'.constants[ρ.ir i]? = l.constants[i]?
  active : l'.active = l.active
  blocks : l'.blocks = l.blocks
  declared : l'.declared = l.declared

theorem Lowering.renumbers_empty (target : String) :
    Renumbers ρ (empty target) (empty target) :=
  ⟨rfl, fun _ => rfl, fun _ => rfl, fun _ => rfl, fun _ => rfl, rfl, rfl, rfl⟩

/-- What is built for a node is found at its new number. -/
theorem getElem?_insert_renumber {β : Type} (hρ : ρ.Injective) {m m' : TreeMap IrId β}
    (h : ∀ i, m'[ρ.ir i]? = m[i]?) (i : IrId) (b : β) (j : IrId) :
    (m'.insert (ρ.ir i) b)[ρ.ir j]? = (m.insert i b)[j]? := by
  simp only [TreeMap.getElem?_insert, Std.compare_eq_iff_eq, hρ.ir.eq_iff, h]

namespace Lower

variable {α β : Type} {k k' : Checked}

/-- Steps of two lowerings whose tables renumber each other. -/
abbrev Mirrors (ρ : Renumbering) (φ : α → β) (m : Lower α) (m' : Lower β) : Prop :=
  MiddleEnd.Mirrors (Lowering.Renumbers ρ) (fun e e' => e' = e.renumber ρ) φ m m'

/-! ## Single steps -/

theorem mirrors_defect {φ : α → β} (d : Defect) :
    Mirrors ρ φ (defect d) (defect (d.renumber ρ)) :=
  .throw rfl

theorem mirrors_require {φ : α → β} (d : Defect) (o : Option α) :
    Mirrors ρ φ (require d o) (require (d.renumber ρ) (o.map φ)) := by
  cases o with
  | none => exact mirrors_defect d
  | some a => exact .pure rfl

theorem mirrors_pure (a : α) : Mirrors ρ id (pure a) (pure a) := .pure rfl

theorem mirrors_require_same (d : Defect) (o : Option α) :
    Mirrors ρ id (require d o) (require (d.renumber ρ) o) := by
  have h := mirrors_require (ρ := ρ) (φ := id) d o
  rwa [Option.map_id] at h

theorem mirrors_note (e e' : Event) : Mirrors ρ id (note e) (note e') :=
  .modify fun _ _ h => ⟨h.c, h.types, h.functions, h.vars, h.constants, h.active, h.blocks,
    h.declared⟩

theorem mirrors_look (f : C.Program → α) : Mirrors ρ id (look f) (look f) :=
  .get fun _ _ h => .pure (congrArg f h.c)

theorem mirrors_build (f : C.Program → α × C.Program) : Mirrors ρ id (build f) (build f) := by
  refine .get fun l l' h => ?_
  rw [h.c]
  exact MiddleEnd.Mirrors.bind (φ := id) (.set ⟨rfl, h.types, h.functions, h.vars, h.constants,
    h.active, h.blocks, h.declared⟩) fun _ => .pure rfl

/-- Defects of the C program show no identities. -/
theorem mirrors_buildOrFail {f : C.Program → Except Defect α × C.Program}
    (hf : ∀ p d, (f p).1 = .error d → d.renumber ρ = d) :
    Mirrors ρ id (buildOrFail f) (buildOrFail f) := by
  intro l l' h
  have hbuild := mirrors_build f h
  unfold buildOrFail
  rw [run_bind, run_bind]
  have hrun : (build f).run.run l = (.ok (f l.c).1, { l with c := (f l.c).2 }) := rfl
  have hrun' : (build f).run.run l' = (.ok (f l'.c).1, { l' with c := (f l'.c).2 }) := rfl
  rw [hrun, hrun', h.c] at hbuild ⊢
  dsimp only
  cases hr : (f l.c).1 with
  | ok a => exact ⟨rfl, hbuild.2⟩
  | error d =>
    have hdefect := mirrors_defect (ρ := ρ) (φ := (id : α → α)) d hbuild.2
    rwa [hf _ _ hr] at hdefect

theorem mirrors_addStmt (st : C.Stmt) : Mirrors ρ id (addStmt st) (addStmt st) := by
  refine .get fun l l' h => ?_
  rw [h.blocks]
  cases l.blocks with
  | nil => exact mirrors_defect .statementOutsideBlock
  | cons b rest => exact .set ⟨h.c, h.types, h.functions, h.vars, h.constants, h.active, rfl,
      h.declared⟩

theorem mirrors_pushBlock (b : C.BlockId) : Mirrors ρ id (pushBlock b) (pushBlock b) := by
  refine .get fun l l' h => (mirrors_note _ _).bind fun _ => .modify fun q q' hq => ?_
  exact ⟨hq.c, hq.types, hq.functions, hq.vars, hq.constants, hq.active,
    congrArg (⟨b, []⟩ :: ·) hq.blocks, hq.declared⟩

theorem mirrors_popBlock : Mirrors ρ id popBlock popBlock := by
  refine .get fun l l' h => ?_
  rw [h.blocks]
  cases l.blocks with
  | nil => exact mirrors_defect .noOpenBlock
  | cons b rest =>
    refine MiddleEnd.Mirrors.bind (φ := id) (.set ⟨h.c, h.types, h.functions, h.vars, h.constants,
      h.active, rfl, h.declared⟩) fun _ => (mirrors_note _ _).bind fun _ =>
      MiddleEnd.Mirrors.bind (φ := id) (.modify fun q q' hq => ?_) fun _ => .pure rfl
    exact ⟨congrArg (·.extendBlock b.block b.pending) hq.c, hq.types, hq.functions, hq.vars,
      hq.constants, hq.active, hq.blocks, hq.declared⟩

theorem mirrors_pushFunction (a : Activation) :
    Mirrors ρ id (pushFunction a) (pushFunction a) :=
  (mirrors_note _ _).bind fun _ => .modify fun _ _ h => ⟨h.c, h.types, h.functions, h.vars,
    h.constants, congrArg (a :: ·) h.active, h.blocks, h.declared⟩

theorem mirrors_popFunction : Mirrors ρ id popFunction popFunction := by
  refine .get fun l l' h => ?_
  rw [h.active]
  cases l.active with
  | nil => exact mirrors_defect .noFunctionToLeave
  | cons a rest => exact MiddleEnd.Mirrors.bind (φ := id) (.set ⟨h.c, h.types, h.functions, h.vars,
      h.constants, rfl, h.blocks, h.declared⟩) fun _ => .pure rfl

theorem mirrors_activation : Mirrors ρ id activation activation := by
  refine .get fun l l' h => ?_
  rw [h.active]
  exact mirrors_require_same .noActiveFunction l.active.head?

theorem mirrors_modifyDeclared (f : C.Program.Declarations → C.Program.Declarations) :
    Mirrors ρ id (modifyDeclared f) (modifyDeclared f) :=
  .modify fun _ _ h => ⟨h.c, h.types, h.functions, h.vars, h.constants, h.active, h.blocks,
    congrArg f h.declared⟩

section

variable (hρ : ρ.Injective)
include hρ

theorem mirrors_setType (i : IrId) (t : C.Ty) :
    Mirrors ρ id (setType i t) (setType (ρ.ir i) t) :=
  .modify fun _ _ h => ⟨h.c, getElem?_insert_renumber hρ h.types i t, h.functions, h.vars,
    h.constants, h.active, h.blocks, h.declared⟩

theorem mirrors_setFunction (i : IrId) (f : C.FunctionId) :
    Mirrors ρ id (setFunction i f) (setFunction (ρ.ir i) f) :=
  .modify fun _ _ h => ⟨h.c, h.types, getElem?_insert_renumber hρ h.functions i f, h.vars,
    h.constants, h.active, h.blocks, h.declared⟩

theorem mirrors_setVariable (i : IrId) (v : C.VarId) :
    Mirrors ρ id (setVariable i v) (setVariable (ρ.ir i) v) :=
  .modify fun _ _ h => ⟨h.c, h.types, h.functions, getElem?_insert_renumber hρ h.vars i v,
    h.constants, h.active, h.blocks, h.declared⟩

theorem mirrors_setConstant (i : IrId) (e : C.Expr) :
    Mirrors ρ id (setConstant i e) (setConstant (ρ.ir i) e) :=
  .modify fun _ _ h => ⟨h.c, h.types, h.functions, h.vars,
    getElem?_insert_renumber hρ h.constants i e, h.active, h.blocks, h.declared⟩

end

/-! ## Types -/

theorem primitiveTy?_renumber (t : Ty) : primitiveTy? (t.renumber ρ) = primitiveTy? t := by
  cases t <;> rfl

theorem mirrors_entered (t : Ty) : Mirrors ρ id (entered t) (entered (t.renumber ρ)) := by
  refine .get fun l l' h => ?_
  rw [Ty.ref_renumber, h.types]
  exact mirrors_require_same (.neverCompiled t) l.types[t.ref]?

/-- A renumbered type has the same C type. -/
theorem mirrors_type : ∀ t : Ty, Mirrors ρ id (type t) (type (t.renumber ρ))
  | .bool r => mirrors_entered (.bool r)
  | .int r w => mirrors_entered (.int r w)
  | .uint r w => mirrors_entered (.uint r w)
  | .float r w => mirrors_entered (.float r w)
  | .struct r name fields => mirrors_entered (.struct r name fields)
  | .array _ element _ => (mirrors_type element).bind fun _ => mirrors_build _
  | .error r => mirrors_defect (.notCompilable (.error r))
  | .unit r => mirrors_defect (.notCompilable (.unit r))
  | .infer r => mirrors_defect (.notCompilable (.infer r))
  | .fn r params result => mirrors_defect (.notCompilable (.fn r params result))
  | .field r name t => mirrors_defect (.notCompilable (.field r name t))
  | .generic r symbol => mirrors_defect (.notCompilable (.generic r symbol))

theorem mirrors_types : ∀ m : Members, Mirrors ρ id (types m) (types (m.renumber ρ))
  | .nil => .pure rfl
  | .cons _ t rest => (mirrors_type t).bind fun _ => (mirrors_types rest).bind fun _ => .pure rfl

theorem mirrors_resultType (t : Ty) : Mirrors ρ id (resultType t) (resultType (t.renumber ρ)) := by
  unfold resultType
  rw [Ty.isUnit_renumber]
  split
  · exact .pure rfl
  · exact (mirrors_type t).bind fun _ => .pure rfl

/-! ## Variables -/

theorem mirrors_temporary (t : Ty) : Mirrors ρ id (temporary t) (temporary (t.renumber ρ)) :=
  (mirrors_type t).bind fun _ => mirrors_activation.bind fun _ => (mirrors_build _).bind fun _ =>
    (mirrors_look _).bind fun _ => (mirrors_addStmt _).bind fun _ => .pure rfl

theorem mirrors_temporary? (t : Ty) :
    Mirrors ρ id (temporary? t) (temporary? (t.renumber ρ)) := by
  unfold temporary?
  rw [Ty.isUnit_renumber]
  split
  · exact .pure rfl
  · exact (mirrors_temporary t).bind fun _ => .pure rfl

theorem mirrors_store (v : C.VarId) (value : C.Expr) :
    Mirrors ρ id (store v value) (store v value) :=
  (mirrors_look _).bind fun _ => mirrors_addStmt _

theorem mirrors_storeIn (target : Option C.VarId) (value : Option C.Expr) :
    Mirrors ρ id (storeIn target value) (storeIn target value) := by
  cases target with
  | none => exact .pure rfl
  | some v =>
    cases value with
    | none => exact .pure rfl
    | some value => exact mirrors_store v value

theorem mirrors_load (target : Option C.VarId) : Mirrors ρ id (load target) (load target) := by
  cases target with
  | none => exact .pure rfl
  | some v => exact mirrors_look _

theorem mirrors_declare (hρ : ρ.Injective) (i : IrId) (name : String) (t : C.Ty)
    (init : Option C.Expr) : Mirrors ρ id (declare i name t init) (declare (ρ.ir i) name t init) :=
  mirrors_activation.bind fun _ => (mirrors_build _).bind fun v =>
    (mirrors_setVariable hρ i v).bind fun _ => (mirrors_look _).bind fun _ => mirrors_addStmt _

theorem mirrors_keep (t : Ty) (value : C.Expr) :
    Mirrors ρ id (keep t value) (keep (t.renumber ρ) value) := by
  refine (mirrors_temporary? t).bind fun v => ?_
  cases v with
  | none => exact .pure rfl
  | some v => exact (mirrors_store v value).bind fun _ => mirrors_look _

theorem mirrors_inBlock (target : Option C.VarId) {m m' : Lower (Option C.Expr)}
    (h : Mirrors ρ id m m') : Mirrors ρ id (inBlock target m) (inBlock target m') :=
  mirrors_activation.discard.bind fun _ => (mirrors_build _).bind fun b =>
    (mirrors_pushBlock b).bind fun _ => h.bind fun v => (mirrors_storeIn target v).bind fun _ =>
    mirrors_popBlock

theorem addsItself_renumber (e : Expr) : addsItself (e.renumber ρ) = addsItself e := by
  cases e with
  | ret h value => cases value <;> rfl
  | block h stmts tail => cases tail <;> rfl
  | _ => rfl

theorem isInert_renumber (e : Expr) : isInert (e.renumber ρ) = isInert e := by
  cases e with
  | ret h value => cases value <;> rfl
  | block h stmts tail => cases tail <;> rfl
  | _ => rfl

theorem mirrors_effect (e : Expr) {m m' : Lower C.Expr} (h : Mirrors ρ id m m') :
    Mirrors ρ id (effect e m) (effect (e.renumber ρ) m') := by
  refine h.bind fun v => ?_
  rw [addsItself_renumber]
  cases addsItself e with
  | true => exact .pure rfl
  | false => exact mirrors_addStmt _

theorem mirrors_effectOnly (e : Expr) {m m' : Lower C.Expr} (h : Mirrors ρ id m m') :
    Mirrors ρ id (effectOnly e m) (effectOnly (e.renumber ρ) m') :=
  (mirrors_effect e h).bind fun _ => .pure rfl

theorem mirrors_inDeclaredOrder (struct : String) : ∀ (names : List String)
    (given : List (String × C.Expr)),
    Mirrors ρ id (inDeclaredOrder struct given names) (inDeclaredOrder struct given names)
  | [], _ => .pure rfl
  | name :: rest, given =>
    (mirrors_require_same (.missingFieldValue struct name) (given.lookup name)).bind fun _ =>
      (mirrors_inDeclaredOrder struct rest (given.filter (·.1 ≠ name))).bind fun _ => .pure rfl

/-! ## Names and types of nodes -/

section

variable (hk : k.Renumbers ρ k')
include hk

theorem mirrors_typeOf (i : IrId) :
    Mirrors ρ (Ty.renumber ρ) (typeOf k i) (typeOf k' (ρ.ir i)) := by
  unfold typeOf
  rw [hk.types.get?]
  exact mirrors_require (.untypedNode i) (k.types.get? i)

theorem mirrors_declaration (e : Expr) :
    Mirrors ρ ρ.ir (declaration k e) (declaration k' (e.renumber ρ)) := by
  unfold declaration
  rw [Expr.text_renumber, Expr.surface_renumber, Expr.head_renumber, hk.scope.bindings.name?]
  refine (mirrors_require (.unresolvedName e.text) _).bind fun decl => ?_
  rw [hk.scope.bindings.definition?]
  refine (mirrors_require (.noDefinition e.text) _).bind fun d => ?_
  have hnode := hk.scope.registry.node? ⟨e.head.id.crate, d.parent⟩
  simp only [Site.renumber] at hnode
  simp only [Definition.renumber, Head.renumber_crate, hnode]
  exact mirrors_require (.noSuchNode e.text) _

theorem mirrors_identifier (e : Expr) (name : String) :
    Mirrors ρ id (identifier k e name) (identifier k' (e.renumber ρ) name) := by
  refine (mirrors_declaration hk e).bind fun i => .get fun l l' h => ?_
  rw [h.vars, h.constants, h.c]
  cases l.vars[i]? with
  | none => exact mirrors_require_same (.notAValue name) l.constants[i]?
  | some v => exact .pure rfl

theorem mirrors_callee (e : Expr) :
    Mirrors ρ id (callee k e) (callee k' (e.renumber ρ)) := by
  unfold callee
  rw [Expr.text_renumber, Expr.surface_renumber, Expr.head_renumber, hk.scope.bindings.name?]
  refine (mirrors_require (.unresolvedCallee e.text) _).bind fun decl => ?_
  have hnode := hk.scope.registry.node? ⟨e.head.id.crate, decl⟩
  simp only [Site.renumber] at hnode
  simp only [Head.renumber_crate, hnode]
  refine (mirrors_require (.noSuchNode e.text) _).bind fun i => .get fun l l' h => ?_
  rw [h.functions]
  exact mirrors_require_same (.notADeclaredFunction e.text) l.functions[i]?

omit hk in
theorem isFloat_renumber (t : Ty) : isFloat (t.renumber ρ) = isFloat t := by
  cases t <;> rfl

theorem mirrors_literal (i : IrId) (lit : Literal) :
    Mirrors ρ id (literal k i lit) (literal k' (ρ.ir i) lit) := by
  refine (mirrors_typeOf hk i).bind fun t => ?_
  have hfloat : ∀ spelling, Mirrors ρ id (literal.float lit t spelling)
      (literal.float lit (t.renumber ρ) spelling) := fun spelling =>
    (mirrors_require_same (.malformedLiteral lit.spelling) _).bind fun _ =>
      (mirrors_type t).bind fun _ => .pure rfl
  dsimp only
  rw [isFloat_renumber]
  cases lit.kind with
  | bool =>
    exact (mirrors_require_same (.malformedLiteral lit.spelling) _).bind fun _ => .pure rfl
  | float => exact hfloat _
  | int =>
    dsimp only
    split
    · exact hfloat _
    · exact (mirrors_require_same (.malformedLiteral lit.spelling) _).bind fun _ =>
        (mirrors_type t).bind fun _ => .pure rfl

theorem mirrors_hasValue (e : Expr) :
    Mirrors ρ id (hasValue k e) (hasValue k' (e.renumber ρ)) := by
  have htype : Mirrors ρ id (do return !(← typeOf k e.ir).isUnit)
      (do return !(← typeOf k' (e.renumber ρ).ir).isUnit) := by
    rw [Expr.ir_renumber]
    refine (mirrors_typeOf hk e.ir).bind fun t => .pure ?_
    rw [Ty.isUnit_renumber]
    rfl
  cases e with
  | ret h value => cases value <;> exact .pure rfl
  | block h stmts tail => cases tail <;> exact htype
  | _ => exact htype

end

/-! ## Expressions and statements -/

theorem mirrors_branch_of_expr {e : Expr} (hb : ∀ g ss tail, e ≠ .block g ss tail)
    (h : Mirrors ρ id (expr k e) (expr k' (e.renumber ρ))) :
    Mirrors ρ id (branch k e) (branch k' (e.renumber ρ)) := by
  have heffect := mirrors_effectOnly e h
  cases e with
  | block g ss tail => exact absurd rfl (hb g ss tail)
  | ret h value => cases value <;> exact heffect
  | _ => exact heffect

/-- Lowering the expression, by itself and as a branch, builds the same under new numbers. -/
structure MirrorsAll (ρ : Renumbering) (k k' : Checked) (e : Expr) : Prop where
  expr : Mirrors ρ id (expr k e) (Lower.expr k' (e.renumber ρ))
  branch : Mirrors ρ id (branch k e) (Lower.branch k' (e.renumber ρ))

theorem mirrorsAll_of_expr {e : Expr}
    (hb : ∀ g ss tail, e ≠ .block g ss tail)
    (h : Mirrors ρ id (expr k e) (expr k' (e.renumber ρ))) : MirrorsAll ρ k k' e :=
  ⟨h, mirrors_branch_of_expr hb h⟩

mutual

theorem mirrorsAll (hρ : ρ.Injective) (hk : k.Renumbers ρ k') : ∀ e : Expr, MirrorsAll ρ k k' e
  | .literal h lit => mirrorsAll_of_expr (by simp) (mirrors_literal hk h.id.ir lit)
  | .identifier h name =>
    mirrorsAll_of_expr (by simp) (mirrors_identifier hk (.identifier h name) name)
  | .ret _ none => mirrorsAll_of_expr (by simp)
    (mirrors_activation.discard.bind fun _ => (mirrors_addStmt _).bind fun _ => .pure rfl)
  | .ret _ (some value) => mirrorsAll_of_expr (by simp)
    ((mirrorsAll hρ hk value).expr.bind fun _ => mirrors_activation.discard.bind fun _ =>
      (mirrors_addStmt _).bind fun _ => .pure rfl)
  | .call _ f args => mirrorsAll_of_expr (by simp)
    ((mirrors_callee hk f).bind fun _ => (mirrors_exprs hρ hk args).bind fun _ => mirrors_look _)
  | .assign _ target value => mirrorsAll_of_expr (by simp)
    ((mirrorsAll hρ hk target).expr.bind fun _ => (mirrorsAll hρ hk value).expr.bind fun _ =>
      (mirrors_addStmt _).bind fun _ => .pure rfl)
  | .binary _ op lhs rhs => mirrorsAll_of_expr (by simp)
    ((mirrorsAll hρ hk lhs).expr.bind fun _ => (mirrorsAll hρ hk rhs).expr.bind fun _ =>
      .pure rfl)
  | .ifOnly h condition body => by
    refine mirrorsAll_of_expr (by simp) ?_
    rw [Expr.renumber, expr_ifOnly, expr_ifOnly]
    exact (mirrorsAll hρ hk condition).expr.bind fun _ =>
      (mirrors_inBlock none (mirrorsAll hρ hk body).branch).bind fun _ =>
      (mirrors_addStmt _).bind fun _ => .pure rfl
  | .ifElse h condition thenBody elseBody => by
    refine mirrorsAll_of_expr (by simp) ?_
    rw [Expr.renumber, expr_ifElse, expr_ifElse]
    exact (mirrors_typeOf hk h.id.ir).bind fun t => (mirrorsAll hρ hk condition).expr.bind fun _ =>
      (mirrors_temporary? t).bind fun target =>
      (mirrors_inBlock target (mirrorsAll hρ hk thenBody).branch).bind fun _ =>
      (mirrors_inBlock target (mirrorsAll hρ hk elseBody).branch).bind fun _ =>
      (mirrors_addStmt _).bind fun _ => mirrors_load target
  | .ifElseIf h condition thenBody elseIf => by
    refine mirrorsAll_of_expr (by simp) ?_
    rw [Expr.renumber, expr_ifElseIf, expr_ifElseIf]
    exact (mirrorsAll hρ hk condition).expr.bind fun _ =>
      (mirrors_inBlock none (mirrorsAll hρ hk thenBody).branch).bind fun _ =>
      (mirrors_inBlock none (mirrorsAll hρ hk elseIf).branch).bind fun _ =>
      (mirrors_addStmt _).bind fun _ => .pure rfl
  | .block h ss none => by
    have hbranch : Mirrors ρ id (branch k (.block h ss none))
        (branch k' (.block (h.renumber ρ) (Stmt.renumberAll ρ ss) none)) :=
      (mirrors_stmts hρ hk ss).bind fun _ => .pure rfl
    exact ⟨(mirrors_typeOf hk h.id.ir).bind fun t => (mirrors_temporary? t).bind fun target =>
      (mirrors_inBlock target hbranch).bind fun _ => (mirrors_addStmt _).bind fun _ =>
      mirrors_load target, hbranch⟩
  | .block h ss (some e) => by
    have htail : Mirrors ρ id (tailValue k (some e)) (tailValue k' (some (e.renumber ρ))) := by
      refine (mirrors_hasValue hk e).bind fun b => ?_
      cases b with
      | true => exact (mirrorsAll hρ hk e).expr.bind fun _ => .pure rfl
      | false => exact mirrors_effectOnly e (mirrorsAll hρ hk e).expr
    have hbranch : Mirrors ρ id (branch k (.block h ss (some e)))
        (branch k' (.block (h.renumber ρ) (Stmt.renumberAll ρ ss) (some (e.renumber ρ)))) :=
      (mirrors_stmts hρ hk ss).bind fun _ => htail
    exact ⟨(mirrors_typeOf hk h.id.ir).bind fun t => (mirrors_temporary? t).bind fun target =>
      (mirrors_inBlock target hbranch).bind fun _ => (mirrors_addStmt _).bind fun _ =>
      mirrors_load target, hbranch⟩
  | .index _ base position => mirrorsAll_of_expr (by simp)
    ((mirrorsAll hρ hk base).expr.bind fun _ => (mirrorsAll hρ hk position).expr.bind fun _ =>
      .pure rfl)
  | .array h values => mirrorsAll_of_expr (by simp)
    ((mirrors_typeOf hk h.id.ir).bind fun t => (mirrors_type t).bind fun _ =>
      (mirrors_exprs hρ hk values).bind fun _ => .pure rfl)
  | .copies h element count => mirrorsAll_of_expr (by simp)
    ((mirrors_typeOf hk h.id.ir).bind fun t => (mirrors_type t).bind fun ct =>
      (mirrorsAll hρ hk element).expr.bind fun v =>
        mirrors_pure (C.Expr.array ct (List.replicate count.toNat v)))
  | .struct h path fields => mirrorsAll_of_expr (by simp)
    ((mirrors_typeOf hk h.id.ir).bind fun t => by
      dsimp only
      rw [Ty.struct?_renumber]
      cases t.struct? with
      | none => exact mirrors_defect (.structLiteralType path.name t)
      | some found =>
        have hnames : (found.2.renumber ρ).toList.map (·.1) = found.2.toList.map (·.1) := by
          rw [Members.toList_renumber, List.map_map]
          rfl
        refine (mirrors_type t).bind fun ct => ?_
        rw [hnames, FieldInit.map_name_renumberAll]
        exact (mirrors_fields hρ hk _ fields).bind fun given =>
          (mirrors_inDeclaredOrder path.name (found.2.toList.map (·.1)) given.reverse).bind
            fun values => mirrors_pure (C.Expr.struct ct values))

theorem mirrors_exprs (hρ : ρ.Injective) (hk : k.Renumbers ρ k') : ∀ es : List Expr,
    Mirrors ρ id (exprs k es) (exprs k' (Expr.renumberAll ρ es))
  | [] => .pure rfl
  | e :: rest => (mirrorsAll hρ hk e).expr.bind fun _ =>
    (mirrors_exprs hρ hk rest).bind fun _ => .pure rfl

theorem mirrors_fields (hρ : ρ.Injective) (hk : k.Renumbers ρ k') (inOrder : Bool) :
    ∀ fs : List FieldInit,
    Mirrors ρ id (fieldInits k inOrder fs) (fieldInits k' inOrder (FieldInit.renumberAll ρ fs))
  | [] => .pure rfl
  | .mk _ name value :: rest => by
    refine (mirrorsAll hρ hk value).expr.bind fun v => ?_
    rw [isInert_renumber, Expr.ir_renumber]
    split
    · exact (mirrors_fields hρ hk inOrder rest).bind fun _ => .pure rfl
    · exact (mirrors_typeOf hk value.ir).bind fun t => (mirrors_keep t v).bind fun _ =>
        (mirrors_fields hρ hk inOrder rest).bind fun _ => .pure rfl

theorem mirrors_stmt (hρ : ρ.Injective) (hk : k.Renumbers ρ k') : ∀ st : Stmt,
    Mirrors ρ id (stmt k st) (stmt k' (st.renumber ρ))
  | .expr e => mirrors_effect e (mirrorsAll hρ hk e).expr
  | .bind h pattern ascribed none => (mirrors_typeOf hk h.id.ir).bind fun t => by
    rw [Ty.isUnit_renumber, Ty.isInfer_renumber]
    split
    · exact .pure rfl
    · exact (mirrors_type t).bind fun ct => mirrors_declare hρ h.id.ir pattern.name ct none
  | .bind h pattern ascribed (some init) => (mirrors_typeOf hk h.id.ir).bind fun t => by
    rw [Ty.isUnit_renumber, Ty.isInfer_renumber]
    split
    · exact mirrors_effect init (mirrorsAll hρ hk init).expr
    · exact (mirrors_type t).bind fun ct => (mirrorsAll hρ hk init).expr.bind fun v =>
        mirrors_declare hρ h.id.ir pattern.name ct (some v)

theorem mirrors_stmts (hρ : ρ.Injective) (hk : k.Renumbers ρ k') : ∀ sts : List Stmt,
    Mirrors ρ id (stmts k sts) (stmts k' (Stmt.renumberAll ρ sts))
  | [] => .pure rfl
  | st :: rest => (mirrors_stmt hρ hk st).bind fun _ => mirrors_stmts hρ hk rest

end

/-! ## Programs -/

theorem setBody_error_renumber {p : C.Program} {f : C.FunctionId} {b : C.BlockId} {e : Defect}
    (h : (p.setBody f b).1 = .error e) : e.renumber ρ = e := by
  unfold C.Program.setBody at h
  split at h
  · cases h
  · cases h
    rfl

theorem error_mem_of_untilDefect {e : Defect} : ∀ lines : List (Except Defect String),
    (C.Program.untilDefect lines).2 = some e → .error e ∈ lines
  | .ok _ :: rest, h => List.mem_cons_of_mem _ (error_mem_of_untilDefect rest h)
  | .error _ :: _, h => by
    cases h
    exact List.mem_cons_self ..

theorem mirrors_finish (slot : Option C.VarId) (value : Option C.Expr) :
    Mirrors ρ id (finish slot value) (finish slot value) := by
  cases value with
  | none => exact .pure rfl
  | some value =>
    cases slot with
    | none => exact mirrors_addStmt _
    | some v => exact (mirrors_store v value).bind fun _ => (mirrors_look _).bind fun _ =>
        mirrors_addStmt _

/-- The end of filling a function, once its parameters and its result slot are there. -/
theorem mirrors_fill (f : C.FunctionId) (slot : Option C.VarId) (name : String)
    {m m' : Lower (Option C.Expr)} (h : Mirrors ρ id m m') : Mirrors ρ id
      (do
        finish slot (← m)
        discard popFunction
        let body ← popBlock
        buildOrFail (·.setBody f body)
        declareFunction f
        note (.lowered name))
      (do
        finish slot (← m')
        discard popFunction
        let body ← popBlock
        buildOrFail (·.setBody f body)
        declareFunction f
        note (.lowered name)) :=
  h.bind fun v => (mirrors_finish slot v).bind fun _ => mirrors_popFunction.discard.bind fun _ =>
    mirrors_popBlock.bind fun _ => MiddleEnd.Mirrors.bind (φ := id)
      (mirrors_buildOrFail fun _ _ => setBody_error_renumber) fun _ =>
      (mirrors_modifyDeclared _).bind fun _ => mirrors_note _ _

/-- What cannot be written is a constant or a variable, and shown by its name. -/
theorem write_error_renumber {p : C.Program} {d : C.Program.Declarations} {e : Defect}
    (h : (p.write d).1 = .error e) : e.renumber ρ = e := by
  have hdefect : (C.Program.untilDefect (p.lines d)).2 = some e := by
    revert h
    unfold C.Program.write
    rcases C.Program.untilDefect (p.lines d) with ⟨lines, _ | x⟩
    · exact nofun
    · rintro ⟨⟩
      rfl
  have hm := error_mem_of_untilDefect (p.lines d) hdefect
  simp only [C.Program.lines, List.mem_append, List.mem_map, List.mem_singleton, reduceCtorEq,
    and_false, exists_false, false_or, or_false] at hm
  rcases hm with ⟨c, _, hc⟩ | ⟨v, _, hv⟩
  · unfold C.Program.constantLine at hc
    split at hc <;> cases hc
    rfl
  · unfold C.Program.globalLine at hv
    split at hv <;> cases hv <;> rfl

theorem mirrors_write : Mirrors ρ id write write := by
  refine .get fun l l' h => (mirrors_note _ _).bind fun _ => ?_
  rw [h.declared]
  exact MiddleEnd.Mirrors.bind (φ := id) (mirrors_buildOrFail fun _ _ => write_error_renumber)
    fun _ => .get fun _ _ _ => mirrors_note _ _

theorem mirrors_enterPrimitives (hρ : ρ.Injective) (hk : k.Renumbers ρ k') :
    Mirrors ρ id (enterPrimitives k) (enterPrimitives k') := by
  unfold enterPrimitives
  rw [hk.scope.bindings.builtins]
  refine .forM fun b _ => ?_
  have hnode : k'.types.builtinId? (b.renumber ρ).node = _ := hk.types.builtinId? b.node
  rw [hnode]
  refine (mirrors_require (.builtinWithoutId b.name) _).bind fun i => ?_
  rw [hk.types.get?]
  refine (mirrors_require (.builtinWithoutType b.name) _).bind fun t => ?_
  unfold primitive
  rw [primitiveTy?_renumber]
  exact MiddleEnd.Mirrors.bind (mirrors_require_same (.notABuiltin t) _) fun ct =>
    mirrors_setType hρ i ct

theorem mirrors_params (hρ : ρ.Injective) (f : C.FunctionId) : ∀ (ps : List Param) (ts : Members),
    Mirrors ρ id (params f ps ts) (params f (ps.map (Param.renumber ρ)) (ts.renumber ρ))
  | [], _ => .pure rfl
  | _ :: _, .nil => .pure rfl
  | p :: rest, .cons _ t ts => (mirrors_type t).bind fun _ => (mirrors_build _).bind fun v =>
    (mirrors_setVariable hρ p.head.id.ir v).bind fun _ => mirrors_params hρ f rest ts

theorem mirrors_resultSlot (f : C.FunctionId) (t : Ty) :
    Mirrors ρ id (resultSlot f t) (resultSlot f (t.renumber ρ)) := by
  unfold resultSlot
  rw [Ty.isUnit_renumber]
  split
  · exact .pure rfl
  · exact (mirrors_type t).bind fun _ => (mirrors_build _).bind fun _ =>
      (mirrors_look _).bind fun _ => (mirrors_addStmt _).bind fun _ => .pure rfl

section

variable (hk : k.Renumbers ρ k')
include hk

theorem mirrors_itemType (i : Item) :
    Mirrors ρ (Ty.renumber ρ) (itemType k i) (itemType k' (i.renumber ρ)) := by
  have hget : k'.types.get? (i.renumber ρ).head.id.ir = _ := hk.types.get? i.head.id.ir
  unfold itemType
  rw [Item.name_renumber, hget]
  exact mirrors_require (.uncheckedItem i.name) _

theorem mirrors_signatureOf (i : Item) (d : FunctionDecl) :
    Mirrors ρ (fun f => (f.1.renumber ρ, f.2.renumber ρ)) (signatureOf k i d)
      (signatureOf k' (i.renumber ρ) (d.renumber ρ)) := by
  refine (mirrors_itemType hk i).bind fun t => ?_
  rw [Ty.fn?_renumber]
  exact mirrors_require (.functionItemType d.name t) t.fn?

variable (hρ : ρ.Injective)
include hρ

theorem mirrors_structItem (i : Item) (d : StructDecl) :
    Mirrors ρ id (structItem k i d) (structItem k' (i.renumber ρ) (d.renumber ρ)) := by
  refine (mirrors_itemType hk i).bind fun t => ?_
  rw [Ty.struct?_renumber]
  cases t.struct? with
  | none => exact mirrors_defect (.structItemType d.name t)
  | some found =>
    exact (mirrors_types found.2).bind fun _ => (mirrors_build _).bind fun ct =>
      (mirrors_setType hρ i.head.id.ir ct).bind fun _ => mirrors_modifyDeclared _

theorem mirrors_constantItem (i : Item) (d : ConstantDecl) :
    Mirrors ρ id (constantItem k i d) (constantItem k' (i.renumber ρ) (d.renumber ρ)) :=
  (mirrors_itemType hk i).bind fun t => (mirrors_type t).bind fun _ =>
    (mirrorsAll hρ hk d.value).expr.bind fun _ => (mirrors_build _).bind fun e =>
    (mirrors_setConstant hρ i.head.id.ir e).bind fun _ => mirrors_modifyDeclared _

theorem mirrors_staticItem (i : Item) (d : StaticDecl) :
    Mirrors ρ id (staticItem k i d) (staticItem k' (i.renumber ρ) (d.renumber ρ)) :=
  (mirrors_itemType hk i).bind fun t => (mirrors_type t).bind fun _ =>
    (mirrorsAll hρ hk d.value).expr.bind fun _ => (mirrors_build _).bind fun v =>
    (mirrors_setVariable hρ i.head.id.ir v).bind fun _ => mirrors_modifyDeclared _

theorem mirrors_functionSignature (i : Item) (d : FunctionDecl) :
    Mirrors ρ id (functionSignature k i d) (functionSignature k' (i.renumber ρ) (d.renumber ρ)) := by
  refine (mirrors_signatureOf hk i d).bind fun f => (mirrors_types f.1).bind fun ps =>
    (mirrors_resultType f.2).bind fun r => MiddleEnd.Mirrors.bind (φ := id)
      (mirrors_buildOrFail ?_) fun f => mirrors_setFunction hρ i.head.id.ir f
  intro p e he
  cases he

theorem mirrors_functionBody (i : Item) (d : FunctionDecl) :
    Mirrors ρ id (functionBody k i d) (functionBody k' (i.renumber ρ) (d.renumber ρ)) := by
  refine .get fun l l' h => ?_
  have hfunction : l'.functions[(i.renumber ρ).head.id.ir]? = _ := h.functions i.head.id.ir
  rw [hfunction]
  refine (mirrors_require_same (.undeclaredFunction d.name) _).bind fun f => .get fun q q' hq => ?_
  have hdeclared : q'.isDeclared (id f) = q.isDeclared f := by
    unfold Lowering.isDeclared
    rw [hq.declared]
    rfl
  rw [hdeclared]
  split
  · exact .pure rfl
  · refine (mirrors_signatureOf hk i d).bind fun sig => (mirrors_params hρ f d.params sig.1).bind
      fun _ => (mirrors_build _).bind fun b => (mirrors_pushBlock b).bind fun _ =>
      (mirrors_resultSlot f sig.2).bind fun slot => (mirrors_pushFunction _).bind fun _ => ?_
    obtain ⟨name, params, returns, body⟩ := d
    cases body with
    | block g ss tail =>
      have hcontents := (mirrorsAll hρ hk (.block g ss tail)).branch
      cases tail <;> exact mirrors_fill f slot name hcontents
    | ret g value => cases value <;> exact mirrors_defect (.bodyNotBlock name)
    | _ => exact mirrors_defect (.bodyNotBlock name)

/-- Lowering the renumbered program builds the same C program and writes the same text. -/
theorem mirrors_program (p : Program) : Mirrors ρ id (program k p) (program k' (p.renumber ρ)) := by
  unfold program Program.renumber
  refine (mirrors_note _ _).bind fun _ => MiddleEnd.Mirrors.bind (φ := id) (.forM fun i _ => ?_)
    fun _ => MiddleEnd.Mirrors.bind (φ := id) (.forM fun i _ => ?_) fun _ =>
    MiddleEnd.Mirrors.bind (φ := id) (.forM fun i _ => ?_) fun _ =>
    MiddleEnd.Mirrors.bind (φ := id) (.forM fun i _ => ?_) fun _ => mirrors_write
  · obtain ⟨h, kind⟩ := i
    cases kind with
    | struct d => exact mirrors_structItem hk hρ ⟨h, .struct d⟩ d
    | _ => exact .pure rfl
  · obtain ⟨h, kind⟩ := i
    cases kind with
    | constant d => exact mirrors_constantItem hk hρ ⟨h, .constant d⟩ d
    | static d => exact mirrors_staticItem hk hρ ⟨h, .static d⟩ d
    | _ => exact .pure rfl
  · obtain ⟨h, kind⟩ := i
    cases kind with
    | function d => exact mirrors_functionSignature hk hρ ⟨h, .function d⟩ d
    | _ => exact .pure rfl
  · obtain ⟨h, kind⟩ := i
    cases kind with
    | function d => exact mirrors_functionBody hk hρ ⟨h, .function d⟩ d
    | _ => exact .pure rfl

end

end Lower

end MiddleEnd
