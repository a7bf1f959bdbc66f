/-
  The stack of return types. A check leaves it as it was, whatever the check comes to, and so does
  every call of the checker within a body; so in the body of a function there is one type on top of
  what was there before, from the moment the function is entered to the moment it is left
  (`During.returns`).

  That type is the return type that the signature of the function declared, as long as the type
  recorded for the function stays what the signature made it. It does, for a node that nothing else
  in the program has and that no place is bound to (`Session.returns_throughout`).
-/
import MiddleEnd.Proofs.Check.Halts

namespace MiddleEnd

namespace Check

/-- From progress `p` the step ends well, with result `a` and progress `q`. -/
abbrev Runs {α : Type} (m : Check α) (p : Progress) (a : α) (q : Progress) : Prop :=
  m.run.run p = (.ok a, q)

namespace Course

variable {k : Course} {s : Scope} {parts : List Part} {p q : Progress} {F : IrId → Prop}

/-- The course of a check from some progress on: what has a type keeps one, and the functions in
`F` keep the types that they have. -/
def keeping (p : Progress) (F : IrId → Prop) : Course where
  start := p.types
  before := p.diagnostics
  typed := p.types.Has
  functions := F
  allowed id t := p.types.get? id = some t

theorem on_keeping (h : ∀ id, F id → ∃ r ps t, p.types.get? id = some (.fn r ps t)) :
    (keeping p F).On p where
  toFramed := .refl p
  typed _ h := h
  functions id hf := by
    obtain ⟨r, ps, t, hget⟩ := h id hf
    exact ⟨r, ps, t, hget, hget⟩

theorem On.kept (h : (keeping p F).On q) {id : IrId} (hf : F id) :
    q.types.get? id = p.types.get? id := by
  obtain ⟨r, ps, t, hget, hallowed⟩ := h.functions id hf
  exact hget.trans hallowed.symm

/-- The course of a check that keeps nothing but primitive types and return types. -/
def free (p : Progress) : Course := keeping p fun _ => False

theorem on_free (p : Progress) : (free p).On p := on_keeping nofun

theorem spares_free (p : Progress) (s : Scope) (parts : List Part) : (free p).Spares s parts where
  nodes _ _ _ _ h := h
  places _ _ _ _ _ _ h := h

theorem Stays.returns_of_runs {α : Type} {m : Check α} {a : α} {E : Fault → Progress → Prop}
    (h : (free p).Stays E m) (hr : Runs m p a q) : q.types.returns = p.types.returns :=
  (h.result p (on_free p) a q hr).returns

/-- Return types are the same after a step on the course, also if it ends in a fault. -/
theorem Stays.returns {α : Type} {m : Check α} (h : (free p).Stays ((free p).Ends parts) m) :
    (m.run.run p).2.types.returns = p.types.returns := by
  rcases hr : m.run.run p with ⟨e | a, q⟩
  · exact (h.fault p (on_free p) e q hr).returns
  · exact h.returns_of_runs hr

end Course

/-! ## Calls -/

/-- What the checker is called for within a body. -/
inductive Task
  | expr (e : Expr) (final : Bool)
  | exprs (es : List Expr)
  | arguments (params : Members) (es : List Expr)
  | fields (struct : String) (decls : Members) (fs : List FieldInit)
  | stmt (st : Stmt)
  | stmts (sts : List Stmt)

/-- The progress that a call leaves, whether it ends in a fault or not. -/
def Task.left (s : Scope) (p : Progress) : Task → Progress
  | .expr e final => ((Check.expr s e final).run.run p).2
  | .exprs es => ((Check.exprs s es).run.run p).2
  | .arguments params es => ((Check.arguments s params es).run.run p).2
  | .fields struct decls fs => ((Check.fieldInits s struct decls fs).run.run p).2
  | .stmt st => ((Check.stmt s st).run.run p).2
  | .stmts sts => ((Check.stmts s sts).run.run p).2

/-- The calls that a call makes itself: the first task, begun with the first progress, calls the
checker for the second task with the second progress, after all that it does before. -/
inductive Calls (s : Scope) : Task → Progress → Task → Progress → Prop
  | returned {h : Head} {value : Expr} {final : Bool} {p : Progress} {result : Ty}
    (inside : p.types.return? = some result) :
    Calls s (.expr (.ret h (some value)) final) p (.expr value false) p
  | uncheckedArguments {h : Head} {callee : Expr} {args : List Expr} {final : Bool}
    {p q : Progress} {r : IrId}
    (run : Runs (calleeType s (.call h callee args) callee) p (some (.error r)) q) :
    Calls s (.expr (.call h callee args) final) p (.exprs args) q
  | arguments {h : Head} {callee : Expr} {args : List Expr} {final : Bool} {p q : Progress}
    {r : IrId} {params : Members} {result : Ty}
    (run : Runs (calleeType s (.call h callee args) callee) p (some (.fn r params result)) q)
    (count : params.length = args.length) :
    Calls s (.expr (.call h callee args) final) p (.arguments params args) q
  | assignedToName {h g : Head} {name : String} {value : Expr} {final : Bool} {p q : Progress}
    {t : Option Ty}
    (run : Runs (recording g.id.ir (identifier s (.identifier g name) true)) p t q) :
    Calls s (.expr (.assign h (.identifier g name) value) final) p (.expr value false) q
  | target {h : Head} {target value : Expr} {final : Bool} {p : Progress}
    (place : ∀ g name, target ≠ .identifier g name) :
    Calls s (.expr (.assign h target value) final) p (.expr target false) p
  | assignedToPlace {h : Head} {target value : Expr} {final : Bool} {p q : Progress}
    {t : Option Ty} (place : ∀ g name, target ≠ .identifier g name)
    (run : Runs (expr s target false) p t q) :
    Calls s (.expr (.assign h target value) final) p (.expr value false) q
  | left {h : Head} {op : BinaryOp} {lhs rhs : Expr} {final : Bool} {p : Progress} :
    Calls s (.expr (.binary h op lhs rhs) final) p (.expr lhs false) p
  | right {h : Head} {op : BinaryOp} {lhs rhs : Expr} {final : Bool} {p q : Progress}
    {t : Option Ty} (run : Runs (expr s lhs false) p t q) :
    Calls s (.expr (.binary h op lhs rhs) final) p (.expr rhs false) q
  | ifOnlyCondition {h : Head} {condition body : Expr} {final : Bool} {p : Progress} :
    Calls s (.expr (.ifOnly h condition body) final) p (.expr condition false) p
  | ifOnlyBody {h : Head} {condition body : Expr} {final : Bool} {p q : Progress} {t : Option Ty}
    (run : Runs (expr s condition false) p t q) :
    Calls s (.expr (.ifOnly h condition body) final) p (.expr body false) q
  | ifElseCondition {h : Head} {condition thenBody elseBody : Expr} {final : Bool} {p : Progress}
    (inside : final = true → p.types.returns ≠ []) :
    Calls s (.expr (.ifElse h condition thenBody elseBody) final) p (.expr condition false) p
  | ifElseThen {h : Head} {condition thenBody elseBody : Expr} {final : Bool} {p q : Progress}
    {t : Option Ty} (inside : final = true → p.types.returns ≠ [])
    (run : Runs (expr s condition false) p t q) :
    Calls s (.expr (.ifElse h condition thenBody elseBody) final) p (.expr thenBody final) q
  | ifElseElse {h : Head} {condition thenBody elseBody : Expr} {final : Bool} {p q : Progress}
    {t : Option Ty} (inside : final = true → p.types.returns ≠ [])
    (run : Runs (expr s condition false >>= fun _ => expr s thenBody final) p t q) :
    Calls s (.expr (.ifElse h condition thenBody elseBody) final) p (.expr elseBody final) q
  | ifElseIfCondition {h : Head} {condition thenBody elseIf : Expr} {final : Bool} {p : Progress} :
    Calls s (.expr (.ifElseIf h condition thenBody elseIf) final) p (.expr condition false) p
  | ifElseIfThen {h : Head} {condition thenBody elseIf : Expr} {final : Bool} {p q : Progress}
    {t : Option Ty} (run : Runs (expr s condition false) p t q) :
    Calls s (.expr (.ifElseIf h condition thenBody elseIf) final) p (.expr thenBody false) q
  | ifElseIfElse {h : Head} {condition thenBody elseIf : Expr} {final : Bool} {p q : Progress}
    {t : Option Ty} (run : Runs (expr s condition false >>= fun _ => expr s thenBody false) p t q) :
    Calls s (.expr (.ifElseIf h condition thenBody elseIf) final) p (.expr elseIf false) q
  | statements {h : Head} {body : List Stmt} {tail : Option Expr} {final : Bool} {p : Progress} :
    Calls s (.expr (.block h body tail) final) p (.stmts body) p
  | tail {h : Head} {body : List Stmt} {tail : Expr} {final : Bool} {p q : Progress}
    (run : Runs (stmts s body) p () q) :
    Calls s (.expr (.block h body (some tail)) final) p (.expr tail final) q
  | position {h : Head} {base position : Expr} {final : Bool} {p : Progress} :
    Calls s (.expr (.index h base position) final) p (.expr position false) p
  | base {h : Head} {base position : Expr} {final : Bool} {p q : Progress}
    (run : Runs (expr s position false >>= checkIndex position.ir) p () q) :
    Calls s (.expr (.index h base position) final) p (.expr base false) q
  | firstValue {h : Head} {first : Expr} {rest : List Expr} {final : Bool} {p : Progress} :
    Calls s (.expr (.array h (first :: rest)) final) p (.expr first false) p
  | otherValues {h : Head} {first : Expr} {rest : List Expr} {final : Bool} {p q : Progress}
    {t : Option Ty} (run : Runs (expr s first false) p t q) :
    Calls s (.expr (.array h (first :: rest)) final) p (.exprs rest) q
  | copied {h : Head} {element : Expr} {count : UInt64} {final : Bool} {p : Progress} :
    Calls s (.expr (.copies h element count) final) p (.expr element false) p
  | fields {h : Head} {path : StructPath} {fields : List FieldInit} {final : Bool}
    {p q : Progress} {r : IrId} {name : String} {decls : Members}
    (run : Runs (structType s (.struct h path fields) path) p (some (.struct r name decls)) q) :
    Calls s (.expr (.struct h path fields) final) p (.fields name decls fields) q
  | firstExpr {e : Expr} {rest : List Expr} {p : Progress} :
    Calls s (.exprs (e :: rest)) p (.expr e false) p
  | otherExprs {e : Expr} {rest : List Expr} {p q : Progress} {t : Option Ty}
    (run : Runs (expr s e false) p t q) : Calls s (.exprs (e :: rest)) p (.exprs rest) q
  | firstArgument {name : String} {param : Ty} {params : Members} {e : Expr} {rest : List Expr}
    {p : Progress} : Calls s (.arguments (.cons name param params) (e :: rest)) p (.expr e false) p
  | otherArguments {name : String} {param : Ty} {params : Members} {e : Expr} {rest : List Expr}
    {p q : Progress} {ok : Bool}
    (run : Runs (expr s e false >>= fun t => fits param t e.locus) p ok q) :
    Calls s (.arguments (.cons name param params) (e :: rest)) p (.arguments params rest) q
  | firstField {struct : String} {decls : Members} {h : Head} {name : String} {value : Expr}
    {rest : List FieldInit} {p : Progress} :
    Calls s (.fields struct decls (.mk h name value :: rest)) p (.expr value false) p
  | otherFields {struct : String} {decls : Members} {h : Head} {name : String} {value : Expr}
    {rest : List FieldInit} {p q : Progress} {ok : Bool}
    (run : Runs (expr s value false >>=
      fieldInit h (decls.find? name) (.noSuchField struct name)) p ok q) :
    Calls s (.fields struct decls (.mk h name value :: rest)) p (.fields struct decls rest) q
  | statement {e : Expr} {p : Progress} : Calls s (.stmt (.expr e)) p (.expr e false) p
  | initial {h : Head} {pattern : Pattern} {annotated : Option TypeExpr} {init : Expr}
    {p q : Progress} {t : Option Ty} (run : Runs (typeExpr? s annotated) p t q) :
    Calls s (.stmt (.bind h pattern annotated (some init))) p (.expr init false) q
  | firstStmt {st : Stmt} {rest : List Stmt} {p : Progress} :
    Calls s (.stmts (st :: rest)) p (.stmt st) p
  | otherStmts {st : Stmt} {rest : List Stmt} {p q : Progress} (run : Runs (stmt s st) p () q) :
    Calls s (.stmts (st :: rest)) p (.stmts rest) q

/-- The moments of a call: its beginning, its end, and the moments of the calls it makes. -/
inductive During (s : Scope) : Task → Progress → Progress → Prop
  | start (t : Task) (p : Progress) : During s t p p
  | finish (t : Task) (p : Progress) : During s t p (t.left s p)
  | call {t t' : Task} {p p' q : Progress} (calls : Calls s t p t' p') (during : During s t' p' q) :
    During s t p q

section

open Course

variable {s : Scope} {t t' : Task} {p q : Progress}

theorem stays_expr_free (e : Expr) (final : Bool) (hin : p.types.returns ≠ []) :
    (free p).Stays ((free p).Ends e.parts) (expr s e final) :=
  stays_expr (spares_free p s e.parts) e final (List.Subset.refl _) fun _ => hin

theorem returns_left (t : Task) (hin : p.types.returns ≠ []) :
    (t.left s p).types.returns = p.types.returns := by
  cases t with
  | expr e final => exact (stays_expr_free e final hin).returns
  | exprs es => exact (stays_exprs (spares_free p s _) es (List.Subset.refl _)).returns
  | arguments params es =>
    exact (stays_arguments (spares_free p s _) params es (List.Subset.refl _)).returns
  | fields struct decls fs =>
    exact (stays_fieldInits (spares_free p s _) struct decls fs (List.Subset.refl _)).returns
  | stmt st => exact (stays_stmt (spares_free p s _) st (List.Subset.refl _)).returns
  | stmts sts => exact (stays_stmts (spares_free p s _) sts (List.Subset.refl _)).returns

/-- Whatever a call does before it calls the checker again, return types are as they were. -/
theorem Calls.returns (h : Calls s t p t' q) (hin : p.types.returns ≠ []) :
    q.types.returns = p.types.returns := by
  have hexpr : ∀ {e : Expr} {final : Bool} {r : Option Ty} {v : Progress},
      Runs (expr s e final) p r v → v.types.returns = p.types.returns := fun {e final _ _} run =>
    (stays_expr_free e final hin).returns_of_runs run
  have hexprs : ∀ {e f : Expr} {final final' : Bool} {r : Option Ty} {v : Progress},
      Runs (expr s e final >>= fun _ => expr s f final') p r v →
        v.types.returns = p.types.returns := by
    intro e f final final' r v run
    obtain ⟨_, u, he, hf⟩ := run_bind_ok_iff.1 run
    have hu := hexpr he
    exact ((stays_expr_free f final' (hu ▸ hin)).returns_of_runs hf).trans hu
  cases h with
  | returned | target | left | ifOnlyCondition | ifElseCondition | ifElseIfCondition | statements
  | position | firstValue | copied | firstExpr | firstArgument | firstField | statement
  | firstStmt => rfl
  | assignedToPlace _ run => exact hexpr run
  | right run => exact hexpr run
  | ifOnlyBody run => exact hexpr run
  | ifElseThen _ run => exact hexpr run
  | ifElseIfThen run => exact hexpr run
  | otherValues run => exact hexpr run
  | otherExprs run => exact hexpr run
  | ifElseElse _ run => exact hexprs run
  | ifElseIfElse run => exact hexprs run
  | uncheckedArguments run =>
    exact (stays_calleeType _ _).returns_of_runs (E := fun _ _ => False) run
  | arguments run _ => exact (stays_calleeType _ _).returns_of_runs (E := fun _ _ => False) run
  | assignedToName run =>
    exact (stays_recording id (stays_identifier _ true)).returns_of_runs
      (E := fun _ _ => False) run
  | tail run =>
    exact (stays_stmts (spares_free p s _) _ (List.Subset.refl _)).returns_of_runs run
  | @base h base position _ _ _ run =>
    let parts := (Expr.index h base position).parts
    have hposition : position.parts ⊆ parts :=
      List.subset_cons_of_subset _ (List.subset_append_right ..)
    have hindex : (free p).Stays ((free p).Ends parts)
        (expr s position false >>= checkIndex position.ir) :=
      (stays_expr (spares_free p s parts) position false hposition of_not_final).recorded.bind
        fun t => triple_checkIndex List.mem_cons_self t
    exact hindex.returns_of_runs run
  | fields run => exact (stays_structType _ _).returns_of_runs (E := fun _ _ => False) run
  | otherArguments run =>
    exact Stays.returns_of_runs
      ((stays_expr_free _ false hin).bind fun t => stays_fits _ t _) run
  | otherFields run =>
    exact Stays.returns_of_runs
      ((stays_expr_free _ false hin).bind fun t => stays_fieldInit _ t _ id) run
  | initial run =>
    exact (stays_typeExpr? fun _ _ => id).returns_of_runs (E := fun _ _ => False) run
  | otherStmts run =>
    exact (stays_stmt (spares_free p s _) _ (List.Subset.refl _)).returns_of_runs run

/-- At every moment of a call within a function the return types are those that it began with. -/
theorem During.returns (h : During s t p q) (hin : p.types.returns ≠ []) :
    q.types.returns = p.types.returns := by
  induction h with
  | start => rfl
  | finish t p => exact returns_left t hin
  | call calls _ ih =>
    have hcall := calls.returns hin
    exact (ih (hcall ▸ hin)).trans hcall

end

/-! ## Functions that keep their types -/

section

variable {s : Scope} {p q : Progress} {id : IrId}

/-- A loop over a list passes through each of its members. -/
theorem runs_forM_split {α : Type} {f : α → Check PUnit} {before after : List α} {a : α}
    (h : Runs ((before ++ a :: after).forM f) p () q) :
    ∃ u v, Runs (before.forM f) p () u ∧ Runs (f a) u () v ∧ Runs (after.forM f) v () q := by
  rw [List.forM_eq_forM, List.forM_append] at h
  obtain ⟨_, u, hbefore, h⟩ := run_bind_ok_iff.1 h
  obtain ⟨_, v, ha, hafter⟩ := run_bind_ok_iff.1 h
  exact ⟨u, v, hbefore, ha, hafter⟩

/-- A step comes to one end at most. -/
theorem Runs.unique {α : Type} {m : Check α} {a b : α} {u v : Progress} (h : Runs m p a u)
    (h' : Runs m p b v) : a = b ∧ u = v := by
  cases h.symm.trans h'
  exact ⟨rfl, rfl⟩

/-- The node of an item is the node of nothing else in other items, if it stands once among all. -/
theorem notMem_of_count {before after : List Item} {i : Item}
    (h : ((before ++ i :: after).flatMap Item.ids).count i.head.id.ir ≤ 1) :
    ∀ j ∈ before ++ after, i.head.id.ir ∉ j.ids := by
  have hhead : 1 ≤ i.ids.count i.head.id.ir :=
    List.count_pos_iff.2 (i.signatureIds_subset i.head_mem_signatureIds)
  rw [List.flatMap_append, List.flatMap_cons, List.count_append, List.count_append] at h
  intro j hj hm
  rcases List.mem_append.1 hj with hj | hj
  · have hbefore := List.count_pos_iff.2 (List.mem_flatMap.2 ⟨j, hj, hm⟩)
    omega
  · have hafter := List.count_pos_iff.2 (List.mem_flatMap.2 ⟨j, hj, hm⟩)
    omega

namespace Course

variable {k : Course} {E : Fault → Progress → Prop}

/-- The signature of an item that has no node in common with the functions of the course. -/
theorem stays_signature {i : Item} (hk : ∀ id ∈ i.signatureIds, ¬ k.functions id) :
    k.Stays E (signature s i) := by
  have htype : k.Stays E (signatureType s i) :=
    (triple_signatureType fun id hid => hk id (List.mem_of_mem_tail hid)).mono fun _ _ h => h.1
  exact htype.bind fun t => stays_record (hk _ i.head_mem_signatureIds) t

end Course

/-- Signatures do not end a check, and each item has a type after its own. -/
theorem runs_signatures (s : Scope) (p : Progress) (l : List Item) :
    ∃ q, Runs (l.forM (signature s)) p () q ∧ ∀ i ∈ l, q.types.Has i.head.id.ir := by
  let k := Course.signed p.types p.diagnostics fun _ => False
  have hsigned : Triple (k []).On (l.forM (signature s)) (fun _ => (k l).On) fun _ _ => False :=
    Course.triple_signatures fun i _ => Course.owns_none i
  have hstart : (k []).On p := ⟨.refl p, nofun, nofun⟩
  rcases hr : (l.forM (signature s)).run.run p with ⟨e | a, q⟩
  · exact (hsigned.fault p hstart e q hr).elim
  · exact ⟨q, hr, fun i hi => (hsigned.result p hstart a q hr).typed _ ⟨i, hi, rfl⟩⟩

/-- The node keeps the type of a function while other items get their types. -/
theorem kept_signatures {l : List Item} (hl : ∀ j ∈ l, id ∉ j.ids) {r : IrId} {ps : Members}
    {result : Ty} (hp : p.types.get? id = some (.fn r ps result))
    (h : Runs (l.forM (signature s)) p () q) : q.types.get? id = some (.fn r ps result) := by
  let k := Course.keeping p (· = id)
  have hsignatures : k.Stays (fun _ _ => True) (l.forM (signature s)) :=
    Triple.forM (I := fun _ => k.On) [] fun _ j hj =>
      Course.stays_signature fun _ hid he => hl j hj (he ▸ j.signatureIds_subset hid)
  have hstart : k.On p := Course.on_keeping fun _ he => ⟨r, ps, result, he ▸ hp⟩
  rw [(hsignatures.result p hstart () q h).kept rfl, hp]

/-- The node keeps the type of a function while the bodies of other items are checked, where no
place is bound to it. -/
theorem kept_bodies {l : List Item} (hl : ∀ j ∈ l, id ∉ j.ids)
    (hplaces : ∀ j ∈ l, ∀ a ∈ j.bodyParts, ∀ e, a.place? = some e → declaration s e ≠ .ok id)
    (htyped : ∀ j ∈ l, p.types.Has j.head.id.ir) {r : IrId} {ps : Members} {result : Ty}
    (hp : p.types.get? id = some (.fn r ps result)) (h : Runs (l.forM (body s)) p () q) :
    q.types.get? id = some (.fn r ps result) := by
  let k := Course.keeping p (· = id)
  have hspares : ∀ j ∈ l, k.Spares s j.bodyParts := fun j hj =>
    { nodes := fun a ha i hi he =>
        hl j hj (j.ids_eq ▸ List.mem_append_right _
          (j.irsAll_bodyParts ▸ List.mem_flatMap.2 ⟨a, ha, he ▸ hi⟩))
      places := fun a ha e hplace i hi he => hplaces j hj a ha e hplace (he ▸ hi) }
  have hbodies : k.Stays (k.Broken l) (l.forM (body s)) :=
    Triple.forM (I := fun _ => k.On) [] fun _ j hj =>
      Course.stays_body hj (htyped j hj) (hspares j hj)
  have hstart : k.On p := Course.on_keeping fun _ he => ⟨r, ps, result, he ▸ hp⟩
  rw [(hbodies.result p hstart () q h).kept rfl, hp]

end

end Check

/-! ## Bodies of functions -/

namespace Session

open Check

/-- The check of the session comes to the signature of the item with this progress. -/
def ComesToSignature (s : Session) (i : Item) (p : Progress) : Prop :=
  ∃ before after, signatureOrder s.program.items = before ++ i :: after ∧
    Runs (do
      note (.checking s.program.items.length)
      before.forM (signature s.scope)) s.progress () p

/-- The check of the session comes to the body of the item with this progress. -/
def ComesToBody (s : Session) (i : Item) (p : Progress) : Prop :=
  ∃ before after, s.program.items = before ++ i :: after ∧
    Runs (do
      note (.checking s.program.items.length)
      (signatureOrder s.program.items).forM (signature s.scope)
      before.forM (body s.scope)) s.progress () p

/-- The return type that the signature of the function declares, when the check of the session comes
to it. -/
def Declares (s : Session) (h : Head) (d : FunctionDecl) (result : Ty) : Prop :=
  ∃ p r ps q, s.ComesToSignature ⟨h, .function d⟩ p ∧
    Runs (functionType s.scope h.id.ir d) p (.fn r ps result) q

/-- The check of the session has come to the function and entered it, and begins with its body. -/
def Enters (s : Session) (h : Head) (d : FunctionDecl) (p : Progress) : Prop :=
  ∃ q r ps result, s.ComesToBody ⟨h, .function d⟩ q ∧
    q.types.get? h.id.ir = some (.fn r ps result) ∧
    p = { q.note [.checkingBody d.name] with types := q.types.pushReturn result }

variable {s : Session} {h g : Head} {d : FunctionDecl} {p q : Progress}

/-- Every function declares a return type. -/
theorem exists_declares (hd : ⟨h, .function d⟩ ∈ s.program.items) :
    ∃ result, s.Declares h d result := by
  obtain ⟨before, after, horder⟩ := List.append_of_mem (mem_signatureOrder.2 hd)
  obtain ⟨p, hrun, -⟩ := runs_signatures s.scope
    (s.progress.note [.checking s.program.items.length]) before
  have htype : Triple (Course.free p).On (functionType s.scope h.id.ir d) (fun t _ =>
      ∃ r ps u, t = .fn r ps u) fun _ _ => False :=
    (Course.triple_functionType h.id.ir (fun _ _ => id) fun _ _ => id).mono fun _ _ h => h.2
  rcases hr : (functionType s.scope h.id.ir d).run.run p with ⟨e | t, q⟩
  · exact (htype.fault p (Course.on_free p) e q hr).elim
  · obtain ⟨r, ps, result, rfl⟩ := htype.result p (Course.on_free p) t q hr
    exact ⟨result, p, r, ps, q, ⟨before, after, horder, hrun⟩, hr⟩

/-- Where the check comes to the body of a function, the type recorded for the function is still the
one that its signature declared, for a node that nothing else has and that no place is bound to. -/
theorem get?_of_comesToBody (hcount : s.program.ids.count h.id.ir ≤ 1)
    (hplaces : ∀ e ∈ s.program.places, declaration s.scope e ≠ .ok h.id.ir) {result : Ty}
    (hdeclares : s.Declares h d result) (hbody : s.ComesToBody ⟨h, .function d⟩ q) :
    ∃ r ps, q.types.get? h.id.ir = some (.fn r ps result) := by
  obtain ⟨p₀, r, ps, q₀, ⟨signed, unsigned, horder, hp₀⟩, htype⟩ := hdeclares
  obtain ⟨before, after, hitems, hq⟩ := hbody
  obtain ⟨_, v, hnote, hp₀⟩ := run_bind_ok_iff.1 hp₀
  obtain ⟨_, v', hnote', hq⟩ := run_bind_ok_iff.1 hq
  obtain ⟨-, rfl⟩ := Runs.unique hnote hnote'
  obtain ⟨_, w, hsignatures, hbodies⟩ := run_bind_ok_iff.1 hq
  obtain ⟨w', hsignatures', htyped⟩ :=
    runs_signatures s.scope v (signatureOrder s.program.items)
  obtain ⟨-, rfl⟩ := Runs.unique hsignatures hsignatures'
  -- the signature of the function comes to the same type as above
  rw [horder] at hsignatures
  obtain ⟨u, x, hsigned, hsignature, hunsigned⟩ := runs_forM_split hsignatures
  obtain ⟨-, rfl⟩ := Runs.unique hp₀ hsigned
  obtain ⟨t, y, htype', hrecord⟩ := run_bind_ok_iff.1 hsignature
  obtain ⟨rfl, rfl⟩ := Runs.unique htype htype'
  have hget : x.types.get? h.id.ir = some (.fn r ps result) := by
    cases hrecord
    exact (TypeTable.get?_record ..).trans (if_pos rfl)
  -- and nothing else changes it
  rw [Program.ids_eq] at hcount
  have horders : (signatureOrder s.program.items).Perm s.program.items := signatureOrder_perm _
  have hsigning := notMem_of_count (i := ⟨h, .function d⟩)
    (horder ▸ (horders.flatMap_right _).count_eq h.id.ir ▸ hcount)
  have hchecking := notMem_of_count (i := ⟨h, .function d⟩) (hitems ▸ hcount)
  have hmem : ∀ j ∈ before, j ∈ s.program.items := fun j hj =>
    hitems ▸ List.mem_append_left _ hj
  refine ⟨r, ps, kept_bodies (fun j hj => hchecking j (List.mem_append_left _ hj)) ?_
    (fun j hj => htyped j (mem_signatureOrder.2 (hmem j hj)))
    (kept_signatures (fun j hj => hsigning j (List.mem_append_right _ hj)) hget hunsigned)
    hbodies⟩
  intro j hj a ha e hplace
  have hpart : a ∈ s.program.parts :=
    List.mem_flatMap.2 ⟨j, hmem j hj, List.mem_append_right _ ha⟩
  exact hplaces e (List.mem_filterMap.2 ⟨a, hpart, hplace⟩)

/-- Where the check comes to a body, the return types are those from before the check. -/
theorem returns_of_comesToBody {i : Item} (h : s.ComesToBody i q) :
    q.types.returns = s.types.returns := by
  obtain ⟨before, after, hitems, hrun⟩ := h
  let k := Course.signed s.types s.diagnostics fun _ => False
  have hbodies : (k (signatureOrder s.program.items)).Stays
      ((k (signatureOrder s.program.items)).Broken before) (before.forM (body s.scope)) :=
    Triple.forM (I := fun _ => (k (signatureOrder s.program.items)).On) [] fun _ j hj =>
      have hmem : j ∈ s.program.items := hitems ▸ List.mem_append_left _ hj
      Course.stays_body hj ⟨j, mem_signatureOrder.2 hmem, rfl⟩
        ⟨fun _ _ _ _ hf => hf.1, fun _ _ _ _ _ _ hf => hf.1⟩
  have hcheck := (Course.stays_note (.checking s.program.items.length)).bind fun _ =>
    (Course.triple_signatures (s := s.scope) fun i _ => Course.owns_none i).bind fun _ => hbodies
  exact (hcheck.result s.progress ⟨.refl _, nofun, nofun⟩ () q hrun).returns

theorem returns_checks (s : Session) : ∀ n, (s.checks n).types.returns = s.types.returns
  | 0 => rfl
  | n + 1 => (framed_check (s.checks n)).returns.trans (returns_checks s n)

/-- In the body of a function there is one type on top of those from before the check. -/
theorem returns_of_enters (h : s.Enters g d p) : ∃ result,
    ∀ q, During s.scope (.expr d.body true) p q → q.types.returns = result :: s.types.returns := by
  obtain ⟨v, r, ps, result, hbody, -, rfl⟩ := h
  refine ⟨result, fun q hq => ?_⟩
  exact (hq.returns (List.cons_ne_nil _ _)).trans
    (congrArg (result :: ·) (returns_of_comesToBody hbody))

/-- That type is the declared one, where the function keeps its type. -/
theorem returns_of_declares (hcount : s.program.ids.count h.id.ir ≤ 1)
    (hplaces : ∀ e ∈ s.program.places, declaration s.scope e ≠ .ok h.id.ir) {result : Ty}
    (hdeclares : s.Declares h d result) (henters : s.Enters h d p)
    (hq : During s.scope (.expr d.body true) p q) :
    q.types.returns = result :: s.types.returns := by
  obtain ⟨v, r, ps, t, hbody, hget, rfl⟩ := henters
  obtain ⟨r', ps', hget'⟩ := get?_of_comesToBody hcount hplaces hdeclares hbody
  cases hget.symm.trans hget'
  exact (hq.returns (List.cons_ne_nil _ _)).trans
    (congrArg (result :: ·) (returns_of_comesToBody hbody))

/-- The stack of return types is restored, and the type on top of it is the right one. However often
a session is checked, and whatever the checks come to, the return types are those from the start. At
every moment in the body of a function there is one type on top of them, the same at all moments.
If no other node of the program is the function's own and no place is bound to it (no target of an
assignment but names), that type is the return type which the signature declared. -/
theorem returns_throughout (s : Session) (n : Nat) :
    (s.checks n).types.returns = s.types.returns ∧
    (∀ h d p, (s.checks n).Enters h d p → ∃ result,
      ∀ q, During s.scope (.expr d.body true) p q → q.types.returns = result :: s.types.returns) ∧
    ∀ h d, ⟨h, .function d⟩ ∈ s.program.items → s.program.ids.count h.id.ir ≤ 1 →
      (∀ e ∈ s.program.places, declaration s.scope e ≠ .ok h.id.ir) →
      (∃ result, (s.checks n).Declares h d result) ∧
      ∀ result p q, (s.checks n).Declares h d result → (s.checks n).Enters h d p →
        During s.scope (.expr d.body true) p q → q.types.returns = result :: s.types.returns := by
  rw [← returns_checks s n, ← checks_scope s n, ← checks_program s n]
  refine ⟨rfl, fun h d p => returns_of_enters, fun h d hd hcount hplaces => ?_⟩
  exact ⟨exists_declares hd, fun result p q => returns_of_declares hcount hplaces⟩

open Samples in
/-- The function `f` declares no return type, and unit is on top in its body. The type that `f`
assigns to a place replaces the signature of `g`: it declares `i32`, and `bool` is on top in its
body. -/
theorem returns_throughout_replacing : ∃ p q v : Progress,
    (ofUnit replacing).Declares (head 1) replacer (.unit ⟨1⟩) ∧
    (ofUnit replacing).Enters (head 1) replacer p ∧
    During (ofUnit replacing).scope (.expr replacer.body true) p q ∧
    q.types.returns = [.unit ⟨1⟩] ∧
    (ofUnit replacing).Declares (head 14) replaced (.int ⟨30⟩ .w32) ∧
    (ofUnit replacing).Enters (head 14) replaced v ∧ v.types.returns = [.bool ⟨35⟩] := by
  have hdeclares : (ofUnit replacing).Declares (head 1) replacer (.unit ⟨1⟩) :=
    ⟨_, ⟨1⟩, .nil, _, ⟨[], _, rfl, rfl⟩, rfl⟩
  obtain ⟨p, henters⟩ : ∃ p, (ofUnit replacing).Enters (head 1) replacer p :=
    ⟨_, _, ⟨1⟩, .nil, .unit ⟨1⟩, ⟨[], _, rfl, run_of_isOk (by decide +kernel)⟩,
      by decide +kernel, rfl⟩
  obtain ⟨v, henters', hv⟩ : ∃ v, (ofUnit replacing).Enters (head 14) replaced v ∧
      v.types.returns = [.bool ⟨35⟩] :=
    ⟨_, ⟨_, ⟨19⟩, .nil, .bool ⟨35⟩,
      ⟨[⟨head 1, .function replacer⟩], _, rfl, run_of_isOk (by decide +kernel)⟩,
      by decide +kernel, rfl⟩, by decide +kernel⟩
  have hsigned : (ofUnit replacing).Declares (head 14) replaced (.int ⟨30⟩ .w32) :=
    ⟨_, ⟨14⟩, .nil, _,
      ⟨[⟨head 1, .function replacer⟩], _, rfl, run_of_isOk (by decide +kernel)⟩, rfl⟩
  have hduring : During (ofUnit replacing).scope (.expr replacer.body true) p _ :=
    .call .statements (.finish _ _)
  obtain ⟨-, -, hthroughout⟩ := returns_throughout (ofUnit replacing) 0
  have hreturns := (hthroughout (head 1) replacer (List.mem_cons_self ..) (by decide +kernel)
    (by decide +kernel)).2 _ _ _ hdeclares henters hduring
  exact ⟨p, _, v, hdeclares, henters, hduring, hreturns, hsigned, henters', hv⟩

end Session

end MiddleEnd
