/-
  Invariants of lowering a body. What every single step keeps, lowering an expression or a
  statement keeps (`Invariant.expr`, `Invariant.stmts`). The steps are: defining the wrapper of an
  array, adding a statement, making and declaring a variable, opening a new block and closing one.

  Variables get names made from a list of names: those of the `let`s in what is lowered, and the
  name of temporaries.
-/
import MiddleEnd.Proofs.C.Capture
import MiddleEnd.Proofs.Lower.Emitted
import MiddleEnd.Proofs.Syntax.Parts

namespace MiddleEnd

/-- The name that a part asks a variable for. -/
def Part.names : Part → List String
  | .bind _ pattern => [pattern.name]
  | _ => []

/-- The names that parts ask variables for. -/
def Part.namesAll (ps : List Part) : List String := ps.flatMap Part.names

theorem Part.namesAll_append (ps qs : List Part) :
    Part.namesAll (ps ++ qs) = Part.namesAll ps ++ Part.namesAll qs :=
  List.flatMap_append ..

namespace Lower

variable {α β : Type} {k : Checked} {I : Lowering → Prop} {names : List String}

/-! ## Runs that keep an invariant -/

/-- The invariant holds after the step if it holds before. -/
def Kept (I : Lowering → Prop) (m : Lower α) : Prop := ∀ ⦃l a l'⦄, Runs m l a l' → I l → I l'

namespace Kept

/-- A step that leaves the state alone. -/
theorem same {m : Lower α} (h : ∀ {l a l'}, Runs m l a l' → l' = l) : Kept I m := by
  intro l a l' hr hi
  rw [h hr]
  exact hi

theorem pure (a : α) : Kept I (pure a : Lower α) := same fun h => (runs_pure.1 h).2

theorem require (d : Defect) (o : Option α) : Kept I (require d o) :=
  same fun h => (runs_require.1 h).2

theorem defect (d : Defect) : Kept I (defect d : Lower α) := by
  intro l a l' h
  exact absurd h not_runs_defect

theorem look (f : C.Program → α) : Kept I (look f) := same fun h => (runs_look.1 h).2

theorem typeOf (id : IrId) : Kept I (typeOf k id) := .require _ _

theorem bind {m : Lower α} {f : α → Lower β} (h : Kept I m) (hf : ∀ a, Kept I (f a)) :
    Kept I (m >>= f) := by
  intro l b l' hr hi
  obtain ⟨a, l₁, ha, hb⟩ := runs_bind.1 hr
  exact hf a hb (h ha hi)

/-- A step that depends on the state. -/
theorem ofState {f : Lowering → Lower α} (h : ∀ l, Kept I (f l)) : Kept I (get >>= f) := by
  intro l a l' hr
  exact h l (runs_get_bind.1 hr)

theorem discard {m : Lower α} (h : Kept I m) : Kept I (discard m) := by
  intro l u l' hr
  obtain ⟨a, ha⟩ := runs_discard.1 hr
  exact h ha

theorem activation : Kept I activation := same fun h => (runs_activation.1 h).2

theorem modify {g : Lowering → Lowering} (h : ∀ l, I l → I (g l)) :
    Kept I (modify g : Lower PUnit) := by
  intro l u l' hr hi
  rw [runs_modify.1 hr]
  exact h l hi

theorem forM {g : α → Lower Unit} : ∀ {xs : List α}, (∀ x ∈ xs, Kept I (g x)) →
    Kept I (xs.forM g)
  | [], _ => .pure _
  | _ :: _, h => by
    obtain ⟨hx, hrest⟩ := List.forall_mem_cons.1 h
    exact hx.bind fun _ => forM hrest

end Kept

/-- What holds between any two single steps of lowering a body. -/
structure Invariant (names : List String) (I : Lowering → Prop) : Prop where
  wrap {l : Lowering} (element : C.Ty) (length : C.Expr) :
    I l → I { l with c := (l.c.arrayType element length).2 }
  add {l l' : Lowering} {s : C.Stmt} {u : Unit} :
    s.name? = none → Runs (addStmt s) l u l' → I l → I l'
  /-- A new variable of the active function, declared where statements are added. -/
  declare {l l' : Lowering} {a : Activation} {name : String} {t : C.Ty} {init : Option C.Expr}
      {vars : Std.TreeMap IrId C.VarId} {u : Unit} :
    name ∈ names →
    l.active.head? = some a →
    Runs (addStmt ((l.c.newLocal a.function name t).2.declareStmt ⟨l.c.vars.size⟩ init))
      { l with c := (l.c.newLocal a.function name t).2, vars := vars } u l' →
    I l → I l'
  begins {l l₁ l' : Lowering} {a : Activation} {b : C.BlockId} {u : Unit} :
    l.active.head? = some a →
    Runs (build (·.newBlock)) l b l₁ →
    Runs (pushBlock b) l₁ u l' →
    I l → I l'
  ends : Kept I popBlock

/-! ## Types and variables -/

/-- Only the wrappers of arrays are new after the C type of a type has been built. -/
theorem kept_type_of_wrap (h : ∀ {l : Lowering} (element : C.Ty) (length : C.Expr),
    I l → I { l with c := (l.c.arrayType element length).2 }) : ∀ t : Ty, Kept I (type t)
  | .bool r => entered (.bool r)
  | .int r w => entered (.int r w)
  | .uint r w => entered (.uint r w)
  | .float r w => entered (.float r w)
  | .struct r name fields => entered (.struct r name fields)
  | .array r element capacity => (kept_type_of_wrap h element).bind fun e => by
    intro l ct l' hr hi
    obtain ⟨_, rfl⟩ := runs_build.1 hr
    exact h e (arrayLength capacity) hi
  | .error _ => .defect _
  | .unit _ => .defect _
  | .infer _ => .defect _
  | .fn _ _ _ => .defect _
  | .field _ _ _ => .defect _
  | .generic _ _ => .defect _
where
  entered (t : Ty) : Kept I (Lower.entered t) := .ofState fun l => .require _ l.types[t.ref]?

theorem kept_type (h : Invariant names I) (t : Ty) : Kept I (type t) := kept_type_of_wrap h.wrap t

/-- A new variable for a declaration, declared at once. -/
theorem kept_declare (h : Invariant names I) {name : String} (hn : name ∈ names) (id : IrId)
    (t : C.Ty) (init : Option C.Expr) : Kept I (declare id name t init) := by
  intro l u l' hr hi
  obtain ⟨a, l₁, ra, h₁⟩ := runs_bind.1 hr
  obtain ⟨ha, rfl⟩ := runs_activation.1 ra
  obtain ⟨v, l₂, rv, h₂⟩ := runs_bind.1 h₁
  obtain ⟨rfl, rfl⟩ := runs_build.1 rv
  obtain ⟨_, l₃, rset, h₃⟩ := runs_bind.1 h₂
  obtain ⟨s, l₄, rs, radd⟩ := runs_bind.1 h₃
  obtain ⟨rfl, rfl⟩ := runs_look.1 rs
  rw [runs_modify.1 rset] at radd
  exact h.declare hn ha radd hi

theorem kept_temporary (h : Invariant names I) (hn : "__tmp" ∈ names) (t : Ty) :
    Kept I (temporary t) :=
  (kept_type h t).bind fun ct => by
    intro l v l' hr hi
    obtain ⟨a, l₁, ra, h₁⟩ := runs_bind.1 hr
    obtain ⟨ha, rfl⟩ := runs_activation.1 ra
    obtain ⟨v, l₂, rv, h₂⟩ := runs_bind.1 h₁
    obtain ⟨rfl, rfl⟩ := runs_build.1 rv
    obtain ⟨s, l₃, rs, h₃⟩ := runs_bind.1 h₂
    obtain ⟨rfl, rfl⟩ := runs_look.1 rs
    obtain ⟨_, l₄, radd, h₄⟩ := runs_bind.1 h₃
    obtain ⟨_, rfl⟩ := runs_pure.1 h₄
    exact h.declare hn ha radd hi

theorem kept_temporary? (h : Invariant names I) (hn : "__tmp" ∈ names) (t : Ty) :
    Kept I (temporary? t) := by
  unfold temporary?
  cases t.isUnit with
  | true => exact .pure _
  | false => exact (kept_temporary h hn t).bind fun _ => .pure _

theorem kept_add (h : Invariant names I) {s : C.Stmt} (hs : s.name? = none) :
    Kept I (addStmt s) := by
  intro l u l' hr
  exact h.add hs hr

theorem kept_store (h : Invariant names I) (v : C.VarId) (value : C.Expr) :
    Kept I (store v value) :=
  (Kept.look _).bind fun _ => kept_add h rfl

theorem kept_storeIn (h : Invariant names I) :
    ∀ (target : Option C.VarId) (value : Option C.Expr), Kept I (storeIn target value)
  | some v, some value => kept_store h v value
  | some _, none => .pure _
  | none, _ => .pure _

theorem kept_load : ∀ target : Option C.VarId, Kept I (load target)
  | some v => .look (·.varExpr v)
  | none => .pure _

theorem kept_keep (h : Invariant names I) (hn : "__tmp" ∈ names) (t : Ty) (value : C.Expr) :
    Kept I (keep t value) :=
  (kept_temporary? h hn t).bind fun target => by
    cases target with
    | some v => exact (kept_store h v value).bind fun _ => .look _
    | none => exact .pure _

theorem kept_inBlock (h : Invariant names I) (target : Option C.VarId)
    {body : Lower (Option C.Expr)} (hbody : Kept I body) : Kept I (inBlock target body) := by
  intro l b l' hr hi
  obtain ⟨_, l₁, ra, h₁⟩ := runs_bind.1 hr
  obtain ⟨a, ra⟩ := runs_discard.1 ra
  obtain ⟨ha, rfl⟩ := runs_activation.1 ra
  obtain ⟨x, l₂, rnew, h₂⟩ := runs_bind.1 h₁
  obtain ⟨_, l₃, rpush, h₃⟩ := runs_bind.1 h₂
  have hin : I l₃ := h.begins ha rnew rpush hi
  exact (hbody.bind fun v => (kept_storeIn h target v).bind fun _ => h.ends) h₃ hin

/-! ## Names, literals and fields -/

theorem kept_identifier (e : Expr) (name : String) : Kept I (identifier k e name) := by
  refine Kept.bind (.same fun hr => (runs_declaration hr).2) fun id => .ofState fun l => ?_
  cases l.vars[id]? with
  | some v => exact .pure _
  | none => exact .require _ _

theorem kept_literal (h : Invariant names I) (id : IrId) (lit : Literal) :
    Kept I (literal k id lit) := by
  refine (Kept.typeOf id).bind fun t => ?_
  have hfloat : Kept I (literal.float lit t (plainSpelling lit.spelling)) :=
    (Kept.require _ _).bind fun _ => (kept_type h t).bind fun _ => .pure _
  cases lit.kind with
  | bool => exact (Kept.require _ _).bind fun _ => .pure _
  | float => exact hfloat
  | int =>
    cases isFloat t with
    | true => exact hfloat
    | false => exact (Kept.require _ _).bind fun _ => (kept_type h t).bind fun _ => .pure _

theorem kept_effect (h : Invariant names I) {e : Expr} {value : Lower C.Expr} (hv : Kept I value) :
    Kept I (effect e value) := by
  refine hv.bind fun v => ?_
  cases addsItself e with
  | true => exact .pure _
  | false => exact kept_add h rfl

theorem kept_branch_of_expr (h : Invariant names I) {e : Expr}
    (hb : ∀ g ss tail, e ≠ .block g ss tail) (he : Kept I (expr k e)) : Kept I (branch k e) := by
  have hkept : Kept I (effectOnly e (expr k e)) := (kept_effect h he).bind fun _ => .pure _
  cases e with
  | block g ss tail => exact absurd rfl (hb g ss tail)
  | _ => exact hkept

/-! ## Expressions and statements -/

/-- Lowering the expression, by itself and as a branch, keeps the invariant. -/
structure KeptAll (k : Checked) (I : Lowering → Prop) (e : Expr) : Prop where
  expr : Kept I (expr k e)
  branch : Kept I (branch k e)

theorem keptAll_of_expr (h : Invariant names I) {e : Expr} (hb : ∀ g ss tail, e ≠ .block g ss tail)
    (he : Kept I (expr k e)) : KeptAll k I e :=
  ⟨he, kept_branch_of_expr h hb he⟩

mutual

theorem keptAll (h : Invariant names I) (hn : "__tmp" ∈ names) :
    ∀ e : Expr, Part.namesAll e.parts ⊆ names → KeptAll k I e
  | .literal g lit, _ => keptAll_of_expr h (by simp) (kept_literal h g.id.ir lit)
  | .identifier g name, _ => keptAll_of_expr h (by simp) (kept_identifier _ name)
  | .ret _ none, _ => keptAll_of_expr h (by simp)
    (Kept.activation.discard.bind fun _ => (kept_add h rfl).bind fun _ => .pure _)
  | .ret _ (some value), hs => keptAll_of_expr h (by simp)
    ((keptAll h hn value hs).expr.bind fun _ => Kept.activation.discard.bind fun _ =>
      (kept_add h rfl).bind fun _ => .pure _)
  | .call _ f args, hs => keptAll_of_expr h (by simp)
    (Kept.bind (.same fun hr => (runs_callee hr).2) fun _ =>
      (kept_exprs h hn args hs).bind fun _ => .look _)
  | .assign _ target value, hs => by
    obtain ⟨ht, hv⟩ := List.append_subset.1 (Part.namesAll_append .. ▸ hs)
    exact keptAll_of_expr h (by simp) ((keptAll h hn target ht).expr.bind fun _ =>
      (keptAll h hn value hv).expr.bind fun _ => (kept_add h rfl).bind fun _ => .pure _)
  | .binary _ op lhs rhs, hs => by
    obtain ⟨hl, hr⟩ := List.append_subset.1 (Part.namesAll_append .. ▸ hs)
    exact keptAll_of_expr h (by simp) ((keptAll h hn lhs hl).expr.bind fun _ =>
      (keptAll h hn rhs hr).expr.bind fun _ => .pure _)
  | .ifOnly g condition body, hs => by
    obtain ⟨hc, hb⟩ := List.append_subset.1 (Part.namesAll_append .. ▸ hs)
    refine keptAll_of_expr h (by simp) ?_
    rw [expr_ifOnly]
    exact (keptAll h hn condition hc).expr.bind fun _ =>
      (kept_inBlock h _ (keptAll h hn body hb).branch).bind fun _ =>
      (kept_add h rfl).bind fun _ => .pure _
  | .ifElse g condition thenBody elseBody, hs => by
    obtain ⟨hc, hb⟩ := List.append_subset.1 (Part.namesAll_append .. ▸ hs)
    obtain ⟨ht, he⟩ := List.append_subset.1 (Part.namesAll_append .. ▸ hb)
    refine keptAll_of_expr h (by simp) ?_
    rw [expr_ifElse]
    exact (Kept.typeOf _).bind fun t => (keptAll h hn condition hc).expr.bind fun _ =>
      (kept_temporary? h hn t).bind fun target =>
      (kept_inBlock h target (keptAll h hn thenBody ht).branch).bind fun _ =>
      (kept_inBlock h target (keptAll h hn elseBody he).branch).bind fun _ =>
      (kept_add h rfl).bind fun _ => kept_load target
  | .ifElseIf g condition thenBody elseIf, hs => by
    obtain ⟨hc, hb⟩ := List.append_subset.1 (Part.namesAll_append .. ▸ hs)
    obtain ⟨ht, he⟩ := List.append_subset.1 (Part.namesAll_append .. ▸ hb)
    refine keptAll_of_expr h (by simp) ?_
    rw [expr_ifElseIf]
    exact (keptAll h hn condition hc).expr.bind fun _ =>
      (kept_inBlock h _ (keptAll h hn thenBody ht).branch).bind fun _ =>
      (kept_inBlock h _ (keptAll h hn elseIf he).branch).bind fun _ =>
      (kept_add h rfl).bind fun _ => .pure _
  | .block g ss none, hs => by
    have hbranch : Kept I (branch k (.block g ss none)) :=
      (kept_stmts h hn ss hs).bind fun _ => .pure _
    exact ⟨(Kept.typeOf _).bind fun t => (kept_temporary? h hn t).bind fun target =>
      (kept_inBlock h target hbranch).bind fun _ => (kept_add h rfl).bind fun _ =>
      kept_load target, hbranch⟩
  | .block g ss (some e), hs => by
    obtain ⟨hss, he⟩ := List.append_subset.1 (Part.namesAll_append .. ▸ hs)
    have htail : Kept I (tailValue k (some e)) :=
      Kept.bind (.same fun hr => (runs_hasValue hr).2) fun b => by
        cases b with
        | true => exact (keptAll h hn e he).expr.bind fun _ => .pure _
        | false => exact (kept_effect h (keptAll h hn e he).expr).bind fun _ => .pure _
    have hbranch : Kept I (branch k (.block g ss (some e))) :=
      (kept_stmts h hn ss hss).bind fun _ => htail
    exact ⟨(Kept.typeOf _).bind fun t => (kept_temporary? h hn t).bind fun target =>
      (kept_inBlock h target hbranch).bind fun _ => (kept_add h rfl).bind fun _ =>
      kept_load target, hbranch⟩
  | .index _ base position, hs => by
    obtain ⟨hb, hp⟩ := List.append_subset.1 (Part.namesAll_append .. ▸ hs)
    exact keptAll_of_expr h (by simp) ((keptAll h hn base hb).expr.bind fun _ =>
      (keptAll h hn position hp).expr.bind fun _ => .pure _)
  | .array _ values, hs => keptAll_of_expr h (by simp)
    ((Kept.typeOf _).bind fun t => (kept_type h t).bind fun _ =>
      (kept_exprs h hn values hs).bind fun _ => .pure _)
  | .copies _ element count, hs => keptAll_of_expr h (by simp)
    ((Kept.typeOf _).bind fun t => (kept_type h t).bind fun _ =>
      (keptAll h hn element hs).expr.bind fun _ => .pure _)
  | .struct g path fields, hs => keptAll_of_expr h (by simp) ((Kept.typeOf _).bind fun t => by
    dsimp only
    cases t.struct? with
    | none => exact .defect _
    | some found =>
      exact (kept_type h t).bind fun _ => (kept_fields h hn _ fields hs).bind fun _ =>
        Kept.bind (.same fun hr => (runs_inDeclaredOrder hr).2) fun _ => .pure _)

theorem kept_exprs (h : Invariant names I) (hn : "__tmp" ∈ names) :
    ∀ es : List Expr, Part.namesAll (Expr.partsAll es) ⊆ names → Kept I (exprs k es)
  | [], _ => .pure _
  | e :: rest, hs => by
    obtain ⟨he, hr⟩ := List.append_subset.1 (Part.namesAll_append .. ▸ hs)
    exact (keptAll h hn e he).expr.bind fun _ => (kept_exprs h hn rest hr).bind fun _ => .pure _

theorem kept_fields (h : Invariant names I) (hn : "__tmp" ∈ names) (inOrder : Bool) :
    ∀ fs : List FieldInit, Part.namesAll (FieldInit.partsAll fs) ⊆ names →
      Kept I (fieldInits k inOrder fs)
  | [], _ => .pure _
  | .mk _ name value :: rest, hs => by
    obtain ⟨hv, hr⟩ := List.append_subset.1 (Part.namesAll_append .. ▸ hs)
    refine (keptAll h hn value hv).expr.bind fun v => ?_
    cases inOrder || isInert value with
    | true => exact (kept_fields h hn inOrder rest hr).bind fun _ => .pure _
    | false =>
      exact (Kept.typeOf _).bind fun t => (kept_keep h hn t v).bind fun _ =>
        (kept_fields h hn inOrder rest hr).bind fun _ => .pure _

theorem kept_stmt (h : Invariant names I) (hn : "__tmp" ∈ names) :
    ∀ st : Stmt, Part.namesAll st.parts ⊆ names → Kept I (stmt k st)
  | .expr e, hs => kept_effect h (keptAll h hn e hs).expr
  | .bind g pattern ascribed none, hs => (Kept.typeOf _).bind fun t => by
    have hname : pattern.name ∈ names := hs (by simp [Stmt.parts, Part.namesAll, Part.names])
    cases t.isUnit || t.isInfer with
    | true => exact .pure _
    | false => exact (kept_type h t).bind fun ct => kept_declare h hname _ ct none
  | .bind g pattern ascribed (some init), hs => (Kept.typeOf _).bind fun t => by
    have hname : pattern.name ∈ names := hs (by simp [Stmt.parts, Part.namesAll, Part.names])
    have hi : Part.namesAll init.parts ⊆ names := by
      intro n hm
      have hall : n ∈ Part.namesAll (TypeExpr.partsOf ascribed ++ init.parts) := by
        rw [Part.namesAll_append]
        exact List.mem_append_right _ hm
      exact hs (List.mem_append_right _ hall)
    cases t.isUnit || t.isInfer with
    | true => exact kept_effect h (keptAll h hn init hi).expr
    | false =>
      exact (kept_type h t).bind fun ct => (keptAll h hn init hi).expr.bind fun v =>
        kept_declare h hname _ ct (some v)

theorem kept_stmts (h : Invariant names I) (hn : "__tmp" ∈ names) :
    ∀ ss : List Stmt, Part.namesAll (Stmt.partsAll ss) ⊆ names → Kept I (stmts k ss)
  | [], _ => .pure _
  | s :: rest, hs => by
    obtain ⟨hstmt, hrest⟩ := List.append_subset.1 (Part.namesAll_append .. ▸ hs)
    exact (kept_stmt h hn s hstmt).bind fun _ => kept_stmts h hn rest hrest

end

end Lower

end MiddleEnd
