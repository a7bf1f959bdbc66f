/-
  Names in scope. An expression is scoped where every name in it stands for a variable that is
  visible there: a variable from outside, or that of a `let` that stands before it in a block
  around it.

  A `let` is visible after it and until its block ends; its own initial value does not see it.
-/
import MiddleEnd.Proofs.Check.Binding

namespace MiddleEnd

/-- The variables that a statement makes visible to the statements after it. -/
def Stmt.introduced : Stmt → List IrId
  | .bind h _ _ _ => [h.id.ir]
  | .expr _ => []

def Stmt.introducedAll : List Stmt → List IrId
  | [] => []
  | st :: rest => introducedAll rest ++ st.introduced

/-- The name `e` stands for one of the variables. -/
def Scope.sees (s : Scope) (vars : List IrId) (e : Expr) : Bool :=
  match Check.declaration s e with
  | .ok id => vars.contains id
  | .error _ => false

mutual

/-- All names in the expression are in scope, where these variables are visible. -/
def Expr.scoped (s : Scope) (vars : List IrId) : Expr → Bool
  | .literal _ _ => true
  | .identifier h name => s.sees vars (.identifier h name)
  | .ret _ none => true
  | .ret _ (some value) => value.scoped s vars
  | .call _ _ args => Expr.scopedAll s vars args
  | .assign _ target value => target.scoped s vars && value.scoped s vars
  | .binary _ _ lhs rhs => lhs.scoped s vars && rhs.scoped s vars
  | .ifOnly _ condition body => condition.scoped s vars && body.scoped s vars
  | .ifElse _ condition thenBody elseBody =>
    condition.scoped s vars && (thenBody.scoped s vars && elseBody.scoped s vars)
  | .ifElseIf _ condition thenBody elseIf =>
    condition.scoped s vars && (thenBody.scoped s vars && elseIf.scoped s vars)
  | .block _ stmts none => Stmt.scopedAll s vars stmts
  | .block _ stmts (some tail) =>
    Stmt.scopedAll s vars stmts && tail.scoped s (Stmt.introducedAll stmts ++ vars)
  | .index _ base position => base.scoped s vars && position.scoped s vars
  | .array _ values => Expr.scopedAll s vars values
  | .copies _ element _ => element.scoped s vars
  | .struct _ _ fields => FieldInit.scopedAll s vars fields

def Expr.scopedAll (s : Scope) (vars : List IrId) : List Expr → Bool
  | [] => true
  | e :: rest => e.scoped s vars && Expr.scopedAll s vars rest

def Stmt.scoped (s : Scope) (vars : List IrId) : Stmt → Bool
  | .bind _ _ _ none => true
  | .bind _ _ _ (some init) => init.scoped s vars
  | .expr e => e.scoped s vars

def Stmt.scopedAll (s : Scope) (vars : List IrId) : List Stmt → Bool
  | [] => true
  | st :: rest => st.scoped s vars && Stmt.scopedAll s (st.introduced ++ vars) rest

def FieldInit.scopedAll (s : Scope) (vars : List IrId) : List FieldInit → Bool
  | [] => true
  | .mk _ _ value :: rest => value.scoped s vars && FieldInit.scopedAll s vars rest

end

variable {s : Scope} {vars : List IrId}

theorem Scope.sees_iff {e : Expr} :
    s.sees vars e = true ↔ ∃ id, Check.declaration s e = .ok id ∧ id ∈ vars := by
  unfold Scope.sees
  cases Check.declaration s e with
  | ok id => simp
  | error p => simp

/-! ## Where names are declared -/

/-- Names among the parts stand for the given variables, or for those of `let`s among the parts. -/
def NamesWithin (s : Scope) (vars : List IrId) (parts : List Part) : Prop :=
  ∀ g x, .expr (.identifier g x) ∈ parts →
    ∃ id, Check.declaration s (.identifier g x) = .ok id ∧
      (id ∈ vars ∨ id ∈ parts.flatMap Part.lets)

namespace NamesWithin

variable {new : List IrId} {parts parts' : List Part}

theorem nil : NamesWithin s vars [] := fun _ _ hm => absurd hm List.not_mem_nil

/-- The second part may see what the first one declares. -/
theorem after (h : NamesWithin s vars parts) (hn : ∀ id ∈ new, id ∈ parts.flatMap Part.lets)
    (h' : NamesWithin s (new ++ vars) parts') : NamesWithin s vars (parts ++ parts') := by
  intro g x hm
  rw [List.flatMap_append]
  rcases List.mem_append.1 hm with hm | hm
  · obtain ⟨id, hd, hid⟩ := h g x hm
    exact ⟨id, hd, hid.imp_right (List.mem_append_left _)⟩
  · obtain ⟨id, hd, hid⟩ := h' g x hm
    refine ⟨id, hd, ?_⟩
    rcases hid with hid | hid
    · rcases List.mem_append.1 hid with hid | hid
      · exact .inr (List.mem_append_left _ (hn id hid))
      · exact .inl hid
    · exact .inr (List.mem_append_right _ hid)

theorem append (h : NamesWithin s vars parts) (h' : NamesWithin s vars parts') :
    NamesWithin s vars (parts ++ parts') :=
  h.after (fun _ hid => absurd hid List.not_mem_nil) (List.nil_append vars ▸ h')

/-- A part that is no name. -/
theorem cons (h : NamesWithin s vars parts) {p : Part}
    (hp : ∀ g x, p ≠ .expr (.identifier g x)) : NamesWithin s vars (p :: parts) :=
  have hthis : NamesWithin s vars [p] := fun g x hm =>
    absurd (List.mem_singleton.1 hm).symm (hp g x)
  hthis.append h

theorem quiet (h : ∀ e, .expr e ∉ parts) : NamesWithin s vars parts :=
  fun _ _ hm => absurd hm (h _)

end NamesWithin

theorem Stmt.introduced_sub : ∀ {st : Stmt} {id : IrId}, id ∈ st.introduced →
    id ∈ st.parts.flatMap Part.lets
  | .bind h pattern ascribed none, id, hid => by
    rw [Stmt.parts, List.flatMap_cons]
    exact List.mem_append_left _ (List.mem_cons.2 (.inl (List.mem_singleton.1 hid)))
  | .bind h pattern ascribed (some init), id, hid => by
    rw [Stmt.parts, List.flatMap_cons]
    exact List.mem_append_left _ (List.mem_cons.2 (.inl (List.mem_singleton.1 hid)))
  | .expr _, _, hid => absurd hid List.not_mem_nil

theorem Stmt.introducedAll_sub : ∀ {sts : List Stmt} {id : IrId}, id ∈ introducedAll sts →
    id ∈ (Stmt.partsAll sts).flatMap Part.lets
  | [], _, hid => absurd hid List.not_mem_nil
  | st :: rest, id, hid => by
    rw [Stmt.partsAll, List.flatMap_append]
    rcases List.mem_append.1 hid with hid | hid
    · exact List.mem_append_right _ (introducedAll_sub hid)
    · exact List.mem_append_left _ (introduced_sub hid)

mutual

theorem Expr.namesWithin : ∀ {e : Expr} {vars : List IrId}, e.scoped s vars = true →
    NamesWithin s vars e.parts
  | .literal _ _, _, _ => NamesWithin.nil.cons (by simp)
  | .identifier h name, vars, hs => by
    intro g x hm
    cases List.mem_singleton.1 hm
    obtain ⟨id, hd, hid⟩ := Scope.sees_iff.1 hs
    exact ⟨id, hd, .inl hid⟩
  | .ret _ none, _, _ => NamesWithin.nil.cons (by simp)
  | .ret _ (some value), _, hs => (Expr.namesWithin (e := value) hs).cons (by simp)
  | .call _ callee args, _, hs =>
    ((Expr.namesWithinAll args hs).cons (by simp)).cons (by simp)
  | .assign _ target value, _, hs => by
    obtain ⟨ht, hv⟩ := Bool.and_eq_true _ _ ▸ hs
    exact ((Expr.namesWithin ht).append (Expr.namesWithin hv)).cons (by simp)
  | .binary _ _ lhs rhs, _, hs => by
    obtain ⟨hl, hr⟩ := Bool.and_eq_true _ _ ▸ hs
    exact ((Expr.namesWithin hl).append (Expr.namesWithin hr)).cons (by simp)
  | .ifOnly _ condition body, _, hs => by
    obtain ⟨hc, hb⟩ := Bool.and_eq_true _ _ ▸ hs
    exact ((Expr.namesWithin hc).append (Expr.namesWithin hb)).cons (by simp)
  | .ifElse _ condition thenBody elseBody, _, hs => by
    obtain ⟨hc, hb⟩ := Bool.and_eq_true _ _ ▸ hs
    obtain ⟨ht, he⟩ := Bool.and_eq_true _ _ ▸ hb
    exact ((Expr.namesWithin hc).append
      ((Expr.namesWithin ht).append (Expr.namesWithin he))).cons (by simp)
  | .ifElseIf _ condition thenBody elseIf, _, hs => by
    obtain ⟨hc, hb⟩ := Bool.and_eq_true _ _ ▸ hs
    obtain ⟨ht, he⟩ := Bool.and_eq_true _ _ ▸ hb
    exact ((Expr.namesWithin hc).append
      ((Expr.namesWithin ht).append (Expr.namesWithin he))).cons (by simp)
  | .block _ stmts none, _, hs => (Stmt.namesWithinAll stmts hs).cons (by simp)
  | .block _ stmts (some tail), _, hs => by
    obtain ⟨hss, ht⟩ := Bool.and_eq_true _ _ ▸ hs
    exact ((Stmt.namesWithinAll stmts hss).after (fun _ hid => Stmt.introducedAll_sub hid)
      (Expr.namesWithin ht)).cons (by simp)
  | .index _ base position, _, hs => by
    obtain ⟨hb, hp⟩ := Bool.and_eq_true _ _ ▸ hs
    exact ((Expr.namesWithin hb).append (Expr.namesWithin hp)).cons (by simp)
  | .array _ values, _, hs => (Expr.namesWithinAll values hs).cons (by simp)
  | .copies _ element _, _, hs => (Expr.namesWithin (e := element) hs).cons (by simp)
  | .struct _ _ fields, _, hs =>
    ((FieldInit.namesWithinAll fields hs).cons (by simp)).cons (by simp)

theorem Expr.namesWithinAll : ∀ (es : List Expr) {vars : List IrId},
    Expr.scopedAll s vars es = true → NamesWithin s vars (Expr.partsAll es)
  | [], _, _ => .nil
  | e :: rest, _, hs => by
    obtain ⟨he, hr⟩ := Bool.and_eq_true _ _ ▸ hs
    exact (Expr.namesWithin he).append (Expr.namesWithinAll rest hr)

theorem Stmt.namesWithin : ∀ {st : Stmt} {vars : List IrId}, st.scoped s vars = true →
    NamesWithin s vars st.parts
  | .bind _ _ ascribed none, _, _ =>
    (NamesWithin.quiet (TypeExpr.noExpr_partsOf ascribed)).cons (by simp)
  | .bind _ _ ascribed (some init), _, hs =>
    ((NamesWithin.quiet (TypeExpr.noExpr_partsOf ascribed)).append
      (Expr.namesWithin (e := init) hs)).cons (by simp)
  | .expr e, _, hs => Expr.namesWithin (e := e) hs

theorem Stmt.namesWithinAll : ∀ (sts : List Stmt) {vars : List IrId},
    Stmt.scopedAll s vars sts = true → NamesWithin s vars (Stmt.partsAll sts)
  | [], _, _ => .nil
  | st :: rest, _, hs => by
    obtain ⟨hst, hr⟩ := Bool.and_eq_true _ _ ▸ hs
    exact (Stmt.namesWithin hst).after (fun _ hid => Stmt.introduced_sub hid)
      (Stmt.namesWithinAll rest hr)

theorem FieldInit.namesWithinAll : ∀ (fs : List FieldInit) {vars : List IrId},
    FieldInit.scopedAll s vars fs = true → NamesWithin s vars (FieldInit.partsAll fs)
  | [], _, _ => .nil
  | .mk _ _ value :: rest, _, hs => by
    obtain ⟨hv, hr⟩ := Bool.and_eq_true _ _ ▸ hs
    exact ((Expr.namesWithin hv).append (FieldInit.namesWithinAll rest hr)).cons (by simp)

end

end MiddleEnd
