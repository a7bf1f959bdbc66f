/-
  The identities of a program told without its walk. A piece of the syntax carries the identities
  given to it and those that its components carry (`Piece.Carries`). The walk visits just these
  (`Program.mem_nodes_iff_carries`): the components of a piece are smaller than it, so an identity
  that is visited is found by going down from piece to piece.
-/
import Mathlib.Logic.Basic
import MiddleEnd.Syntax.Visit

namespace MiddleEnd

/-- A piece of the syntax of a program. -/
inductive Piece
  | program (p : Program)
  | item (i : Item)
  | param (p : Param)
  | fieldDecl (f : FieldDecl)
  | ascription (a : TypeExpr)
  | stmt (st : Stmt)
  | expr (e : Expr)
  | fieldInit (f : FieldInit)

namespace Piece

/-- The identities given to the piece itself. A parameter and a `let` have a pattern with an
identity of its own, a struct literal a path. -/
def identities : Piece → List Identity
  | program _ => []
  | item i => [i.head.id]
  | param p => [p.head.id, p.pattern.id]
  | fieldDecl f => [f.head.id]
  | ascription a => [a.head.id]
  | stmt (.bind h pattern _ _) => [h.id, pattern.id]
  | stmt (.expr _) => []
  | expr (.struct h path _) => [h.id, path.id]
  | expr e => [e.head.id]
  | fieldInit f => [f.head.id]

/-- The pieces that the piece is put together from. -/
def components : Piece → List Piece
  | program p => p.items.map item
  | item ⟨_, .function d⟩ =>
    d.params.map param ++ (d.returns.toList.map ascription ++ [expr d.body])
  | item ⟨_, .struct d⟩ => d.fields.map fieldDecl
  | item ⟨_, .constant d⟩ => [ascription d.type, expr d.value]
  | item ⟨_, .static d⟩ => [ascription d.type, expr d.value]
  | param p => [ascription p.type]
  | fieldDecl f => [ascription f.type]
  | ascription (.path ..) => []
  | ascription (.array _ element _) => [ascription element]
  | ascription (.unit _) => []
  | stmt (.bind _ _ ascribed init) => ascribed.toList.map ascription ++ init.toList.map expr
  | stmt (.expr e) => [expr e]
  | expr (.literal ..) => []
  | expr (.identifier ..) => []
  | expr (.ret _ value) => value.toList.map expr
  | expr (.call _ callee args) => expr callee :: args.map expr
  | expr (.assign _ target value) => [expr target, expr value]
  | expr (.binary _ _ lhs rhs) => [expr lhs, expr rhs]
  | expr (.ifOnly _ condition body) => [expr condition, expr body]
  | expr (.ifElse _ condition thenBody elseBody) =>
    [expr condition, expr thenBody, expr elseBody]
  | expr (.ifElseIf _ condition thenBody elseIf) => [expr condition, expr thenBody, expr elseIf]
  | expr (.block _ stmts tail) => stmts.map stmt ++ tail.toList.map expr
  | expr (.index _ base position) => [expr base, expr position]
  | expr (.array _ values) => values.map expr
  | expr (.copies _ element _) => [expr element]
  | expr (.struct _ _ fields) => fields.map fieldInit
  | fieldInit f => [expr f.value]

/-- The identity is given to the piece or to a piece anywhere in it. -/
inductive Carries : Piece → Identity → Prop
  | own {p : Piece} {i : Identity} : i ∈ p.identities → Carries p i
  | within {p q : Piece} {i : Identity} : q ∈ p.components → Carries q i → Carries p i

/-- The steps of the walk through the piece. -/
def visits : Piece → List Visit
  | program p => p.visits
  | item i => i.visits
  | param p => p.visits
  | fieldDecl f => f.visits
  | ascription a => a.visits
  | stmt st => st.visits
  | expr e => e.visits
  | fieldInit f => FieldInit.visitsAll [f]

end Piece

/-! ## The walk -/

/-- The walk comes to a node with the identity. -/
def Visited (vs : List Visit) (i : Identity) : Prop := ∃ l, .node i l ∈ vs

section

variable {i : Identity} {vs ws : List Visit}

@[simp] theorem visited_nil : Visited [] i ↔ False := by simp [Visited]

@[simp] theorem visited_node (j : Identity) (l : Location) :
    Visited (.node j l :: vs) i ↔ i = j ∨ Visited vs i := by
  simp [Visited, exists_or]

@[simp] theorem visited_ofHead (h : Head) :
    Visited (.ofHead h :: vs) i ↔ i = h.id ∨ Visited vs i :=
  visited_node h.id h.locus

@[simp] theorem visited_typePath (id : SurfaceId) (name : String) :
    Visited (.typePath id name :: vs) i ↔ Visited vs i := by
  simp [Visited]

@[simp] theorem visited_append : Visited (vs ++ ws) i ↔ Visited vs i ∨ Visited ws i := by
  simp [Visited, exists_or]

@[simp] theorem visited_flatMap {α : Type} (f : α → List Visit) (l : List α) :
    Visited (l.flatMap f) i ↔ ∃ a ∈ l, Visited (f a) i := by
  simp only [Visited, List.mem_flatMap]
  exact ⟨fun ⟨k, a, ha, hk⟩ => ⟨a, ha, k, hk⟩, fun ⟨a, ha, k, hk⟩ => ⟨k, a, ha, hk⟩⟩

@[simp] theorem visited_visitsOf (a : Option TypeExpr) :
    Visited (TypeExpr.visitsOf a) i ↔ ∃ t ∈ a, Visited t.visits i := by
  cases a <;> simp [TypeExpr.visitsOf]

@[simp] theorem visited_visitsAll (es : List Expr) :
    Visited (Expr.visitsAll es) i ↔ ∃ e ∈ es, Visited e.visits i := by
  induction es with
  | nil => simp [Expr.visitsAll]
  | cons e es ih => simp [Expr.visitsAll, ih]

@[simp] theorem visited_stmts (sts : List Stmt) :
    Visited (Stmt.visitsAll sts) i ↔ ∃ st ∈ sts, Visited st.visits i := by
  induction sts with
  | nil => simp [Stmt.visitsAll]
  | cons st sts ih => simp [Stmt.visitsAll, ih]

@[simp] theorem visited_fieldInits (fs : List FieldInit) :
    Visited (FieldInit.visitsAll fs) i ↔
      ∃ f ∈ fs, i = f.head.id ∨ Visited f.value.visits i := by
  induction fs with
  | nil => simp [FieldInit.visitsAll]
  | cons f fs ih =>
    obtain ⟨h, name, value⟩ := f
    simp [FieldInit.visitsAll, ih, FieldInit.head, FieldInit.value, or_assoc]

end

namespace Piece

variable {i : Identity}

section

attribute [local simp] identities components visits

/-- One level of the walk: the piece itself, then its components. -/
theorem visited_visits (p : Piece) :
    Visited p.visits i ↔ i ∈ p.identities ∨ ∃ q ∈ p.components, Visited q.visits i := by
  cases p with
  | program p => simp [Program.visits]
  | item it =>
    obtain ⟨h, k⟩ := it
    cases k <;> simp [Item.visits, ItemKind.visits, or_and_right, exists_or]
  | param p => simp [Param.visits, or_assoc]
  | fieldDecl f => simp [FieldDecl.visits]
  | ascription a => cases a <;> simp [TypeExpr.visits, TypeExpr.head]
  | stmt st =>
    cases st with
    | bind h pattern ascribed init =>
      cases ascribed <;> cases init <;> simp [Stmt.visits, or_assoc]
    | expr e => simp [Stmt.visits]
  | expr e =>
    cases e with
    | ret h value => cases value <;> simp [Expr.visits, Expr.head]
    | block h sts tail =>
      cases tail <;> simp [Expr.visits, Expr.head, or_and_right, exists_or]
    | _ => simp [Expr.visits, Expr.head, or_assoc]
  | fieldInit f => simp

/-- The components of a piece are smaller than the piece. -/
theorem sizeOf_lt_of_mem_components {p q : Piece} (h : q ∈ p.components) :
    sizeOf q < sizeOf p := by
  have hlist : ∀ {α : Type} [SizeOf α] {l : List α} {a : α}, a ∈ l → sizeOf a < sizeOf l :=
    List.sizeOf_lt_of_mem
  cases p with
  | program p => cases p; simp at h ⊢; grind
  | item it =>
    obtain ⟨_, k⟩ := it
    cases k with
    | function d => obtain ⟨_, _, returns, _⟩ := d; cases returns <;> simp at h ⊢ <;> grind
    | struct d => cases d; simp at h ⊢; grind
    | constant d => cases d; simp at h ⊢; grind
    | static d => cases d; simp at h ⊢; grind
  | param p => cases p; simp at h ⊢; grind
  | fieldDecl f => cases f; simp at h ⊢; grind
  | ascription a => cases a <;> simp at h ⊢; grind
  | stmt st =>
    cases st with
    | bind _ _ ascribed init => cases ascribed <;> cases init <;> simp at h ⊢ <;> grind
    | expr e => simp at h ⊢; grind
  | expr e =>
    cases e with
    | ret _ value => cases value <;> simp at h ⊢ <;> grind
    | block _ _ tail => cases tail <;> simp at h ⊢ <;> grind
    | _ => simp at h ⊢ <;> grind
  | fieldInit f => cases f; simp at h ⊢; grind [FieldInit.value]

end

theorem Carries.visited {p : Piece} (h : p.Carries i) : Visited p.visits i := by
  induction h with
  | own h => exact (visited_visits _).2 (.inl h)
  | within hq _ ih => exact (visited_visits _).2 (.inr ⟨_, hq, ih⟩)

theorem carries_of_visited (p : Piece) (h : Visited p.visits i) : p.Carries i := by
  rcases (visited_visits p).1 h with h | ⟨q, hq, h⟩
  · exact .own h
  · exact .within hq (carries_of_visited q h)
termination_by sizeOf p
decreasing_by exact sizeOf_lt_of_mem_components hq

end Piece

/-- The identity stands anywhere in the program. -/
def Program.Carries (p : Program) (i : Identity) : Prop := (Piece.program p).Carries i

/-- The walk visits the identities that stand in the program, and no others. -/
theorem Program.mem_nodes_iff_carries {p : Program} {i : Identity} :
    (∃ l, (i, l) ∈ p.nodes) ↔ p.Carries i := by
  have hnodes : (∃ l, (i, l) ∈ p.nodes) ↔ Visited p.visits i := by
    refine exists_congr fun l => ?_
    rw [Program.nodes, List.mem_filterMap]
    refine ⟨?_, fun h => ⟨_, h, rfl⟩⟩
    rintro ⟨v, hv, h⟩
    cases v with
    | node j k => cases h; exact hv
    | typePath => cases h
  exact hnodes.trans ⟨Piece.carries_of_visited (.program p), Piece.Carries.visited⟩

end MiddleEnd
