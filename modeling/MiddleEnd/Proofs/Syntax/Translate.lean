/-
  Other numbers and other names at once. A translation renumbers all nodes of a program and renames
  what stands for values: identifiers, the patterns of parameters and of `let`s, functions,
  constants and static items. The names of types, of structs and of their fields stay. The walk over
  the translated program meets the same nodes under their new numbers (`Program.visits_translate`).

  A translation that keeps all names only renumbers (`Program.translate_id`).
-/
import MiddleEnd.Proofs.Syntax.Renumber

namespace MiddleEnd

variable (ρ : Renumbering) (ν : String → String)

/-! ## Translated syntax -/

def Pattern.translate (p : Pattern) : Pattern :=
  ⟨p.id.renumber ρ, ν p.name, p.isMutable⟩

mutual

def Expr.translate : Expr → Expr
  | .literal h lit => .literal (h.renumber ρ) lit
  | .identifier h name => .identifier (h.renumber ρ) (ν name)
  | .ret h none => .ret (h.renumber ρ) none
  | .ret h (some value) => .ret (h.renumber ρ) (some value.translate)
  | .call h callee args =>
    .call (h.renumber ρ) callee.translate (Expr.translateAll args)
  | .assign h target value =>
    .assign (h.renumber ρ) target.translate value.translate
  | .binary h op lhs rhs => .binary (h.renumber ρ) op lhs.translate rhs.translate
  | .ifOnly h condition body =>
    .ifOnly (h.renumber ρ) condition.translate body.translate
  | .ifElse h condition thenBody elseBody =>
    .ifElse (h.renumber ρ) condition.translate thenBody.translate elseBody.translate
  | .ifElseIf h condition thenBody elseIf =>
    .ifElseIf (h.renumber ρ) condition.translate thenBody.translate elseIf.translate
  | .block h stmts none => .block (h.renumber ρ) (Stmt.translateAll stmts) none
  | .block h stmts (some tail) =>
    .block (h.renumber ρ) (Stmt.translateAll stmts) (some tail.translate)
  | .index h base position =>
    .index (h.renumber ρ) base.translate position.translate
  | .array h values => .array (h.renumber ρ) (Expr.translateAll values)
  | .copies h element count => .copies (h.renumber ρ) element.translate count
  | .struct h path fields =>
    .struct (h.renumber ρ) (path.renumber ρ)
      (FieldInit.translateAll fields)

def Expr.translateAll : List Expr → List Expr
  | [] => []
  | e :: rest => e.translate :: Expr.translateAll rest

def Stmt.translate : Stmt → Stmt
  | .bind h pattern ascribed none =>
    .bind (h.renumber ρ) (pattern.translate ρ ν)
      (ascribed.map (TypeExpr.renumber ρ)) none
  | .bind h pattern ascribed (some init) =>
    .bind (h.renumber ρ) (pattern.translate ρ ν)
      (ascribed.map (TypeExpr.renumber ρ)) (some init.translate)
  | .expr e => .expr e.translate

def Stmt.translateAll : List Stmt → List Stmt
  | [] => []
  | st :: rest => st.translate :: Stmt.translateAll rest

def FieldInit.translateAll : List FieldInit → List FieldInit
  | [] => []
  | .mk h name value :: rest =>
    .mk (h.renumber ρ) name value.translate :: FieldInit.translateAll rest

end

def Param.translate (p : Param) : Param :=
  ⟨p.head.renumber ρ, p.pattern.translate ρ ν, p.type.renumber ρ⟩

def FunctionDecl.translate (d : FunctionDecl) : FunctionDecl :=
  ⟨ν d.name, d.params.map (Param.translate ρ ν),
    d.returns.map (TypeExpr.renumber ρ), d.body.translate ρ ν⟩

def ConstantDecl.translate (d : ConstantDecl) : ConstantDecl :=
  ⟨ν d.name, d.type.renumber ρ, d.value.translate ρ ν⟩

def StaticDecl.translate (d : StaticDecl) : StaticDecl :=
  ⟨ν d.name, d.isMutable, d.type.renumber ρ, d.value.translate ρ ν⟩

def ItemKind.translate : ItemKind → ItemKind
  | .function d => .function (d.translate ρ ν)
  | .struct d => .struct (d.renumber ρ)
  | .constant d => .constant (d.translate ρ ν)
  | .static d => .static (d.translate ρ ν)

def Item.translate (i : Item) : Item := ⟨i.head.renumber ρ, i.kind.translate ρ ν⟩

def Program.translate (p : Program) : Program := ⟨p.crate, p.items.map (Item.translate ρ ν)⟩

/-! ## What stays -/

namespace Expr

@[simp] theorem head_translate (e : Expr) :
    (e.translate ρ ν).head = e.head.renumber ρ := by
  cases e with
  | ret h value => cases value <;> rfl
  | block h stmts tail => cases tail <;> rfl
  | _ => rfl

@[simp] theorem locus_translate (e : Expr) : (e.translate ρ ν).locus = e.locus := by
  unfold locus
  rw [head_translate, Head.renumber_locus]

@[simp] theorem ir_translate (e : Expr) : (e.translate ρ ν).ir = ρ.ir e.ir := by
  unfold ir
  rw [head_translate, Head.renumber_ir]

@[simp] theorem surface_translate (e : Expr) : (e.translate ρ ν).surface = ρ.surface e.surface := by
  unfold surface
  rw [head_translate, Head.renumber_surface]

@[simp] theorem tail?_translate (e : Expr) :
    (e.translate ρ ν).tail? = e.tail?.map (translate ρ ν) := by
  cases e with
  | ret h value => cases value <;> rfl
  | block h stmts tail => cases tail <;> rfl
  | _ => rfl

theorem translate_ne_identifier {ρ : Renumbering} {ν : String → String} {e : Expr}
    (h : ∀ g name, e ≠ .identifier g name) (g : Head) (name : String) :
    e.translate ρ ν ≠ .identifier g name := by
  intro he
  cases e with
  | identifier g' name' => exact h g' name' rfl
  | ret h value => cases value <;> cases he
  | block h stmts tail => cases tail <;> cases he
  | _ => cases he

@[simp] theorem length_translateAll (es : List Expr) :
    (translateAll ρ ν es).length = es.length := by
  induction es with
  | nil => rfl
  | cons e rest ih => simp [translateAll, ih]

@[simp] theorem map_locus_translateAll (es : List Expr) :
    (translateAll ρ ν es).map locus = es.map locus := by
  induction es with
  | nil => rfl
  | cons e rest ih => rw [translateAll, List.map_cons, List.map_cons, locus_translate, ih]

end Expr

@[simp] theorem FieldInit.map_name_translateAll (fs : List FieldInit) :
    (translateAll ρ ν fs).map name = fs.map name := by
  induction fs with
  | nil => rfl
  | cons f rest ih =>
    cases f
    exact congrArg (_ :: ·) ih

@[simp] theorem Item.isStruct_translate (i : Item) : (i.translate ρ ν).isStruct = i.isStruct := by
  obtain ⟨h, k⟩ := i
  cases k <;> rfl

/-! ## Translations that keep all names -/

mutual

theorem Expr.translate_id : ∀ e : Expr, e.translate ρ id = e.renumber ρ
  | .literal _ _ | .identifier _ _ | .ret _ none => rfl
  | .ret _ (some value) => by simp only [Expr.translate, Expr.renumber, Expr.translate_id value]
  | .call _ callee args => by
    simp only [Expr.translate, Expr.renumber, Expr.translate_id callee, Expr.translateAll_id args]
  | .assign _ target value => by
    simp only [Expr.translate, Expr.renumber, Expr.translate_id target, Expr.translate_id value]
  | .binary _ _ lhs rhs => by
    simp only [Expr.translate, Expr.renumber, Expr.translate_id lhs, Expr.translate_id rhs]
  | .ifOnly _ condition body => by
    simp only [Expr.translate, Expr.renumber, Expr.translate_id condition, Expr.translate_id body]
  | .ifElse _ condition thenBody elseBody => by
    simp only [Expr.translate, Expr.renumber, Expr.translate_id condition,
      Expr.translate_id thenBody, Expr.translate_id elseBody]
  | .ifElseIf _ condition thenBody elseIf => by
    simp only [Expr.translate, Expr.renumber, Expr.translate_id condition,
      Expr.translate_id thenBody, Expr.translate_id elseIf]
  | .block _ stmts none => by simp only [Expr.translate, Expr.renumber, Stmt.translateAll_id stmts]
  | .block _ stmts (some tail) => by
    simp only [Expr.translate, Expr.renumber, Stmt.translateAll_id stmts, Expr.translate_id tail]
  | .index _ base position => by
    simp only [Expr.translate, Expr.renumber, Expr.translate_id base, Expr.translate_id position]
  | .array _ values => by simp only [Expr.translate, Expr.renumber, Expr.translateAll_id values]
  | .copies _ element _ => by simp only [Expr.translate, Expr.renumber, Expr.translate_id element]
  | .struct _ _ fields => by
    simp only [Expr.translate, Expr.renumber, FieldInit.translateAll_id fields]

theorem Expr.translateAll_id : ∀ es : List Expr, Expr.translateAll ρ id es = Expr.renumberAll ρ es
  | [] => rfl
  | e :: rest => by
    rw [Expr.translateAll, Expr.renumberAll, Expr.translate_id e, Expr.translateAll_id rest]

theorem Stmt.translate_id : ∀ st : Stmt, st.translate ρ id = st.renumber ρ
  | .bind _ _ _ none => rfl
  | .bind _ _ _ (some init) => by
    rw [Stmt.translate, Stmt.renumber, Expr.translate_id init]
    rfl
  | .expr e => congrArg Stmt.expr (Expr.translate_id e)

theorem Stmt.translateAll_id :
    ∀ sts : List Stmt, Stmt.translateAll ρ id sts = Stmt.renumberAll ρ sts
  | [] => rfl
  | st :: rest => by
    rw [Stmt.translateAll, Stmt.renumberAll, Stmt.translate_id st, Stmt.translateAll_id rest]

theorem FieldInit.translateAll_id :
    ∀ fs : List FieldInit, FieldInit.translateAll ρ id fs = FieldInit.renumberAll ρ fs
  | [] => rfl
  | .mk _ _ value :: rest => by
    rw [FieldInit.translateAll, FieldInit.renumberAll, Expr.translate_id value,
      FieldInit.translateAll_id rest]

end

theorem Item.translate_id (i : Item) : i.translate ρ id = i.renumber ρ := by
  obtain ⟨h, k⟩ := i
  rw [translate, renumber]
  cases k with
  | function d =>
    rw [ItemKind.translate, FunctionDecl.translate, Expr.translate_id]
    rfl
  | struct d => rfl
  | constant d =>
    rw [ItemKind.translate, ConstantDecl.translate, Expr.translate_id]
    rfl
  | static d =>
    rw [ItemKind.translate, StaticDecl.translate, Expr.translate_id]
    rfl

theorem Program.translate_id (p : Program) : p.translate ρ id = p.renumber ρ := by
  rw [translate, renumber, funext (Item.translate_id ρ)]

/-- What messages show of an expression are its names, not its numbers. -/
theorem Expr.text_translate_id (e : Expr) : (e.translate ρ id).text = e.text := by
  rw [Expr.translate_id, Expr.text_renumber]

theorem Item.name_translate_id (i : Item) : (i.translate ρ id).name = i.name := by
  rw [Item.translate_id, Item.name_renumber]

/-! ## Walks -/

@[simp] theorem Visit.renumber_ofHead (h : Head) :
    (Visit.ofHead h).renumber ρ = .ofHead (h.renumber ρ) := rfl

@[simp] theorem Visit.renumber_node (i : Identity) (l : Location) :
    (Visit.node i l).renumber ρ = .node (i.renumber ρ) l := rfl

theorem TypeExpr.visits_renumber :
    ∀ a : TypeExpr, (a.renumber ρ).visits = a.visits.map (Visit.renumber ρ)
  | .path _ _ | .unit _ => rfl
  | .array h element _ => congrArg (Visit.ofHead (h.renumber ρ) :: ·) (visits_renumber element)

theorem TypeExpr.visitsOf_renumber (a : Option TypeExpr) :
    visitsOf (a.map (renumber ρ)) = (visitsOf a).map (Visit.renumber ρ) := by
  cases a with
  | none => rfl
  | some a => exact a.visits_renumber ρ

mutual

/-- The walk over a renumbered expression meets the same nodes under their new numbers. -/
theorem Expr.visits_translate :
    ∀ e : Expr, (e.translate ρ ν).visits = e.visits.map (Visit.renumber ρ)
  | .literal _ _ | .identifier _ _ | .ret _ none => rfl
  | .ret _ (some value) => by simp [Expr.translate, Expr.visits, value.visits_translate]
  | .call _ callee args => by
    simp [Expr.translate, Expr.visits, callee.visits_translate, Expr.visitsAll_translate args]
  | .assign _ target value => by
    simp [Expr.translate, Expr.visits, target.visits_translate, value.visits_translate]
  | .binary _ _ lhs rhs => by
    simp [Expr.translate, Expr.visits, lhs.visits_translate, rhs.visits_translate]
  | .ifOnly _ condition body => by
    simp [Expr.translate, Expr.visits, condition.visits_translate, body.visits_translate]
  | .ifElse _ condition thenBody elseBody => by
    simp [Expr.translate, Expr.visits, condition.visits_translate, thenBody.visits_translate,
      elseBody.visits_translate]
  | .ifElseIf _ condition thenBody elseIf => by
    simp [Expr.translate, Expr.visits, condition.visits_translate, thenBody.visits_translate,
      elseIf.visits_translate]
  | .block _ stmts none => by simp [Expr.translate, Expr.visits, Stmt.visitsAll_translate stmts]
  | .block _ stmts (some tail) => by
    simp [Expr.translate, Expr.visits, Stmt.visitsAll_translate stmts, tail.visits_translate]
  | .index _ base position => by
    simp [Expr.translate, Expr.visits, base.visits_translate, position.visits_translate]
  | .array _ values => by simp [Expr.translate, Expr.visits, Expr.visitsAll_translate values]
  | .copies _ element _ => by simp [Expr.translate, Expr.visits, element.visits_translate]
  | .struct _ path fields => by
    simp [Expr.translate, Expr.visits, FieldInit.visitsAll_translate fields, StructPath.renumber]

theorem Expr.visitsAll_translate : ∀ es : List Expr,
    Expr.visitsAll (Expr.translateAll ρ ν es) = (Expr.visitsAll es).map (Visit.renumber ρ)
  | [] => rfl
  | e :: rest => by
    simp [Expr.translateAll, Expr.visitsAll, e.visits_translate, Expr.visitsAll_translate rest]

theorem Stmt.visits_translate :
    ∀ st : Stmt, (st.translate ρ ν).visits = st.visits.map (Visit.renumber ρ)
  | .bind _ _ ascribed none => by
    simp [Stmt.translate, Stmt.visits, TypeExpr.visitsOf_renumber, Pattern.translate]
  | .bind _ _ ascribed (some init) => by
    simp [Stmt.translate, Stmt.visits, TypeExpr.visitsOf_renumber, Pattern.translate,
      init.visits_translate]
  | .expr e => e.visits_translate

theorem Stmt.visitsAll_translate : ∀ sts : List Stmt,
    Stmt.visitsAll (Stmt.translateAll ρ ν sts) = (Stmt.visitsAll sts).map (Visit.renumber ρ)
  | [] => rfl
  | st :: rest => by
    simp [Stmt.translateAll, Stmt.visitsAll, st.visits_translate, Stmt.visitsAll_translate rest]

theorem FieldInit.visitsAll_translate : ∀ fs : List FieldInit,
    FieldInit.visitsAll (FieldInit.translateAll ρ ν fs) =
      (FieldInit.visitsAll fs).map (Visit.renumber ρ)
  | [] => rfl
  | .mk _ _ value :: rest => by
    simp [FieldInit.translateAll, FieldInit.visitsAll, value.visits_translate,
      FieldInit.visitsAll_translate rest]

end

/-- The walks over renumbered pieces, one after the other. -/
theorem flatMap_visits_translate {α : Type} {f : α → α} {visits : α → List Visit}
    (h : ∀ a, visits (f a) = (visits a).map (Visit.renumber ρ)) (l : List α) :
    (l.map f).flatMap visits = (l.flatMap visits).map (Visit.renumber ρ) := by
  simp only [List.flatMap_map, List.map_flatMap, h]

theorem Param.visits_translate (p : Param) :
    (p.translate ρ ν).visits = p.visits.map (Visit.renumber ρ) :=
  congrArg (fun vs => Visit.ofHead (p.head.renumber ρ) ::
    Visit.node (p.pattern.id.renumber ρ) p.head.locus :: vs) (p.type.visits_renumber ρ)

theorem FieldDecl.visits_renumber (f : FieldDecl) :
    (f.renumber ρ).visits = f.visits.map (Visit.renumber ρ) :=
  congrArg (Visit.ofHead (f.head.renumber ρ) :: ·) (f.type.visits_renumber ρ)

theorem ItemKind.visits_translate (k : ItemKind) :
    (k.translate ρ ν).visits = k.visits.map (Visit.renumber ρ) := by
  cases k with
  | function d =>
    simp only [translate, visits, FunctionDecl.translate, List.map_append,
      flatMap_visits_translate ρ (Param.visits_translate ρ ν), TypeExpr.visitsOf_renumber,
      Expr.visits_translate]
  | struct d => exact flatMap_visits_translate ρ (FieldDecl.visits_renumber ρ) d.fields
  | constant d | static d =>
    simp only [translate, visits, ConstantDecl.translate, StaticDecl.translate, List.map_append,
      TypeExpr.visits_renumber, Expr.visits_translate]

theorem Item.visits_translate (i : Item) :
    (i.translate ρ ν).visits = i.visits.map (Visit.renumber ρ) :=
  congrArg (Visit.ofHead (i.head.renumber ρ) :: ·) (i.kind.visits_translate ρ ν)

namespace Program

variable (p : Program)

theorem visits_translate : (p.translate ρ ν).visits = p.visits.map (Visit.renumber ρ) :=
  flatMap_visits_translate ρ (Item.visits_translate ρ ν) p.items

theorem nodes_translate :
    (p.translate ρ ν).nodes = p.nodes.map fun n => (n.1.renumber ρ, n.2) := by
  unfold nodes
  rw [visits_translate, List.filterMap_map, List.map_filterMap]
  apply List.filterMap_congr
  intro v _
  cases v <;> rfl

theorem typePaths_translate :
    (p.translate ρ ν).typePaths = p.typePaths.map fun n => (ρ.surface n.1, n.2) := by
  unfold typePaths
  rw [visits_translate, List.filterMap_map, List.map_filterMap]
  apply List.filterMap_congr
  intro v _
  cases v <;> rfl

theorem nodes_renumber :
    (p.renumber ρ).nodes = p.nodes.map fun n => (n.1.renumber ρ, n.2) := by
  rw [← translate_id, nodes_translate]

theorem typePaths_renumber :
    (p.renumber ρ).typePaths = p.typePaths.map fun n => (ρ.surface n.1, n.2) := by
  rw [← translate_id, typePaths_translate]

theorem mem_surfaces_renumber {n : SurfaceId} (h : n ∈ p.surfaces) :
    ρ.surface n ∈ (p.renumber ρ).surfaces := by
  obtain ⟨m, hm, rfl⟩ := List.mem_map.1 h
  refine List.mem_map.2 ⟨(m.1.renumber ρ, m.2), ?_, rfl⟩
  rw [nodes_renumber]
  exact List.mem_map_of_mem hm

theorem mem_ids_renumber {id : IrId} (h : id ∈ p.ids) : ρ.ir id ∈ (p.renumber ρ).ids := by
  obtain ⟨n, hn, rfl⟩ := mem_ids.1 h
  refine mem_ids.2 ⟨(n.1.renumber ρ, n.2), ?_, rfl⟩
  rw [nodes_renumber]
  exact List.mem_map_of_mem hn

end Program

end MiddleEnd
