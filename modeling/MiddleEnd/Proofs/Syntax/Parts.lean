/-
  The parts that bodies and annotations are made of, in the order of the walk: every node belongs
  to exactly one part. Where the identities of a program are distinct, those of different parts are
  different, and none belongs to an item, a parameter or a field declaration as well
  (`Program.not_mem_irs`, `Program.not_mem_firm`).
-/
import Mathlib.Data.List.Flatten
import Mathlib.Data.List.Perm.Basic
import MiddleEnd.Proofs.Syntax.Ids

namespace MiddleEnd

inductive Part
  /-- An expression that is evaluated. -/
  | expr (e : Expr)
  /-- The function that a call names, with all nodes in it. -/
  | callee (e : Expr)
  /-- The variable that a `let` introduces. -/
  | bind (head : Head) (pattern : Pattern)
  | ascription (a : TypeExpr)
  /-- The struct that a struct literal names. -/
  | path (path : StructPath)
  /-- A field of a struct literal. -/
  | field (head : Head)

def TypeExpr.parts : TypeExpr → List Part
  | .path h name => [.ascription (.path h name)]
  | .array h element capacity => .ascription (.array h element capacity) :: element.parts
  | .unit h => [.ascription (.unit h)]

/-- The parts of an annotation that may be missing. -/
def TypeExpr.partsOf : Option TypeExpr → List Part
  | none => []
  | some a => a.parts

theorem TypeExpr.eq_ascription_of_mem_parts {q : Part} :
    ∀ a : TypeExpr, q ∈ a.parts → ∃ b, q = .ascription b
  | .path _ _, h | .unit _, h => ⟨_, List.mem_singleton.1 h⟩
  | .array _ element _, h =>
    (List.mem_cons.1 h).elim (fun h => ⟨_, h⟩) element.eq_ascription_of_mem_parts

theorem TypeExpr.eq_ascription_of_mem_partsOf {q : Part} {a : Option TypeExpr}
    (h : q ∈ partsOf a) : ∃ b, q = .ascription b := by
  cases a with
  | none => exact absurd h List.not_mem_nil
  | some a => exact a.eq_ascription_of_mem_parts h

/-- There are no expressions in annotations. -/
theorem TypeExpr.noExpr_partsOf (a : Option TypeExpr) (e : Expr) : .expr e ∉ partsOf a := by
  intro h
  obtain ⟨_, hb⟩ := eq_ascription_of_mem_partsOf h
  cases hb

mutual

/-- The expression and the parts in it. -/
def Expr.parts : Expr → List Part
  | .literal h lit => [.expr (.literal h lit)]
  | .identifier h name => [.expr (.identifier h name)]
  | .ret h none => [.expr (.ret h none)]
  | .ret h (some value) => .expr (.ret h (some value)) :: value.parts
  | .call h callee args =>
    .expr (.call h callee args) :: .callee callee :: Expr.partsAll args
  | .assign h target value => .expr (.assign h target value) :: (target.parts ++ value.parts)
  | .binary h op lhs rhs => .expr (.binary h op lhs rhs) :: (lhs.parts ++ rhs.parts)
  | .ifOnly h condition body =>
    .expr (.ifOnly h condition body) :: (condition.parts ++ body.parts)
  | .ifElse h condition thenBody elseBody => .expr (.ifElse h condition thenBody elseBody) ::
    (condition.parts ++ (thenBody.parts ++ elseBody.parts))
  | .ifElseIf h condition thenBody elseIf => .expr (.ifElseIf h condition thenBody elseIf) ::
    (condition.parts ++ (thenBody.parts ++ elseIf.parts))
  | .block h stmts none => .expr (.block h stmts none) :: Stmt.partsAll stmts
  | .block h stmts (some tail) =>
    .expr (.block h stmts (some tail)) :: (Stmt.partsAll stmts ++ tail.parts)
  | .index h base position =>
    .expr (.index h base position) :: (base.parts ++ position.parts)
  | .array h values => .expr (.array h values) :: Expr.partsAll values
  | .copies h element count => .expr (.copies h element count) :: element.parts
  | .struct h path fields =>
    .expr (.struct h path fields) :: .path path :: FieldInit.partsAll fields

def Expr.partsAll : List Expr → List Part
  | [] => []
  | e :: rest => e.parts ++ Expr.partsAll rest

def Stmt.parts : Stmt → List Part
  | .bind h pattern ascribed none => .bind h pattern :: TypeExpr.partsOf ascribed
  | .bind h pattern ascribed (some init) =>
    .bind h pattern :: (TypeExpr.partsOf ascribed ++ init.parts)
  | .expr e => e.parts

def Stmt.partsAll : List Stmt → List Part
  | [] => []
  | s :: rest => s.parts ++ Stmt.partsAll rest

def FieldInit.partsAll : List FieldInit → List Part
  | [] => []
  | .mk h _ value :: rest => .field h :: (value.parts ++ FieldInit.partsAll rest)

end

/-- The parts of the signature of an item. -/
def Item.signatureParts (i : Item) : List Part :=
  match i.kind with
  | .function d => d.params.flatMap (fun p => p.type.parts) ++ TypeExpr.partsOf d.returns
  | .struct d => d.fields.flatMap fun f => f.type.parts
  | .constant d => d.type.parts
  | .static d => d.type.parts

/-- Signatures are made of annotations. -/
theorem Item.eq_ascription_of_mem_signatureParts {i : Item} {q : Part} (h : q ∈ i.signatureParts) :
    ∃ b, q = .ascription b := by
  obtain ⟨g, k⟩ := i
  cases k with
  | function d =>
    rcases List.mem_append.1 h with h | h
    · obtain ⟨x, _, hx⟩ := List.mem_flatMap.1 h
      exact x.type.eq_ascription_of_mem_parts hx
    · exact TypeExpr.eq_ascription_of_mem_partsOf h
  | struct d =>
    obtain ⟨x, _, hx⟩ := List.mem_flatMap.1 h
    exact x.type.eq_ascription_of_mem_parts hx
  | constant d => exact d.type.eq_ascription_of_mem_parts h
  | static d => exact d.type.eq_ascription_of_mem_parts h

/-- The parts of the body or the initial value of an item. -/
def Item.bodyParts (i : Item) : List Part :=
  match i.kind with
  | .function d => d.body.parts
  | .struct _ => []
  | .constant d => d.value.parts
  | .static d => d.value.parts

def Item.parts (i : Item) : List Part := i.signatureParts ++ i.bodyParts

/-- The identities of what the item declares: of itself, its parameters and its fields. -/
def Item.firm (i : Item) : List IrId :=
  match i.kind with
  | .function d => i.head.id.ir :: d.params.flatMap fun p => [p.head.id.ir, p.pattern.id.ir]
  | .struct d => i.head.id.ir :: d.fields.map fun f => f.head.id.ir
  | .constant _ => [i.head.id.ir]
  | .static _ => [i.head.id.ir]

theorem Item.head_mem_firm (i : Item) : i.head.id.ir ∈ i.firm := by
  obtain ⟨h, k⟩ := i
  cases k <;> exact List.mem_cons_self ..

def Program.parts (p : Program) : List Part := p.items.flatMap Item.parts

theorem Program.parts_sublist {p : Program} {i : Item} (hi : i ∈ p.items) :
    i.parts.Sublist p.parts := by
  unfold Program.parts
  rw [List.flatMap_def]
  exact List.sublist_flatten_of_mem (List.mem_map_of_mem hi)

def Program.firm (p : Program) : List IrId := p.items.flatMap Item.firm

/-- An expression is the first of its parts. -/
theorem Expr.parts_eq (e : Expr) : ∃ rest, e.parts = .expr e :: rest := by
  cases e with
  | ret h value => cases value <;> exact ⟨_, rfl⟩
  | block h ss tail => cases tail <;> exact ⟨_, rfl⟩
  | _ => exact ⟨_, rfl⟩

theorem Expr.self_mem_parts (e : Expr) : .expr e ∈ e.parts := by
  obtain ⟨_, he⟩ := e.parts_eq
  exact he ▸ List.mem_cons_self ..

/-! ## Identities of parts -/

namespace Part

/-- The identities that belong to the part itself. -/
def irs : Part → List IrId
  | .expr e => [e.ir]
  | .callee e => e.ids
  | .bind h pattern => [h.id.ir, pattern.id.ir]
  | .ascription a => [a.head.id.ir]
  | .path q => [q.id.ir]
  | .field h => [h.id.ir]

/-- The identities of a list of parts. -/
def irsAll (ps : List Part) : List IrId := ps.flatMap irs

@[simp] theorem irsAll_nil : irsAll [] = [] := rfl

@[simp] theorem irsAll_cons (p : Part) (ps : List Part) : irsAll (p :: ps) = p.irs ++ irsAll ps :=
  List.flatMap_cons ..

@[simp] theorem irsAll_append (ps qs : List Part) : irsAll (ps ++ qs) = irsAll ps ++ irsAll qs :=
  List.flatMap_append ..

theorem irsAll_sublist {ps qs : List Part} (h : ps.Sublist qs) :
    (irsAll ps).Sublist (irsAll qs) :=
  h.flatMap irs

end Part

theorem TypeExpr.irsAll_parts : ∀ a : TypeExpr, Part.irsAll a.parts = a.ids
  | .path _ _ => rfl
  | .array h element _ => congrArg (h.id.ir :: ·) element.irsAll_parts
  | .unit _ => rfl

theorem TypeExpr.irsAll_partsOf (a : Option TypeExpr) : Part.irsAll (partsOf a) = idsOf a := by
  cases a with
  | none => rfl
  | some a => exact a.irsAll_parts

mutual

/-- Every node of an expression belongs to one part of it. -/
theorem Expr.irsAll_parts : ∀ e : Expr, Part.irsAll e.parts = e.ids
  | .literal h lit => rfl
  | .identifier h name => rfl
  | .ret h none => rfl
  | .ret h (some value) => congrArg (h.id.ir :: ·) value.irsAll_parts
  | .call h callee args => by
    rw [Expr.ids_call, Expr.parts, Part.irsAll_cons, Part.irsAll_cons, Expr.irsAll_partsAll args]
    rfl
  | .assign h target value => by
    rw [Expr.ids_assign, Expr.parts, Part.irsAll_cons, Part.irsAll_append, target.irsAll_parts,
      value.irsAll_parts]
    rfl
  | .binary h op lhs rhs => by
    rw [Expr.ids_binary, Expr.parts, Part.irsAll_cons, Part.irsAll_append, lhs.irsAll_parts,
      rhs.irsAll_parts]
    rfl
  | .ifOnly h condition body => by
    rw [Expr.ids_ifOnly, Expr.parts, Part.irsAll_cons, Part.irsAll_append, condition.irsAll_parts,
      body.irsAll_parts]
    rfl
  | .ifElse h condition thenBody elseBody => by
    rw [Expr.ids_ifElse, Expr.parts, Part.irsAll_cons, Part.irsAll_append, Part.irsAll_append,
      condition.irsAll_parts, thenBody.irsAll_parts, elseBody.irsAll_parts]
    rfl
  | .ifElseIf h condition thenBody elseIf => by
    rw [Expr.ids_ifElseIf, Expr.parts, Part.irsAll_cons, Part.irsAll_append, Part.irsAll_append,
      condition.irsAll_parts, thenBody.irsAll_parts, elseIf.irsAll_parts]
    rfl
  | .block h stmts none => congrArg (h.id.ir :: ·) (Stmt.irsAll_partsAll stmts)
  | .block h stmts (some tail) => by
    rw [Expr.ids_block, Expr.parts, Part.irsAll_cons, Part.irsAll_append, Stmt.irsAll_partsAll stmts,
      tail.irsAll_parts]
    rfl
  | .index h base position => by
    rw [Expr.ids_index, Expr.parts, Part.irsAll_cons, Part.irsAll_append, base.irsAll_parts,
      position.irsAll_parts]
    rfl
  | .array h values => congrArg (h.id.ir :: ·) (Expr.irsAll_partsAll values)
  | .copies h element count => congrArg (h.id.ir :: ·) element.irsAll_parts
  | .struct h path fields =>
    congrArg (h.id.ir :: path.id.ir :: ·) (FieldInit.irsAll_partsAll fields)

theorem Expr.irsAll_partsAll : ∀ es : List Expr, Part.irsAll (Expr.partsAll es) = Expr.idsAll es
  | [] => rfl
  | e :: rest => by
    rw [Expr.idsAll_cons, Expr.partsAll, Part.irsAll_append, e.irsAll_parts,
      Expr.irsAll_partsAll rest]

theorem Stmt.irsAll_parts : ∀ st : Stmt, Part.irsAll st.parts = st.ids
  | .bind h pattern ascribed none => by
    rw [Stmt.ids_bind_none, Stmt.parts, Part.irsAll_cons, TypeExpr.irsAll_partsOf]
    rfl
  | .bind h pattern ascribed (some init) => by
    rw [Stmt.ids_bind, Stmt.parts, Part.irsAll_cons, Part.irsAll_append, TypeExpr.irsAll_partsOf,
      init.irsAll_parts]
    rfl
  | .expr e => e.irsAll_parts

theorem Stmt.irsAll_partsAll : ∀ sts : List Stmt, Part.irsAll (Stmt.partsAll sts) = Stmt.idsAll sts
  | [] => rfl
  | st :: rest => by
    rw [Stmt.idsAll_cons, Stmt.partsAll, Part.irsAll_append, st.irsAll_parts,
      Stmt.irsAll_partsAll rest]

theorem FieldInit.irsAll_partsAll :
    ∀ fs : List FieldInit, Part.irsAll (FieldInit.partsAll fs) = FieldInit.idsAll fs
  | [] => rfl
  | .mk h name value :: rest => by
    rw [FieldInit.idsAll_cons, FieldInit.partsAll, Part.irsAll_cons, Part.irsAll_append,
      value.irsAll_parts, FieldInit.irsAll_partsAll rest]
    rfl

end

/-! ## Programs -/

theorem irsAll_flatMap {α : Type} (parts : α → List Part) (l : List α) :
    Part.irsAll (l.flatMap parts) = l.flatMap fun a => Part.irsAll (parts a) := by
  unfold Part.irsAll
  rw [List.flatMap_assoc]

/-- What a signature declares and its parts have all its identities between them. -/
theorem Item.signatureIds_perm (i : Item) :
    i.signatureIds.Perm (i.firm ++ Part.irsAll i.signatureParts) := by
  obtain ⟨h, k⟩ := i
  cases k with
  | function d =>
    show List.Perm (h.id.ir :: (d.params.flatMap Param.ids ++ TypeExpr.idsOf d.returns))
      (h.id.ir :: (d.params.flatMap fun p => [p.head.id.ir, p.pattern.id.ir]) ++ Part.irsAll
        (d.params.flatMap (fun p => p.type.parts) ++ TypeExpr.partsOf d.returns))
    rw [Part.irsAll_append, TypeExpr.irsAll_partsOf, List.cons_append, ← List.append_assoc,
      irsAll_flatMap]
    simp only [TypeExpr.irsAll_parts]
    exact ((List.flatMap_append_perm d.params
      (fun p => [p.head.id.ir, p.pattern.id.ir]) _).symm.append_right _).cons _
  | struct d =>
    show List.Perm (h.id.ir :: d.fields.flatMap FieldDecl.ids)
      (h.id.ir :: d.fields.map (fun f => f.head.id.ir) ++
        Part.irsAll (d.fields.flatMap fun f => f.type.parts))
    rw [irsAll_flatMap, List.map_eq_flatMap]
    simp only [TypeExpr.irsAll_parts]
    exact (List.flatMap_append_perm d.fields (fun f => [f.head.id.ir]) _).symm.cons _
  | constant d =>
    show List.Perm (h.id.ir :: d.type.ids) (h.id.ir :: Part.irsAll d.type.parts)
    rw [d.type.irsAll_parts]
  | static d =>
    show List.Perm (h.id.ir :: d.type.ids) (h.id.ir :: Part.irsAll d.type.parts)
    rw [d.type.irsAll_parts]

theorem Item.irsAll_bodyParts (i : Item) : Part.irsAll i.bodyParts = i.bodyIds := by
  obtain ⟨h, k⟩ := i
  cases k with
  | function d => exact d.body.irsAll_parts
  | struct d => rfl
  | constant d => exact d.value.irsAll_parts
  | static d => exact d.value.irsAll_parts

/-- What an item declares and its parts have all its identities between them. -/
theorem Item.ids_perm (i : Item) : i.ids.Perm (i.firm ++ Part.irsAll i.parts) := by
  rw [Item.ids_eq, Item.parts, Part.irsAll_append, i.irsAll_bodyParts, ← List.append_assoc]
  exact i.signatureIds_perm.append_right _

theorem Program.ids_perm (p : Program) : p.ids.Perm (p.firm ++ Part.irsAll p.parts) := by
  rw [Program.ids_eq]
  unfold Program.firm Program.parts
  rw [irsAll_flatMap]
  refine List.Perm.trans ?_ (List.flatMap_append_perm p.items Item.firm _).symm
  induction p.items with
  | nil => exact .refl _
  | cons i rest ih =>
    rw [List.flatMap_cons, List.flatMap_cons]
    exact i.ids_perm.append ih

/-- Different elements have disjoint images where nothing occurs twice in all images. -/
theorem not_mem_of_nodup_flatMap {α β : Type} {f : α → List β} {a b : α} {x : β} :
    ∀ {l : List α}, (l.flatMap f).Nodup → a ∈ l → b ∈ l → a ≠ b → x ∈ f a → x ∉ f b
  | [], _, ha, _, _, _ => absurd ha List.not_mem_nil
  | c :: l, hn, ha, hb, hab, hx => by
    rw [List.flatMap_cons, List.nodup_append] at hn
    obtain ⟨_, hl, hd⟩ := hn
    intro hxb
    rcases List.mem_cons.1 ha with rfl | ha'
    · rcases List.mem_cons.1 hb with rfl | hb'
      · exact hab rfl
      · exact hd x hx x (List.mem_flatMap.2 ⟨b, hb', hxb⟩) rfl
    · rcases List.mem_cons.1 hb with rfl | hb'
      · exact hd x hxb x (List.mem_flatMap.2 ⟨a, ha', hx⟩) rfl
      · exact not_mem_of_nodup_flatMap hl ha' hb' hab hx hxb

theorem Program.mem_ids_of_item {p : Program} {i : Item} (hi : i ∈ p.items) {id : IrId}
    (hid : id ∈ i.ids) : id ∈ p.ids := by
  rw [Program.ids_eq]
  exact List.mem_flatMap.2 ⟨i, hi, hid⟩

/-- No item holds the identity of another item. -/
theorem Program.item_eq_of_head {p : Program} (hn : p.ids.Nodup) {i j : Item} (hi : i ∈ p.items)
    (hj : j ∈ p.items) (hm : j.head.id.ir ∈ i.ids) : i = j := by
  rw [Program.ids_eq] at hn
  refine Classical.byContradiction fun hij => ?_
  have hjm : j.head.id.ir ∈ j.ids := List.mem_cons_self ..
  exact not_mem_of_nodup_flatMap hn hi hj hij hm hjm

/-- Different parts have different identities. -/
theorem Program.not_mem_irs {p : Program} (h : p.ids.Nodup) {a b : Part} (ha : a ∈ p.parts)
    (hb : b ∈ p.parts) (hab : a ≠ b) {id : IrId} (hid : id ∈ a.irs) : id ∉ b.irs :=
  have hn := (List.nodup_append.1 (p.ids_perm.nodup_iff.1 h)).2.1
  not_mem_of_nodup_flatMap hn ha hb hab hid

/-- What items declare has other identities than the parts they are made of. -/
theorem Program.not_mem_firm {p : Program} (h : p.ids.Nodup) {a : Part} (ha : a ∈ p.parts)
    {id : IrId} (hid : id ∈ a.irs) : id ∉ p.firm := fun hm =>
  (List.nodup_append.1 (p.ids_perm.nodup_iff.1 h)).2.2 id hm id
    (List.mem_flatMap.2 ⟨a, ha, hid⟩) rfl

end MiddleEnd
