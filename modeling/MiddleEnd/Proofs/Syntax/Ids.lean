/-
  The identities that a piece of a program holds, in the order of the walk. They are read off the
  visits of the walk, so a statement about all of them is a statement about what the walk visits.
-/
import MiddleEnd.Syntax.Visit

namespace MiddleEnd

/-- The identity of the node visited, if the step visits one. -/
def Visit.ir? : Visit → Option IrId
  | .node id _ => some id.ir
  | .typePath .. => none

/-- The identities of the nodes visited. -/
def irs (vs : List Visit) : List IrId := vs.filterMap Visit.ir?

@[simp] theorem irs_nil : irs [] = [] := rfl

@[simp] theorem irs_node (id : Identity) (l : Location) (vs : List Visit) :
    irs (.node id l :: vs) = id.ir :: irs vs := rfl

@[simp] theorem irs_ofHead (h : Head) (vs : List Visit) :
    irs (.ofHead h :: vs) = h.id.ir :: irs vs := rfl

@[simp] theorem irs_typePath (id : SurfaceId) (name : String) (vs : List Visit) :
    irs (.typePath id name :: vs) = irs vs := rfl

@[simp] theorem irs_append (vs ws : List Visit) : irs (vs ++ ws) = irs vs ++ irs ws :=
  List.filterMap_append ..

@[simp] theorem irs_flatMap {α : Type} (l : List α) (f : α → List Visit) :
    irs (l.flatMap f) = l.flatMap fun a => irs (f a) := by
  induction l with
  | nil => rfl
  | cons a l ih => rw [List.flatMap_cons, irs_append, ih, List.flatMap_cons]

/-! ## Pieces of a program -/

def TypeExpr.ids (a : TypeExpr) : List IrId := irs a.visits

/-- The identities of an annotation that may be missing. -/
def TypeExpr.idsOf (a : Option TypeExpr) : List IrId := irs (TypeExpr.visitsOf a)

def Expr.ids (e : Expr) : List IrId := irs e.visits

def Expr.idsAll (es : List Expr) : List IrId := irs (Expr.visitsAll es)

def Stmt.ids (st : Stmt) : List IrId := irs st.visits

def Stmt.idsAll (sts : List Stmt) : List IrId := irs (Stmt.visitsAll sts)

def FieldInit.idsAll (fs : List FieldInit) : List IrId := irs (FieldInit.visitsAll fs)

def Param.ids (p : Param) : List IrId := irs p.visits

def FieldDecl.ids (f : FieldDecl) : List IrId := irs f.visits

def Item.ids (i : Item) : List IrId := irs i.visits

def Program.ids (p : Program) : List IrId := irs p.visits

theorem Program.mem_ids {p : Program} {id : IrId} :
    id ∈ p.ids ↔ ∃ n ∈ p.nodes, n.1.ir = id := by
  unfold Program.ids Program.nodes irs
  rw [List.mem_filterMap]
  constructor
  · rintro ⟨v, hv, h⟩
    cases v with
    | node i l => exact ⟨(i, l), List.mem_filterMap.2 ⟨_, hv, rfl⟩, Option.some.inj h⟩
    | typePath i n => cases h
  · rintro ⟨n, hn, rfl⟩
    obtain ⟨v, hv, h⟩ := List.mem_filterMap.1 hn
    cases v with
    | node i l => cases h; exact ⟨_, hv, rfl⟩
    | typePath i n => cases h

theorem Program.ids_eq (p : Program) : p.ids = p.items.flatMap Item.ids := irs_flatMap ..

section

variable (h : Head)

@[simp] theorem TypeExpr.ids_path (name : String) : (TypeExpr.path h name).ids = [h.id.ir] := rfl

@[simp] theorem TypeExpr.ids_array (a : TypeExpr) (n : UInt64) :
    (TypeExpr.array h a n).ids = h.id.ir :: a.ids := rfl

@[simp] theorem TypeExpr.ids_unit : (TypeExpr.unit h).ids = [h.id.ir] := rfl

@[simp] theorem TypeExpr.idsOf_none : TypeExpr.idsOf none = [] := rfl

@[simp] theorem TypeExpr.idsOf_some (a : TypeExpr) : TypeExpr.idsOf (some a) = a.ids := rfl

@[simp] theorem Expr.ids_literal (lit : Literal) : (Expr.literal h lit).ids = [h.id.ir] := rfl

@[simp] theorem Expr.ids_identifier (name : String) :
    (Expr.identifier h name).ids = [h.id.ir] := rfl

@[simp] theorem Expr.ids_ret_none : (Expr.ret h none).ids = [h.id.ir] := rfl

@[simp] theorem Expr.ids_ret (e : Expr) : (Expr.ret h (some e)).ids = h.id.ir :: e.ids := rfl

@[simp] theorem Expr.ids_call (f : Expr) (es : List Expr) :
    (Expr.call h f es).ids = h.id.ir :: (f.ids ++ Expr.idsAll es) :=
  congrArg (h.id.ir :: ·) (irs_append ..)

@[simp] theorem Expr.ids_assign (e f : Expr) :
    (Expr.assign h e f).ids = h.id.ir :: (e.ids ++ f.ids) :=
  congrArg (h.id.ir :: ·) (irs_append ..)

@[simp] theorem Expr.ids_binary (op : BinaryOp) (e f : Expr) :
    (Expr.binary h op e f).ids = h.id.ir :: (e.ids ++ f.ids) :=
  congrArg (h.id.ir :: ·) (irs_append ..)

@[simp] theorem Expr.ids_ifOnly (e f : Expr) :
    (Expr.ifOnly h e f).ids = h.id.ir :: (e.ids ++ f.ids) :=
  congrArg (h.id.ir :: ·) (irs_append ..)

@[simp] theorem Expr.ids_ifElse (e f g : Expr) :
    (Expr.ifElse h e f g).ids = h.id.ir :: (e.ids ++ (f.ids ++ g.ids)) :=
  congrArg (h.id.ir :: ·) ((irs_append ..).trans (congrArg (e.ids ++ ·) (irs_append ..)))

@[simp] theorem Expr.ids_ifElseIf (e f g : Expr) :
    (Expr.ifElseIf h e f g).ids = h.id.ir :: (e.ids ++ (f.ids ++ g.ids)) :=
  congrArg (h.id.ir :: ·) ((irs_append ..).trans (congrArg (e.ids ++ ·) (irs_append ..)))

@[simp] theorem Expr.ids_block_none (ss : List Stmt) :
    (Expr.block h ss none).ids = h.id.ir :: Stmt.idsAll ss := rfl

@[simp] theorem Expr.ids_block (ss : List Stmt) (e : Expr) :
    (Expr.block h ss (some e)).ids = h.id.ir :: (Stmt.idsAll ss ++ e.ids) :=
  congrArg (h.id.ir :: ·) (irs_append ..)

@[simp] theorem Expr.ids_index (e f : Expr) :
    (Expr.index h e f).ids = h.id.ir :: (e.ids ++ f.ids) :=
  congrArg (h.id.ir :: ·) (irs_append ..)

@[simp] theorem Expr.ids_array (es : List Expr) :
    (Expr.array h es).ids = h.id.ir :: Expr.idsAll es := rfl

@[simp] theorem Expr.ids_copies (e : Expr) (n : UInt64) :
    (Expr.copies h e n).ids = h.id.ir :: e.ids := rfl

@[simp] theorem Expr.ids_struct (path : StructPath) (fs : List FieldInit) :
    (Expr.struct h path fs).ids = h.id.ir :: path.id.ir :: FieldInit.idsAll fs := rfl

@[simp] theorem Expr.idsAll_nil : Expr.idsAll [] = [] := rfl

@[simp] theorem Expr.idsAll_cons (e : Expr) (es : List Expr) :
    Expr.idsAll (e :: es) = e.ids ++ Expr.idsAll es :=
  irs_append ..

@[simp] theorem Stmt.ids_expr (e : Expr) : (Stmt.expr e).ids = e.ids := rfl

@[simp] theorem Stmt.ids_bind_none (p : Pattern) (a : Option TypeExpr) :
    (Stmt.bind h p a none).ids = h.id.ir :: p.id.ir :: TypeExpr.idsOf a := rfl

@[simp] theorem Stmt.ids_bind (p : Pattern) (a : Option TypeExpr) (e : Expr) :
    (Stmt.bind h p a (some e)).ids = h.id.ir :: p.id.ir :: (TypeExpr.idsOf a ++ e.ids) :=
  congrArg (h.id.ir :: p.id.ir :: ·) (irs_append ..)

@[simp] theorem Stmt.idsAll_nil : Stmt.idsAll [] = [] := rfl

@[simp] theorem Stmt.idsAll_cons (st : Stmt) (sts : List Stmt) :
    Stmt.idsAll (st :: sts) = st.ids ++ Stmt.idsAll sts :=
  irs_append ..

@[simp] theorem FieldInit.idsAll_nil : FieldInit.idsAll [] = [] := rfl

@[simp] theorem FieldInit.idsAll_cons (name : String) (e : Expr) (fs : List FieldInit) :
    FieldInit.idsAll (.mk h name e :: fs) = h.id.ir :: (e.ids ++ FieldInit.idsAll fs) :=
  congrArg (h.id.ir :: ·) (irs_append ..)

end

theorem Expr.ir_mem_ids (e : Expr) : e.ir ∈ e.ids := by
  cases e with
  | ret h value => cases value <;> exact List.mem_cons_self ..
  | block h ss tail => cases tail <;> exact List.mem_cons_self ..
  | _ => exact List.mem_cons_self ..

@[simp] theorem Param.ids_eq (p : Param) :
    p.ids = p.head.id.ir :: p.pattern.id.ir :: p.type.ids := rfl

@[simp] theorem FieldDecl.ids_eq (f : FieldDecl) : f.ids = f.head.id.ir :: f.type.ids := rfl

/-! ## Items -/

/-- The identities in the signature of an item, its own first. -/
def Item.signatureIds (i : Item) : List IrId :=
  i.head.id.ir :: match i.kind with
    | .function d => d.params.flatMap Param.ids ++ TypeExpr.idsOf d.returns
    | .struct d => d.fields.flatMap FieldDecl.ids
    | .constant d => d.type.ids
    | .static d => d.type.ids

/-- The identities in the body or the initial value of an item. -/
def Item.bodyIds (i : Item) : List IrId :=
  match i.kind with
  | .function d => d.body.ids
  | .struct _ => []
  | .constant d => d.value.ids
  | .static d => d.value.ids

theorem Item.ids_eq (i : Item) : i.ids = i.signatureIds ++ i.bodyIds := by
  obtain ⟨h, k⟩ := i
  cases k with
  | function d =>
    show h.id.ir :: irs (ItemKind.visits (.function d)) =
      h.id.ir :: (d.params.flatMap Param.ids ++ TypeExpr.idsOf d.returns ++ d.body.ids)
    rw [ItemKind.visits, irs_append, irs_append, irs_flatMap, List.append_assoc]
    rfl
  | struct d =>
    show h.id.ir :: irs (d.fields.flatMap FieldDecl.visits) =
      h.id.ir :: (d.fields.flatMap FieldDecl.ids ++ [])
    rw [irs_flatMap, List.append_nil]
    rfl
  | constant d => exact congrArg (h.id.ir :: ·) (irs_append ..)
  | static d => exact congrArg (h.id.ir :: ·) (irs_append ..)

theorem Item.signatureIds_subset (i : Item) : i.signatureIds ⊆ i.ids := by
  rw [Item.ids_eq]
  exact List.subset_append_left ..

theorem Item.head_mem_signatureIds (i : Item) : i.head.id.ir ∈ i.signatureIds :=
  List.mem_cons_self ..

end MiddleEnd
