/-
  Units whose items stand in another order. Where all nodes have identities of their own, the tables
  of a session do not depend on that order as long as the struct items keep theirs, since the name
  of a struct means the last struct item of that name (`Session.alike_reorder`).
-/
import MiddleEnd.Proofs.Syntax.Surfaces
import MiddleEnd.Proofs.Tables.Renumber

namespace MiddleEnd

/-- The unit with these items in place of its own. -/
def CompilationUnit.withItems (u : CompilationUnit) (items : List Item) : CompilationUnit :=
  { u with program := { u.program with items := items } }

/-- Folding over a list in another order, where any two steps that differ may be swapped. -/
theorem foldl_perm {α β : Type} {f : β → α → β} {R : β → β → Prop} {D : α → α → Prop}
    (hR : Equivalence R) (hcongr : ∀ {b b'} a, R b b' → R (f b a) (f b' a))
    (hsymm : ∀ {x y}, D x y → D y x) (hswap : ∀ b {x y}, D x y → R (f (f b x) y) (f (f b y) x))
    {l l' : List α} (h : l.Perm l') :
    l.Pairwise D → ∀ b b', R b b' → R (l.foldl f b) (l'.foldl f b') := by
  induction h with
  | nil => exact fun _ _ _ hb => hb
  | cons a _ ih => exact fun hd _ _ hb => ih (List.pairwise_cons.1 hd).2 _ _ (hcongr a hb)
  | swap x y l =>
    intro hd b b' hb
    have hyx : D y x := (List.pairwise_cons.1 hd).1 x (List.mem_cons_self ..)
    exact List.foldl_rel (hR.trans (hcongr x (hcongr y hb)) (hswap b' hyx))
      fun a _ _ _ => hcongr a
  | trans h₁ _ ih₁ ih₂ =>
    exact fun hd b b' hb =>
      hR.trans (ih₁ hd b b (hR.refl b)) (ih₂ ((h₁.pairwise_iff hsymm).1 hd) b b' hb)

/-! ## Registries -/

namespace Registry

/-- Registries that answer alike and will give out the same identities. -/
structure Alike (r r' : Registry) : Prop where
  nextSurface : r'.nextSurface = r.nextSurface
  nextIr : r'.nextIr = r.nextIr
  node? : ∀ x, r'.node? x = r.node? x
  location : ∀ id, r'.location id = r.location id

theorem alike_equivalence : Equivalence Alike where
  refl _ := ⟨rfl, rfl, fun _ => rfl, fun _ => rfl⟩
  symm h := ⟨h.nextSurface.symm, h.nextIr.symm, fun x => (h.node? x).symm,
    fun id => (h.location id).symm⟩
  trans h k := ⟨k.nextSurface.trans h.nextSurface, k.nextIr.trans h.nextIr,
    fun x => (k.node? x).trans (h.node? x), fun id => (k.location id).trans (h.location id)⟩

variable {r r' : Registry}

theorem Alike.enter (h : Alike r r') (i : Identity) (l : Location) :
    Alike (r.enter i l) (r'.enter i l) where
  nextSurface := congrArg (max · _) h.nextSurface
  nextIr := congrArg (max · _) h.nextIr
  node? x := by rw [node?_enter, node?_enter, h.node?]
  location id := by rw [location_enter, location_enter, h.location]

/-- Nodes with different identities may be entered in either order. -/
theorem alike_enter_comm (r : Registry) {i j : Identity} (l k : Location) (hs : i.site ≠ j.site)
    (hi : i.ir ≠ j.ir) : Alike ((r.enter i l).enter j k) ((r.enter j k).enter i l) where
  nextSurface := Nat.max_right_comm ..
  nextIr := Nat.max_right_comm ..
  node? x := by
    simp only [node?_enter]
    split
    · rename_i hx
      rw [hx, if_neg hs]
    · rfl
  location id := by
    simp only [location_enter]
    split
    · rename_i hid
      rw [hid, if_neg hi]
    · rfl

/-- Identities that two nodes do not share. -/
abbrev Distinct (m n : Identity × Location) : Prop := m.1.surface ≠ n.1.surface ∧ m.1.ir ≠ n.1.ir

theorem alike_enterAll {ns ns' : List (Identity × Location)} (h : ns.Perm ns')
    (hd : ns.Pairwise Distinct) (r : Registry) : Alike (r.enterAll ns) (r.enterAll ns') := by
  refine foldl_perm alike_equivalence (fun n hb => hb.enter n.1 n.2)
    (fun h => ⟨h.1.symm, h.2.symm⟩) (fun r m n h => ?_) h hd r r (alike_equivalence.refl r)
  exact alike_enter_comm r m.2 n.2 (fun he => h.1 (congrArg Site.surface he)) h.2

theorem Alike.freshSurface (h : Alike r r') : r'.freshSurface.1 = r.freshSurface.1 ∧
    Alike r.freshSurface.2 r'.freshSurface.2 :=
  ⟨by rw [Registry.freshSurface, Registry.freshSurface, h.nextSurface],
    congrArg (· + 1) h.nextSurface, h.nextIr, h.node?, h.location⟩

theorem Alike.freshIr (h : Alike r r') : r'.freshIr.1 = r.freshIr.1 ∧
    Alike r.freshIr.2 r'.freshIr.2 :=
  ⟨by rw [Registry.freshIr, Registry.freshIr, h.nextIr],
    h.nextSurface, congrArg (· + 1) h.nextIr, h.node?, h.location⟩

theorem Alike.declare (ps : List Primitive) : ∀ {r r' : Registry}, Alike r r' →
    (Bindings.declare r' ps).1 = (Bindings.declare r ps).1 ∧
      Alike (Bindings.declare r ps).2 (Bindings.declare r' ps).2 := by
  induction ps with
  | nil => exact fun h => ⟨rfl, h⟩
  | cons p ps ih =>
    intro r r' h
    obtain ⟨hnode, hnext⟩ := h.freshSurface
    obtain ⟨hrest, hend⟩ := ih hnext
    refine ⟨?_, hend⟩
    simp only [Bindings.declare, hnode, hrest]

theorem Alike.addBuiltins (bs : List Builtin) : ∀ {r r' : Registry} (t : TypeTable), Alike r r' →
    (TypeTable.addBuiltins t r' bs).1 = (TypeTable.addBuiltins t r bs).1 ∧
      Alike (TypeTable.addBuiltins t r bs).2 (TypeTable.addBuiltins t r' bs).2 := by
  induction bs with
  | nil => exact fun _ h => ⟨rfl, h⟩
  | cons b bs ih =>
    intro r r' t h
    obtain ⟨hid, hnext⟩ := h.freshIr
    simp only [TypeTable.addBuiltins, hid]
    exact ih _ hnext

theorem Alike.withBuiltins (h : Alike r r') (bs : List Builtin) :
    (TypeTable.withBuiltins bs r').1 = (TypeTable.withBuiltins bs r).1 ∧
      Alike (TypeTable.withBuiltins bs r).2 (TypeTable.withBuiltins bs r').2 := by
  obtain ⟨ht, hr⟩ := h.addBuiltins bs .empty
  obtain ⟨hnode, hr⟩ := hr.freshSurface
  obtain ⟨hid, hr⟩ := hr.freshIr
  refine ⟨?_, hr⟩
  simp only [TypeTable.withBuiltins, ht, hnode, hid]

end Registry

/-! ## Bindings -/

namespace Bindings

structure Alike (b b' : Bindings) : Prop where
  name? : ∀ n, b'.name? n = b.name? n
  type? : ∀ n, b'.type? n = b.type? n
  definition? : ∀ n, b'.definition? n = b.definition? n
  builtins : b'.builtins = b.builtins

theorem alike_equivalence : Equivalence Alike where
  refl _ := ⟨fun _ => rfl, fun _ => rfl, fun _ => rfl, rfl⟩
  symm h := ⟨fun n => (h.name? n).symm, fun n => (h.type? n).symm,
    fun n => (h.definition? n).symm, h.builtins.symm⟩
  trans h k := ⟨fun n => (k.name? n).trans (h.name? n), fun n => (k.type? n).trans (h.type? n),
    fun n => (k.definition? n).trans (h.definition? n), k.builtins.trans h.builtins⟩

variable {b b' : Bindings}

/-- An item defines itself, unless it is defined. -/
def addItem (b : Bindings) (i : Item) : Bindings :=
  let node := i.head.id.surface
  if (b.definition? node).isNone then b.define ⟨node, node⟩ else b

theorem definition?_addItem (b : Bindings) (i : Item) (n : SurfaceId) :
    (b.addItem i).definition? n =
      if n = i.head.id.surface then (b.definition? n).or (some ⟨n, n⟩) else b.definition? n := by
  unfold addItem
  dsimp only
  cases hd : b.definition? i.head.id.surface with
  | none =>
    rw [Option.isNone_none, if_pos rfl, definition?_define]
    split
    · rename_i hn
      rw [hn, hd]
      rfl
    · rfl
  | some d =>
    rw [Option.isNone_some, if_neg Bool.false_ne_true]
    split
    · rename_i hn
      rw [hn, hd]
      rfl
    · rfl

theorem addItem_eq (b : Bindings) (i : Item) :
    ∃ definitions, b.addItem i = { b with definitions := definitions } := by
  unfold addItem
  dsimp only
  split
  · exact ⟨_, rfl⟩
  · exact ⟨_, rfl⟩

@[simp] theorem name?_addItem (b : Bindings) (i : Item) (n : SurfaceId) :
    (b.addItem i).name? n = b.name? n := by
  obtain ⟨_, h⟩ := b.addItem_eq i
  rw [h]
  rfl

@[simp] theorem type?_addItem (b : Bindings) (i : Item) (n : SurfaceId) :
    (b.addItem i).type? n = b.type? n := by
  obtain ⟨_, h⟩ := b.addItem_eq i
  rw [h]
  rfl

@[simp] theorem builtins_addItem (b : Bindings) (i : Item) :
    (b.addItem i).builtins = b.builtins := by
  obtain ⟨_, h⟩ := b.addItem_eq i
  rw [h]

theorem Alike.addItem (h : Alike b b') (i : Item) : Alike (b.addItem i) (b'.addItem i) where
  name? n := by simp only [name?_addItem, h.name?]
  type? n := by simp only [type?_addItem, h.type?]
  definition? n := by simp only [definition?_addItem, h.definition?]
  builtins := by simp only [builtins_addItem, h.builtins]

theorem alike_addItem_comm (b : Bindings) {i j : Item}
    (hij : i.head.id.surface ≠ j.head.id.surface) :
    Alike ((b.addItem i).addItem j) ((b.addItem j).addItem i) where
  name? n := by simp only [name?_addItem]
  type? n := by simp only [type?_addItem]
  definition? n := by
    simp only [definition?_addItem]
    by_cases hi : n = i.head.id.surface
    · have hj : n ≠ j.head.id.surface := fun hj => hij (hi.symm.trans hj)
      simp only [if_pos hi, if_neg hj]
    · simp only [if_neg hi]
  builtins := by simp only [builtins_addItem]

theorem addItems_eq (b : Bindings) (items : List Item) : b.addItems items = items.foldl addItem b :=
  rfl

/-- A type name means what the program implies, unless it is bound. -/
def addTypePath (p : Program) (b : Bindings) (n : SurfaceId × String) : Bindings :=
  if (b.type? n.1).isSome then b
  else
    match b.implied? p n.2 with
    | some decl => b.bindType n.1 decl
    | none => b

theorem type?_addTypePath (p : Program) (b : Bindings) (n : SurfaceId × String) (m : SurfaceId) :
    (b.addTypePath p n).type? m =
      if m = n.1 then (b.type? m).or (b.implied? p n.2) else b.type? m := by
  unfold addTypePath
  cases ht : b.type? n.1 with
  | some decl =>
    rw [Option.isSome_some, if_pos rfl]
    split
    · rename_i hm
      rw [hm, ht]
      rfl
    · rfl
  | none =>
    rw [Option.isSome_none, if_neg Bool.false_ne_true]
    cases b.implied? p n.2 with
    | none =>
      dsimp only
      rw [Option.or_none, ite_self]
    | some decl =>
      dsimp only
      rw [type?_bindType]
      split
      · rename_i hm
        rw [hm, ht]
        rfl
      · rfl

theorem addTypePath_eq (p : Program) (b : Bindings) (n : SurfaceId × String) :
    ∃ types, b.addTypePath p n = { b with types := types } := by
  unfold addTypePath
  split
  · exact ⟨_, rfl⟩
  · split
    · exact ⟨_, rfl⟩
    · exact ⟨_, rfl⟩

@[simp] theorem name?_addTypePath (p : Program) (b : Bindings) (n : SurfaceId × String)
    (m : SurfaceId) : (b.addTypePath p n).name? m = b.name? m := by
  obtain ⟨_, h⟩ := b.addTypePath_eq p n
  rw [h]
  rfl

@[simp] theorem definition?_addTypePath (p : Program) (b : Bindings) (n : SurfaceId × String)
    (m : SurfaceId) : (b.addTypePath p n).definition? m = b.definition? m := by
  obtain ⟨_, h⟩ := b.addTypePath_eq p n
  rw [h]
  rfl

@[simp] theorem builtins_addTypePath (p : Program) (b : Bindings) (n : SurfaceId × String) :
    (b.addTypePath p n).builtins = b.builtins := by
  obtain ⟨_, h⟩ := b.addTypePath_eq p n
  rw [h]

theorem implied?_congr (h : b'.builtins = b.builtins) (p : Program) (name : String) :
    b'.implied? p name = b.implied? p name := by
  unfold implied? builtin?
  rw [h]

theorem Alike.addTypePath (h : Alike b b') (p : Program) (n : SurfaceId × String) :
    Alike (b.addTypePath p n) (b'.addTypePath p n) where
  name? m := by simp only [name?_addTypePath, h.name?]
  type? m := by simp only [type?_addTypePath, h.type?, implied?_congr h.builtins]
  definition? m := by simp only [definition?_addTypePath, h.definition?]
  builtins := by simp only [builtins_addTypePath, h.builtins]

theorem alike_addTypePath_comm (p : Program) (b : Bindings) {n m : SurfaceId × String}
    (hnm : n.1 ≠ m.1) :
    Alike ((b.addTypePath p n).addTypePath p m) ((b.addTypePath p m).addTypePath p n) where
  name? k := by simp only [name?_addTypePath]
  type? k := by
    simp only [type?_addTypePath, implied?_congr (builtins_addTypePath p b _)]
    by_cases hk : k = n.1
    · have hm : k ≠ m.1 := fun hm => hnm (hk.symm.trans hm)
      simp only [if_pos hk, if_neg hm]
    · simp only [if_neg hk]
  definition? k := by simp only [definition?_addTypePath]
  builtins := by simp only [builtins_addTypePath]

theorem addTypePaths_eq (b : Bindings) (p : Program) :
    b.addTypePaths p = p.typePaths.foldl (addTypePath p) b :=
  rfl

end Bindings

/-! ## Named annotations -/

namespace Visit

/-- Every named annotation is visited along with a node of its own. -/
def Paired (vs : List Visit) : Prop :=
  ((vs.filterMap typePath?).map (·.1)).Sublist ((vs.filterMap node?).map (·.1.surface))

variable {vs ws : List Visit}

theorem Paired.nil : Paired [] := .slnil

theorem Paired.append (h : Paired vs) (k : Paired ws) : Paired (vs ++ ws) := by
  unfold Paired
  rw [List.filterMap_append, List.filterMap_append, List.map_append, List.map_append]
  exact List.Sublist.append h k

theorem Paired.node (h : Paired vs) (i : Identity) (l : Location) : Paired (.node i l :: vs) :=
  h.cons _

theorem Paired.flatMap {α : Type} {f : α → List Visit} (h : ∀ a, Paired (f a)) (l : List α) :
    Paired (l.flatMap f) := by
  induction l with
  | nil => exact .nil
  | cons a l ih =>
    rw [List.flatMap_cons]
    exact (h a).append ih

end Visit

open Visit

theorem TypeExpr.paired : ∀ a : TypeExpr, Paired a.visits
  | .path _ _ => .refl _
  | .array h element _ => element.paired.node h.id h.locus
  | .unit h => Paired.nil.node h.id h.locus

theorem TypeExpr.pairedOf (a : Option TypeExpr) : Paired (visitsOf a) := by
  cases a with
  | none => exact .nil
  | some a => exact a.paired

mutual

theorem Expr.paired : ∀ e : Expr, Paired e.visits
  | .literal _ _ | .identifier _ _ | .ret _ none => Paired.nil.node _ _
  | .ret _ (some value) => value.paired.node _ _
  | .call _ callee args => (callee.paired.append (Expr.pairedAll args)).node _ _
  | .assign _ target value => (target.paired.append value.paired).node _ _
  | .binary _ _ lhs rhs => (lhs.paired.append rhs.paired).node _ _
  | .ifOnly _ condition body => (condition.paired.append body.paired).node _ _
  | .ifElse _ condition thenBody elseBody =>
    (condition.paired.append (thenBody.paired.append elseBody.paired)).node _ _
  | .ifElseIf _ condition thenBody elseIf =>
    (condition.paired.append (thenBody.paired.append elseIf.paired)).node _ _
  | .block _ stmts none => (Stmt.pairedAll stmts).node _ _
  | .block _ stmts (some tail) => ((Stmt.pairedAll stmts).append tail.paired).node _ _
  | .index _ base position => (base.paired.append position.paired).node _ _
  | .array _ values => (Expr.pairedAll values).node _ _
  | .copies _ element _ => element.paired.node _ _
  | .struct _ _ fields => ((FieldInit.pairedAll fields).node _ _).node _ _

theorem Expr.pairedAll : ∀ es : List Expr, Paired (Expr.visitsAll es)
  | [] => .nil
  | e :: rest => e.paired.append (Expr.pairedAll rest)

theorem Stmt.paired : ∀ st : Stmt, Paired st.visits
  | .bind _ _ ascribed none => ((TypeExpr.pairedOf ascribed).node _ _).node _ _
  | .bind _ _ ascribed (some init) =>
    (((TypeExpr.pairedOf ascribed).append init.paired).node _ _).node _ _
  | .expr e => e.paired

theorem Stmt.pairedAll : ∀ sts : List Stmt, Paired (Stmt.visitsAll sts)
  | [] => .nil
  | st :: rest => st.paired.append (Stmt.pairedAll rest)

theorem FieldInit.pairedAll : ∀ fs : List FieldInit, Paired (FieldInit.visitsAll fs)
  | [] => .nil
  | .mk _ _ value :: rest => (value.paired.append (FieldInit.pairedAll rest)).node _ _

end

theorem Item.paired (i : Item) : Paired i.visits := by
  obtain ⟨h, k⟩ := i
  refine Paired.node ?_ h.id h.locus
  cases k with
  | function d =>
    exact (Paired.flatMap (fun p : Param => (p.type.paired.node _ _).node _ _) d.params).append
      ((TypeExpr.pairedOf d.returns).append d.body.paired)
  | struct d => exact Paired.flatMap (fun f : FieldDecl => f.type.paired.node _ _) d.fields
  | constant d => exact d.type.paired.append d.value.paired
  | static d => exact d.type.paired.append d.value.paired

/-! ## Programs -/

namespace Program

variable {p q : Program}

theorem ids_eq_map_nodes (p : Program) : p.ids = p.nodes.map (·.1.ir) := by
  unfold ids nodes irs
  rw [List.map_filterMap]
  congr 1
  funext v
  cases v <;> rfl

theorem nodes_pairwise (hn : p.ids.Nodup) (hs : p.surfaces.Nodup) :
    p.nodes.Pairwise Registry.Distinct := by
  rw [ids_eq_map_nodes] at hn
  exact (List.pairwise_map.1 hs).and (List.pairwise_map.1 hn)

theorem typePaths_pairwise (hs : p.surfaces.Nodup) : p.typePaths.Pairwise (·.1 ≠ ·.1) :=
  List.pairwise_map.1 (hs.sublist (Paired.flatMap Item.paired p.items))

theorem heads_pairwise (hs : p.surfaces.Nodup) :
    p.items.Pairwise (·.head.id.surface ≠ ·.head.id.surface) := by
  have hheads : (p.items.map (·.head.id.surface)).Sublist p.surfaces := by
    unfold surfaces nodes visits
    rw [List.filterMap_flatMap, List.map_flatMap, List.map_eq_flatMap]
    induction p.items with
    | nil => exact .slnil
    | cons i rest ih =>
      rw [List.flatMap_cons, List.flatMap_cons]
      exact (List.singleton_sublist.2 (List.mem_cons_self ..)).append ih
  exact List.pairwise_map.1 (hs.sublist hheads)

/-- The same items in another order, but for the struct items. -/
structure Reorders (p q : Program) : Prop where
  perm : q.items.Perm p.items
  structs : q.items.filter Item.isStruct = p.items.filter Item.isStruct

/-- What only struct items have is found among the struct items. -/
theorem findSome?_structs {α : Type} {f : Item → Option α}
    (hf : ∀ i, i.isStruct = false → f i = none) (items : List Item) :
    items.findSome? f = (items.filter Item.isStruct).findSome? f := by
  induction items with
  | nil => rfl
  | cons i rest ih =>
    rw [List.findSome?_cons]
    cases hi : i.isStruct with
    | true => rw [List.filter_cons_of_pos hi, List.findSome?_cons, ih]
    | false => rw [List.filter_cons_of_neg (Bool.eq_false_iff.1 hi), hf i hi, ih]

namespace Reorders

variable (h : Reorders p q)
include h

theorem visits_perm : q.visits.Perm p.visits := h.perm.flatMap_right _

theorem nodes_perm : q.nodes.Perm p.nodes := h.visits_perm.filterMap _

theorem typePaths_perm : q.typePaths.Perm p.typePaths := h.visits_perm.filterMap _

/-- The name of a struct means the last struct item of that name. -/
theorem struct?_eq (name : String) : q.struct? name = p.struct? name := by
  unfold struct?
  rw [findSome?_structs ?_ q.items.reverse, findSome?_structs ?_ p.items.reverse,
    List.filter_reverse, List.filter_reverse, h.structs]
  all_goals
    rintro ⟨g, k⟩ hk
    cases k with
    | struct d => cases hk
    | _ => rfl

end Reorders

end Program

/-! ## Sessions -/

/-- Two scopes that answer every question alike. -/
structure Scope.Alike (s s' : Scope) : Prop where
  node? : ∀ x, s'.registry.node? x = s.registry.node? x
  location : ∀ id, s'.registry.location id = s.registry.location id
  name? : ∀ n, s'.bindings.name? n = s.bindings.name? n
  type? : ∀ n, s'.bindings.type? n = s.bindings.type? n
  definition? : ∀ n, s'.bindings.definition? n = s.bindings.definition? n

theorem Scope.Alike.refl (s : Scope) : s.Alike s :=
  ⟨fun _ => rfl, fun _ => rfl, fun _ => rfl, fun _ => rfl, fun _ => rfl⟩

namespace Session

variable {u : CompilationUnit} {items : List Item}

/-- With its items in another order a unit starts with tables that answer alike. -/
theorem alike_withItems (hn : u.program.ids.Nodup) (hs : u.program.surfaces.Nodup)
    (hperm : items.Perm u.program.items)
    (hstructs : items.filter Item.isStruct = u.program.items.filter Item.isStruct) :
    (ofUnit u).scope.Alike (ofUnit (u.withItems items)).scope ∧
      (ofUnit (u.withItems items)).types = (ofUnit u).types := by
  have h : u.program.Reorders (u.withItems items).program := ⟨hperm, hstructs⟩
  have hentered : (entered u).Alike (entered (u.withItems items)) :=
    Registry.alike_enterAll h.nodes_perm.symm (Program.nodes_pairwise hn hs) .empty
  obtain ⟨hbuiltins, hdeclared⟩ := hentered.declare Primitive.all
  have hstart : (Bindings.withBuiltins (entered (u.withItems items))).1 =
      (Bindings.withBuiltins (entered u)).1 := by
    simp only [Bindings.withBuiltins, hbuiltins]
  have hbindings : (bindings u).Alike (bindings (u.withItems items)) := by
    have hpath : Bindings.addTypePath (u.withItems items).program =
        Bindings.addTypePath u.program := by
      funext b n
      unfold Bindings.addTypePath Bindings.implied?
      rw [h.struct?_eq]
    unfold bindings Bindings.ofUnit
    rw [hstart, Bindings.addTypePaths_eq, Bindings.addTypePaths_eq, hpath, Bindings.addItems_eq,
      Bindings.addItems_eq]
    refine foldl_perm Bindings.alike_equivalence (fun n hb => hb.addTypePath u.program n)
      Ne.symm (fun b _ _ hnm => Bindings.alike_addTypePath_comm u.program b hnm)
      h.typePaths_perm.symm (Program.typePaths_pairwise hs) _ _ ?_
    exact foldl_perm Bindings.alike_equivalence (fun i hb => hb.addItem i) Ne.symm
      (fun b _ _ hij => Bindings.alike_addItem_comm b hij) hperm.symm (Program.heads_pairwise hs)
      _ _ (Bindings.alike_equivalence.refl _)
  obtain ⟨htypes, hall⟩ := hdeclared.withBuiltins (bindings u).builtins
  have hregistry : (ofUnit u).scope.registry.Alike (ofUnit (u.withItems items)).scope.registry := by
    rw [ofUnit_registry, ofUnit_registry, hbindings.builtins]
    exact hall
  refine ⟨⟨hregistry.node?, hregistry.location, hbindings.name?, hbindings.type?,
    hbindings.definition?⟩, ?_⟩
  rw [ofUnit_types, ofUnit_types, hbindings.builtins]
  exact htypes

end Session

end MiddleEnd
