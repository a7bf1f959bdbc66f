/-
  Programs without some of their annotations. `Program.unascribe X` takes the annotation away from
  every `let` in `X` that has an initial value, and leaves all else as it is; `Program.dropped X`
  lists what it takes away.

  The walk over the program comes by the same nodes as the walk over what is left and the walks
  over the dropped annotations (`Program.visits_unascribe`), and so do the parts
  (`Program.trims`).
-/
import MiddleEnd.Proofs.Syntax.Surfaces

namespace MiddleEnd

/-! ## Taking annotations away -/

mutual

/-- The expression without the annotations of the `let`s in `X` that have an initial value. -/
def Expr.unascribe (X : IrId → Bool) : Expr → Expr
  | .literal h lit => .literal h lit
  | .identifier h name => .identifier h name
  | .ret h none => .ret h none
  | .ret h (some value) => .ret h (some (value.unascribe X))
  | .call h callee args => .call h (callee.unascribe X) (Expr.unascribeAll X args)
  | .assign h target value => .assign h (target.unascribe X) (value.unascribe X)
  | .binary h op lhs rhs => .binary h op (lhs.unascribe X) (rhs.unascribe X)
  | .ifOnly h condition body => .ifOnly h (condition.unascribe X) (body.unascribe X)
  | .ifElse h condition thenBody elseBody =>
    .ifElse h (condition.unascribe X) (thenBody.unascribe X) (elseBody.unascribe X)
  | .ifElseIf h condition thenBody elseIf =>
    .ifElseIf h (condition.unascribe X) (thenBody.unascribe X) (elseIf.unascribe X)
  | .block h stmts none => .block h (Stmt.unascribeAll X stmts) none
  | .block h stmts (some tail) => .block h (Stmt.unascribeAll X stmts) (some (tail.unascribe X))
  | .index h base position => .index h (base.unascribe X) (position.unascribe X)
  | .array h values => .array h (Expr.unascribeAll X values)
  | .copies h element count => .copies h (element.unascribe X) count
  | .struct h path fields => .struct h path (FieldInit.unascribeAll X fields)

def Expr.unascribeAll (X : IrId → Bool) : List Expr → List Expr
  | [] => []
  | e :: rest => e.unascribe X :: Expr.unascribeAll X rest

def Stmt.unascribe (X : IrId → Bool) : Stmt → Stmt
  | .bind h pattern ascribed none => .bind h pattern ascribed none
  | .bind h pattern ascribed (some init) =>
    .bind h pattern (if X h.id.ir then none else ascribed) (some (init.unascribe X))
  | .expr e => .expr (e.unascribe X)

def Stmt.unascribeAll (X : IrId → Bool) : List Stmt → List Stmt
  | [] => []
  | st :: rest => st.unascribe X :: Stmt.unascribeAll X rest

def FieldInit.unascribeAll (X : IrId → Bool) : List FieldInit → List FieldInit
  | [] => []
  | .mk h name value :: rest => .mk h name (value.unascribe X) :: FieldInit.unascribeAll X rest

end

mutual

/-- The annotations taken away. -/
def Expr.dropped (X : IrId → Bool) : Expr → List TypeExpr
  | .literal .. | .identifier .. | .ret _ none => []
  | .ret _ (some value) => value.dropped X
  | .call _ callee args => callee.dropped X ++ Expr.droppedAll X args
  | .assign _ target value => target.dropped X ++ value.dropped X
  | .binary _ _ lhs rhs => lhs.dropped X ++ rhs.dropped X
  | .ifOnly _ condition body => condition.dropped X ++ body.dropped X
  | .ifElse _ condition thenBody elseBody =>
    condition.dropped X ++ (thenBody.dropped X ++ elseBody.dropped X)
  | .ifElseIf _ condition thenBody elseIf =>
    condition.dropped X ++ (thenBody.dropped X ++ elseIf.dropped X)
  | .block _ stmts none => Stmt.droppedAll X stmts
  | .block _ stmts (some tail) => Stmt.droppedAll X stmts ++ tail.dropped X
  | .index _ base position => base.dropped X ++ position.dropped X
  | .array _ values => Expr.droppedAll X values
  | .copies _ element _ => element.dropped X
  | .struct _ _ fields => FieldInit.droppedAll X fields

def Expr.droppedAll (X : IrId → Bool) : List Expr → List TypeExpr
  | [] => []
  | e :: rest => e.dropped X ++ Expr.droppedAll X rest

def Stmt.dropped (X : IrId → Bool) : Stmt → List TypeExpr
  | .bind _ _ _ none => []
  | .bind h _ ascribed (some init) =>
    (if X h.id.ir then ascribed.toList else []) ++ init.dropped X
  | .expr e => e.dropped X

def Stmt.droppedAll (X : IrId → Bool) : List Stmt → List TypeExpr
  | [] => []
  | st :: rest => st.dropped X ++ Stmt.droppedAll X rest

def FieldInit.droppedAll (X : IrId → Bool) : List FieldInit → List TypeExpr
  | [] => []
  | .mk _ _ value :: rest => value.dropped X ++ FieldInit.droppedAll X rest

end

def ItemKind.unascribe (X : IrId → Bool) : ItemKind → ItemKind
  | .function d => .function { d with body := d.body.unascribe X }
  | .struct d => .struct d
  | .constant d => .constant { d with value := d.value.unascribe X }
  | .static d => .static { d with value := d.value.unascribe X }

def ItemKind.dropped (X : IrId → Bool) : ItemKind → List TypeExpr
  | .function d => d.body.dropped X
  | .struct _ => []
  | .constant d => d.value.dropped X
  | .static d => d.value.dropped X

def Item.unascribe (X : IrId → Bool) (i : Item) : Item := ⟨i.head, i.kind.unascribe X⟩

def Program.unascribe (X : IrId → Bool) (p : Program) : Program :=
  ⟨p.crate, p.items.map (Item.unascribe X)⟩

def Program.dropped (X : IrId → Bool) (p : Program) : List TypeExpr :=
  p.items.flatMap fun i => i.kind.dropped X

/-- What a unit says about dropped annotations stays in it. -/
def CompilationUnit.unascribe (X : IrId → Bool) (u : CompilationUnit) : CompilationUnit :=
  { u with program := u.program.unascribe X }

variable (X : IrId → Bool)

/-! ## What stays -/

namespace Expr

@[simp] theorem head_unascribe (e : Expr) : (e.unascribe X).head = e.head := by
  cases e with
  | ret h value => cases value <;> rfl
  | block h stmts tail => cases tail <;> rfl
  | _ => rfl

@[simp] theorem ir_unascribe (e : Expr) : (e.unascribe X).ir = e.ir :=
  congrArg (·.id.ir) (e.head_unascribe X)

@[simp] theorem surface_unascribe (e : Expr) : (e.unascribe X).surface = e.surface :=
  congrArg (·.id.surface) (e.head_unascribe X)

@[simp] theorem tail?_unascribe (e : Expr) :
    (e.unascribe X).tail? = e.tail?.map (unascribe X) := by
  cases e with
  | ret h value => cases value <;> rfl
  | block h stmts tail => cases tail <;> rfl
  | _ => rfl

/-- Only names become names. -/
theorem unascribe_eq_identifier {e : Expr} {g : Head} {name : String}
    (h : e.unascribe X = .identifier g name) : e = .identifier g name := by
  cases e with
  | identifier g' name' => exact h
  | ret g' value => cases value <;> cases h
  | block g' stmts tail => cases tail <;> cases h
  | _ => cases h

@[simp] theorem length_unascribeAll (es : List Expr) :
    (unascribeAll X es).length = es.length := by
  induction es with
  | nil => rfl
  | cons e es ih => exact congrArg (· + 1) ih

end Expr

@[simp] theorem FieldInit.map_name_unascribeAll (fs : List FieldInit) :
    (unascribeAll X fs).map name = fs.map name := by
  induction fs with
  | nil => rfl
  | cons f fs ih =>
    obtain ⟨h, name, value⟩ := f
    exact congrArg (name :: ·) ih

@[simp] theorem Item.isStruct_unascribe (i : Item) : (i.unascribe X).isStruct = i.isStruct := by
  obtain ⟨h, k⟩ := i
  cases k <;> rfl

@[simp] theorem Item.signatureParts_unascribe (i : Item) :
    (i.unascribe X).signatureParts = i.signatureParts := by
  obtain ⟨h, k⟩ := i
  cases k <;> rfl

@[simp] theorem Item.firm_unascribe (i : Item) : (i.unascribe X).firm = i.firm := by
  obtain ⟨h, k⟩ := i
  cases k <;> rfl

theorem Program.firm_unascribe (p : Program) : (p.unascribe X).firm = p.firm := by
  unfold firm unascribe
  rw [List.flatMap_map]
  exact congrArg (fun f => p.items.flatMap f) (funext fun i => i.firm_unascribe X)

/-! ## The walk -/

/-- The visits are those of what is left and those of the dropped annotations. -/
def Splits (vs ws : List Visit) (ds : List TypeExpr) : Prop :=
  vs.Perm (ws ++ ds.flatMap TypeExpr.visits)

namespace Splits

variable {vs ws vs' ws' : List Visit} {ds ds' : List TypeExpr}

theorem refl (vs : List Visit) : Splits vs vs [] := by
  unfold Splits
  rw [List.flatMap_nil, List.append_nil]

theorem cons (h : Splits vs ws ds) (v : Visit) : Splits (v :: vs) (v :: ws) ds := List.Perm.cons v h

theorem append (h : Splits vs ws ds) (k : Splits vs' ws' ds') :
    Splits (vs ++ vs') (ws ++ ws') (ds ++ ds') := by
  unfold Splits
  rw [List.flatMap_append, List.append_assoc]
  refine (List.Perm.append h k).trans ?_
  rw [List.append_assoc]
  refine List.Perm.append_left ws ?_
  rw [← List.append_assoc, ← List.append_assoc]
  exact List.perm_append_comm.append_right _

/-- An annotation that is dropped or stays. -/
theorem ascription (b : Bool) (a : Option TypeExpr) :
    Splits (TypeExpr.visitsOf a) (TypeExpr.visitsOf (if b then none else a))
      (if b then a.toList else []) := by
  cases b with
  | false => exact .refl _
  | true =>
    cases a with
    | none => exact .refl _
    | some a => exact .of_eq (List.append_nil a.visits).symm

theorem flatMap {α : Type} {f g : α → List Visit} {d : α → List TypeExpr}
    (h : ∀ a, Splits (f a) (g a) (d a)) : ∀ l : List α,
      Splits (l.flatMap f) (l.flatMap g) (l.flatMap d)
  | [] => .refl _
  | a :: l => (h a).append (flatMap h l)

end Splits

mutual

theorem Expr.splits : ∀ e : Expr, Splits e.visits (e.unascribe X).visits (e.dropped X)
  | .literal _ _ | .identifier _ _ | .ret _ none => .refl _
  | .ret h (some value) => value.splits.cons (.ofHead h)
  | .call h callee args => (callee.splits.append (Expr.splitsAll args)).cons (.ofHead h)
  | .assign h target value => (target.splits.append value.splits).cons (.ofHead h)
  | .binary h _ lhs rhs => (lhs.splits.append rhs.splits).cons (.ofHead h)
  | .ifOnly h condition body => (condition.splits.append body.splits).cons (.ofHead h)
  | .ifElse h condition thenBody elseBody =>
    (condition.splits.append (thenBody.splits.append elseBody.splits)).cons (.ofHead h)
  | .ifElseIf h condition thenBody elseIf =>
    (condition.splits.append (thenBody.splits.append elseIf.splits)).cons (.ofHead h)
  | .block h stmts none => (Stmt.splitsAll stmts).cons (.ofHead h)
  | .block h stmts (some tail) => ((Stmt.splitsAll stmts).append tail.splits).cons (.ofHead h)
  | .index h base position => (base.splits.append position.splits).cons (.ofHead h)
  | .array h values => (Expr.splitsAll values).cons (.ofHead h)
  | .copies h element _ => element.splits.cons (.ofHead h)
  | .struct h path fields => ((FieldInit.splitsAll fields).cons (.node path.id h.locus)).cons
      (.ofHead h)

theorem Expr.splitsAll : ∀ es : List Expr,
    Splits (Expr.visitsAll es) (Expr.visitsAll (Expr.unascribeAll X es)) (Expr.droppedAll X es)
  | [] => .refl _
  | e :: rest => e.splits.append (Expr.splitsAll rest)

theorem Stmt.splits : ∀ st : Stmt, Splits st.visits (st.unascribe X).visits (st.dropped X)
  | .bind _ _ _ none => .refl _
  | .bind h pattern ascribed (some init) =>
    (((Splits.ascription (X h.id.ir) ascribed).append init.splits).cons
      (.node pattern.id h.locus)).cons (.ofHead h)
  | .expr e => e.splits

theorem Stmt.splitsAll : ∀ sts : List Stmt,
    Splits (Stmt.visitsAll sts) (Stmt.visitsAll (Stmt.unascribeAll X sts)) (Stmt.droppedAll X sts)
  | [] => .refl _
  | st :: rest => st.splits.append (Stmt.splitsAll rest)

theorem FieldInit.splitsAll : ∀ fs : List FieldInit, Splits (FieldInit.visitsAll fs)
    (FieldInit.visitsAll (FieldInit.unascribeAll X fs)) (FieldInit.droppedAll X fs)
  | [] => .refl _
  | .mk h _ value :: rest => (value.splits.append (FieldInit.splitsAll rest)).cons (.ofHead h)

end

theorem Item.splits (i : Item) : Splits i.visits (i.unascribe X).visits (i.kind.dropped X) := by
  obtain ⟨h, k⟩ := i
  refine Splits.cons ?_ (.ofHead h)
  cases k with
  | function d => exact (Splits.refl _).append ((Splits.refl _).append (d.body.splits X))
  | struct d => exact .refl _
  | constant d => exact (Splits.refl _).append (d.value.splits X)
  | static d => exact (Splits.refl _).append (d.value.splits X)

namespace Program

variable (p : Program)

/-- The walk over the program comes by the same nodes as the walks over what is left of it and over
the dropped annotations. -/
theorem visits_unascribe :
    p.visits.Perm ((p.unascribe X).visits ++ (p.dropped X).flatMap TypeExpr.visits) := by
  have h := Splits.flatMap (fun i => Item.splits X i) p.items
  rwa [← List.flatMap_map (f := Item.unascribe X) (g := Item.visits)] at h

/-- The nodes of the dropped annotations. -/
def droppedNodes : List (Identity × Location) :=
  ((p.dropped X).flatMap TypeExpr.visits).filterMap Visit.node?

/-- The identities of the nodes of the dropped annotations. -/
def droppedIds : List IrId := (p.dropped X).flatMap TypeExpr.ids

theorem ids_unascribe : p.ids.Perm ((p.unascribe X).ids ++ p.droppedIds X) := by
  have h := (p.visits_unascribe X).filterMap Visit.ir?
  rw [List.filterMap_append] at h
  have hdropped : ((p.dropped X).flatMap TypeExpr.visits).filterMap Visit.ir? = p.droppedIds X :=
    irs_flatMap ..
  rwa [hdropped] at h

theorem nodes_unascribe : p.nodes.Perm ((p.unascribe X).nodes ++ p.droppedNodes X) := by
  have h := (p.visits_unascribe X).filterMap Visit.node?
  rwa [List.filterMap_append] at h

theorem typePaths_unascribe : p.typePaths.Perm ((p.unascribe X).typePaths ++
    ((p.dropped X).flatMap TypeExpr.visits).filterMap Visit.typePath?) := by
  have h := (p.visits_unascribe X).filterMap Visit.typePath?
  rwa [List.filterMap_append] at h

end Program

/-! ## The parts -/

/-- The part without the annotations taken away. -/
def Part.unascribe : Part → Part
  | .expr e => .expr (e.unascribe X)
  | .callee e => .callee (e.unascribe X)
  | .bind h pattern => .bind h pattern
  | .ascription a => .ascription a
  | .path q => .path q
  | .field h => .field h

/-- The parts `qs` are what is left of the parts `ps` without the dropped annotations. -/
structure Trims (ps qs : List Part) (ds : List TypeExpr) : Prop where
  kept : qs ⊆ ps.map (Part.unascribe X)
  covered : ps.map (Part.unascribe X) ⊆ qs ++ ds.flatMap TypeExpr.parts

namespace Trims

variable {X} {ps qs ps' qs' : List Part} {ds ds' : List TypeExpr}

theorem nil : Trims X [] [] [] := ⟨List.Subset.refl _, List.Subset.refl _⟩

theorem cons (h : Trims X ps qs ds) (p : Part) :
    Trims X (p :: ps) (p.unascribe X :: qs) ds :=
  ⟨List.cons_subset_cons _ h.kept, List.cons_subset_cons _ h.covered⟩

theorem append (h : Trims X ps qs ds) (k : Trims X ps' qs' ds') :
    Trims X (ps ++ ps') (qs ++ qs') (ds ++ ds') := by
  constructor
  · rw [List.map_append]
    exact List.append_subset.2 ⟨List.Subset.trans h.kept (List.subset_append_left ..),
      List.Subset.trans k.kept (List.subset_append_right ..)⟩
  · rw [List.map_append, List.flatMap_append]
    intro p hp
    simp only [List.mem_append]
    rcases List.mem_append.1 hp with hp | hp
    · rcases List.mem_append.1 (h.covered hp) with hp | hp
      · exact .inl (.inl hp)
      · exact .inr (.inl hp)
    · rcases List.mem_append.1 (k.covered hp) with hp | hp
      · exact .inl (.inr hp)
      · exact .inr (.inr hp)

/-- More may be dropped than is missing. -/
theorem widen (h : Trims X ps qs ds) (hd : ds ⊆ ds') : Trims X ps qs ds' :=
  ⟨h.kept, fun _ hp => (List.mem_append.1 (h.covered hp)).elim (List.mem_append_left _)
    fun hp => by
      obtain ⟨d, hm, hp⟩ := List.mem_flatMap.1 hp
      exact List.mem_append_right _ (List.mem_flatMap.2 ⟨d, hd hm, hp⟩)⟩

theorem ascriptions : ∀ a : TypeExpr, Trims X a.parts a.parts []
  | .path h name => nil.cons (.ascription (.path h name))
  | .array h element capacity => (ascriptions element).cons (.ascription (.array h element capacity))
  | .unit h => nil.cons (.ascription (.unit h))

theorem ascriptionsOf (a : Option TypeExpr) :
    Trims X (TypeExpr.partsOf a) (TypeExpr.partsOf a) [] := by
  cases a with
  | none => exact nil
  | some a => exact ascriptions a

/-- An annotation that is dropped or stays. -/
theorem ascription (b : Bool) (a : Option TypeExpr) :
    Trims X (TypeExpr.partsOf a) (TypeExpr.partsOf (if b then none else a))
      (if b then a.toList else []) := by
  cases b with
  | false => exact ascriptionsOf a
  | true =>
    cases a with
    | none => exact nil
    | some a =>
      refine ⟨List.nil_subset _, ?_⟩
      show a.parts.map (Part.unascribe X) ⊆ a.parts ++ []
      exact (ascriptions a).covered

theorem flatMap {α : Type} {f g : α → List Part} {d : α → List TypeExpr}
    (h : ∀ a, Trims X (f a) (g a) (d a)) : ∀ l : List α,
      Trims X (l.flatMap f) (l.flatMap g) (l.flatMap d)
  | [] => nil
  | a :: l => (h a).append (flatMap h l)

end Trims

mutual

theorem Expr.trims : ∀ e : Expr, Trims X e.parts (e.unascribe X).parts (e.dropped X)
  | .literal h lit => Trims.nil.cons (.expr (.literal h lit))
  | .identifier h name => Trims.nil.cons (.expr (.identifier h name))
  | .ret h none => Trims.nil.cons (.expr (.ret h none))
  | .ret h (some value) => value.trims.cons (.expr (.ret h (some value)))
  | .call h callee args =>
    (((Expr.trimsAll args).widen (List.subset_append_right ..)).cons (.callee callee)).cons
      (.expr (.call h callee args))
  | .assign h target value =>
    (target.trims.append value.trims).cons (.expr (.assign h target value))
  | .binary h op lhs rhs => (lhs.trims.append rhs.trims).cons (.expr (.binary h op lhs rhs))
  | .ifOnly h condition body =>
    (condition.trims.append body.trims).cons (.expr (.ifOnly h condition body))
  | .ifElse h condition thenBody elseBody =>
    (condition.trims.append (thenBody.trims.append elseBody.trims)).cons
      (.expr (.ifElse h condition thenBody elseBody))
  | .ifElseIf h condition thenBody elseIf =>
    (condition.trims.append (thenBody.trims.append elseIf.trims)).cons
      (.expr (.ifElseIf h condition thenBody elseIf))
  | .block h stmts none => (Stmt.trimsAll stmts).cons (.expr (.block h stmts none))
  | .block h stmts (some tail) =>
    ((Stmt.trimsAll stmts).append tail.trims).cons (.expr (.block h stmts (some tail)))
  | .index h base position =>
    (base.trims.append position.trims).cons (.expr (.index h base position))
  | .array h values => (Expr.trimsAll values).cons (.expr (.array h values))
  | .copies h element count => element.trims.cons (.expr (.copies h element count))
  | .struct h path fields =>
    ((FieldInit.trimsAll fields).cons (.path path)).cons (.expr (.struct h path fields))

theorem Expr.trimsAll : ∀ es : List Expr,
    Trims X (Expr.partsAll es) (Expr.partsAll (Expr.unascribeAll X es)) (Expr.droppedAll X es)
  | [] => .nil
  | e :: rest => e.trims.append (Expr.trimsAll rest)

theorem Stmt.trims : ∀ st : Stmt, Trims X st.parts (st.unascribe X).parts (st.dropped X)
  | .bind h pattern ascribed none => (Trims.ascriptionsOf ascribed).cons (.bind h pattern)
  | .bind h pattern ascribed (some init) =>
    ((Trims.ascription (X h.id.ir) ascribed).append init.trims).cons (.bind h pattern)
  | .expr e => e.trims

theorem Stmt.trimsAll : ∀ sts : List Stmt,
    Trims X (Stmt.partsAll sts) (Stmt.partsAll (Stmt.unascribeAll X sts)) (Stmt.droppedAll X sts)
  | [] => .nil
  | st :: rest => st.trims.append (Stmt.trimsAll rest)

theorem FieldInit.trimsAll : ∀ fs : List FieldInit, Trims X (FieldInit.partsAll fs)
    (FieldInit.partsAll (FieldInit.unascribeAll X fs)) (FieldInit.droppedAll X fs)
  | [] => .nil
  | .mk h _ value :: rest => (value.trims.append (FieldInit.trimsAll rest)).cons (.field h)

end

theorem Item.trims (i : Item) : Trims X i.parts (i.unascribe X).parts (i.kind.dropped X) := by
  have hsignature : Trims X i.signatureParts i.signatureParts [] := by
    obtain ⟨h, k⟩ := i
    cases k with
    | function d =>
      have hparams := Trims.flatMap (fun p : Param => Trims.ascriptions (X := X) p.type) d.params
      rw [List.flatMap_eq_nil_iff.2 fun _ _ => rfl] at hparams
      exact hparams.append (Trims.ascriptionsOf d.returns)
    | struct d =>
      have hfields := Trims.flatMap (fun f : FieldDecl => Trims.ascriptions (X := X) f.type) d.fields
      rwa [List.flatMap_eq_nil_iff.2 fun _ _ => rfl] at hfields
    | constant d => exact Trims.ascriptions d.type
    | static d => exact Trims.ascriptions d.type
  have hbody : Trims X i.bodyParts (i.unascribe X).bodyParts (i.kind.dropped X) := by
    obtain ⟨h, k⟩ := i
    cases k with
    | function d => exact d.body.trims X
    | struct d => exact Trims.nil
    | constant d => exact d.value.trims X
    | static d => exact d.value.trims X
  unfold Item.parts
  rw [i.signatureParts_unascribe]
  exact hsignature.append hbody

namespace Program

variable {X} {p : Program}

theorem trims (p : Program) : Trims X p.parts (p.unascribe X).parts (p.dropped X) := by
  have h := Trims.flatMap (fun i => Item.trims X i) p.items
  rwa [← List.flatMap_map (f := Item.unascribe X) (g := Item.parts)] at h

/-- The annotations that are left were there before. -/
theorem mem_parts_of_unascribe {a : TypeExpr} (h : .ascription a ∈ (p.unascribe X).parts) :
    .ascription a ∈ p.parts := by
  obtain ⟨q, hq, he⟩ := List.mem_map.1 (p.trims.kept h)
  cases q with
  | ascription b =>
    cases he
    exact hq
  | _ => cases he

/-- What is no annotation stays, without the annotations taken away. -/
theorem unascribe_mem_parts {q : Part} (h : q ∈ p.parts) (hq : ∀ a, q ≠ .ascription a) :
    q.unascribe X ∈ (p.unascribe X).parts := by
  rcases List.mem_append.1 (p.trims.covered (List.mem_map_of_mem h)) with hm | hm
  · exact hm
  · obtain ⟨d, _, hm⟩ := List.mem_flatMap.1 hm
    obtain ⟨a, ha⟩ := d.eq_ascription_of_mem_parts hm
    cases q with
    | ascription b => exact absurd rfl (hq b)
    | _ => cases ha

end Program

end MiddleEnd
