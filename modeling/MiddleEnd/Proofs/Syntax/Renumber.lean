/-
  Other numbers for the nodes of a unit. A renumbering maps surface identities and identities of
  the checked tree; crates, names, positions and the shape of the program stay as they are, and so
  does what messages show of it. What a unit becomes depends on the identities it mentions only
  (`CompilationUnit.renumber_congr`).
-/
import MiddleEnd.Proofs.Syntax.Surfaces
import MiddleEnd.Syntax.Text

namespace MiddleEnd

/-- New numbers for nodes of the surface syntax and for nodes of the checked tree. -/
structure Renumbering where
  surface : SurfaceId → SurfaceId
  ir : IrId → IrId

variable (ρ τ : Renumbering)

/-! ## Renumbered syntax -/

def Identity.renumber (i : Identity) : Identity := ⟨i.crate, ρ.surface i.surface, ρ.ir i.ir⟩

def Head.renumber (h : Head) : Head := ⟨h.id.renumber ρ, h.locus⟩

def TypeExpr.renumber : TypeExpr → TypeExpr
  | .path h name => .path (h.renumber ρ) name
  | .array h element capacity => .array (h.renumber ρ) element.renumber capacity
  | .unit h => .unit (h.renumber ρ)

def Pattern.renumber (p : Pattern) : Pattern := { p with id := p.id.renumber ρ }

def StructPath.renumber (p : StructPath) : StructPath := { p with id := p.id.renumber ρ }

mutual

def Expr.renumber : Expr → Expr
  | .literal h lit => .literal (h.renumber ρ) lit
  | .identifier h name => .identifier (h.renumber ρ) name
  | .ret h none => .ret (h.renumber ρ) none
  | .ret h (some value) => .ret (h.renumber ρ) (some value.renumber)
  | .call h callee args => .call (h.renumber ρ) callee.renumber (Expr.renumberAll args)
  | .assign h target value => .assign (h.renumber ρ) target.renumber value.renumber
  | .binary h op lhs rhs => .binary (h.renumber ρ) op lhs.renumber rhs.renumber
  | .ifOnly h condition body => .ifOnly (h.renumber ρ) condition.renumber body.renumber
  | .ifElse h condition thenBody elseBody =>
    .ifElse (h.renumber ρ) condition.renumber thenBody.renumber elseBody.renumber
  | .ifElseIf h condition thenBody elseIf =>
    .ifElseIf (h.renumber ρ) condition.renumber thenBody.renumber elseIf.renumber
  | .block h stmts none => .block (h.renumber ρ) (Stmt.renumberAll stmts) none
  | .block h stmts (some tail) =>
    .block (h.renumber ρ) (Stmt.renumberAll stmts) (some tail.renumber)
  | .index h base position => .index (h.renumber ρ) base.renumber position.renumber
  | .array h values => .array (h.renumber ρ) (Expr.renumberAll values)
  | .copies h element count => .copies (h.renumber ρ) element.renumber count
  | .struct h path fields =>
    .struct (h.renumber ρ) (path.renumber ρ) (FieldInit.renumberAll fields)

def Expr.renumberAll : List Expr → List Expr
  | [] => []
  | e :: rest => e.renumber :: Expr.renumberAll rest

def Stmt.renumber : Stmt → Stmt
  | .bind h pattern ascribed none =>
    .bind (h.renumber ρ) (pattern.renumber ρ) (ascribed.map (TypeExpr.renumber ρ)) none
  | .bind h pattern ascribed (some init) =>
    .bind (h.renumber ρ) (pattern.renumber ρ) (ascribed.map (TypeExpr.renumber ρ))
      (some init.renumber)
  | .expr e => .expr e.renumber

def Stmt.renumberAll : List Stmt → List Stmt
  | [] => []
  | st :: rest => st.renumber :: Stmt.renumberAll rest

def FieldInit.renumberAll : List FieldInit → List FieldInit
  | [] => []
  | .mk h name value :: rest =>
    .mk (h.renumber ρ) name value.renumber :: FieldInit.renumberAll rest

end

def Param.renumber (p : Param) : Param :=
  ⟨p.head.renumber ρ, p.pattern.renumber ρ, p.type.renumber ρ⟩

def FunctionDecl.renumber (d : FunctionDecl) : FunctionDecl :=
  ⟨d.name, d.params.map (Param.renumber ρ), d.returns.map (TypeExpr.renumber ρ),
    d.body.renumber ρ⟩

def FieldDecl.renumber (f : FieldDecl) : FieldDecl := ⟨f.head.renumber ρ, f.name, f.type.renumber ρ⟩

def StructDecl.renumber (d : StructDecl) : StructDecl :=
  ⟨d.name, d.fields.map (FieldDecl.renumber ρ)⟩

def ConstantDecl.renumber (d : ConstantDecl) : ConstantDecl :=
  ⟨d.name, d.type.renumber ρ, d.value.renumber ρ⟩

def StaticDecl.renumber (d : StaticDecl) : StaticDecl :=
  ⟨d.name, d.isMutable, d.type.renumber ρ, d.value.renumber ρ⟩

def ItemKind.renumber : ItemKind → ItemKind
  | .function d => .function (d.renumber ρ)
  | .struct d => .struct (d.renumber ρ)
  | .constant d => .constant (d.renumber ρ)
  | .static d => .static (d.renumber ρ)

def Item.renumber (i : Item) : Item := ⟨i.head.renumber ρ, i.kind.renumber ρ⟩

def Program.renumber (p : Program) : Program := ⟨p.crate, p.items.map (Item.renumber ρ)⟩

def Binding.renumber (b : Binding) : Binding := ⟨ρ.surface b.use, ρ.surface b.decl⟩

def Definition.renumber (d : Definition) : Definition := ⟨ρ.surface d.node, ρ.surface d.parent⟩

/-- The unit with other numbers for its nodes, throughout. -/
def CompilationUnit.renumber (u : CompilationUnit) : CompilationUnit :=
  ⟨u.program.renumber ρ, u.names.map (Binding.renumber ρ), u.types.map (Binding.renumber ρ),
    u.definitions.map (Definition.renumber ρ)⟩

def Visit.renumber : Visit → Visit
  | .node i l => .node (i.renumber ρ) l
  | .typePath n name => .typePath (ρ.surface n) name

/-! ## What stays -/

@[simp] theorem Head.renumber_locus (h : Head) : (h.renumber ρ).locus = h.locus := rfl

@[simp] theorem Head.renumber_ir (h : Head) : (h.renumber ρ).id.ir = ρ.ir h.id.ir := rfl

@[simp] theorem Head.renumber_surface (h : Head) :
    (h.renumber ρ).id.surface = ρ.surface h.id.surface := rfl

@[simp] theorem Head.renumber_crate (h : Head) : (h.renumber ρ).id.crate = h.id.crate := rfl

namespace Expr

@[simp] theorem head_renumber (e : Expr) : (e.renumber ρ).head = e.head.renumber ρ := by
  cases e with
  | ret h value => cases value <;> rfl
  | block h stmts tail => cases tail <;> rfl
  | _ => rfl

@[simp] theorem ir_renumber (e : Expr) : (e.renumber ρ).ir = ρ.ir e.ir := by
  unfold ir
  rw [head_renumber, Head.renumber_ir]

@[simp] theorem surface_renumber (e : Expr) : (e.renumber ρ).surface = ρ.surface e.surface := by
  unfold surface
  rw [head_renumber, Head.renumber_surface]

end Expr

@[simp] theorem FieldInit.map_name_renumberAll (fs : List FieldInit) :
    (renumberAll ρ fs).map name = fs.map name := by
  induction fs with
  | nil => rfl
  | cons f rest ih =>
    cases f
    exact congrArg (_ :: ·) ih

@[simp] theorem Item.name_renumber (i : Item) : (i.renumber ρ).name = i.name := by
  obtain ⟨h, k⟩ := i
  cases k <;> rfl

mutual

/-- What messages show of an expression has no numbers in it. -/
@[simp] theorem Expr.text_renumber : ∀ e : Expr, (e.renumber ρ).text = e.text
  | .literal _ _ | .identifier _ _ | .ret _ none | .block _ _ none | .block _ _ (some _)
  | .struct _ _ _ => by simp only [renumber, text, StructPath.renumber]
  | .ret _ (some value) => by simp only [renumber, text, text_renumber value]
  | .call _ callee args => by
    simp only [renumber, text, text_renumber callee, texts_renumberAll args]
  | .assign _ target value => by
    simp only [renumber, text, text_renumber target, text_renumber value]
  | .binary _ _ lhs rhs => by simp only [renumber, text, text_renumber lhs, text_renumber rhs]
  | .ifOnly _ condition _ | .ifElse _ condition _ _ => by
    simp only [renumber, text, text_renumber condition]
  | .ifElseIf _ condition _ elseIf => by
    simp only [renumber, text, text_renumber condition, text_renumber elseIf]
  | .index _ base position => by
    simp only [renumber, text, text_renumber base, text_renumber position]
  | .array _ values => by simp only [renumber, text, texts_renumberAll values]
  | .copies _ element _ => by simp only [renumber, text, text_renumber element]

@[simp] theorem Expr.texts_renumberAll :
    ∀ es : List Expr, Expr.texts (Expr.renumberAll ρ es) = Expr.texts es
  | [] => rfl
  | [e] => by simp only [renumberAll, texts, text_renumber e]
  | e :: f :: rest => by
    have hrest := texts_renumberAll (f :: rest)
    simp only [renumberAll] at hrest
    simp only [renumberAll, texts, text_renumber e, hrest]

end

/-! ## Renumberings that agree -/

/-- The renumberings give every node visited the same new numbers. -/
def AgreeOn (vs : List Visit) : Prop := ∀ i l, .node i l ∈ vs → i.renumber ρ = i.renumber τ

section

variable {ρ τ}

@[simp] theorem agreeOn_node {i : Identity} {l : Location} {vs : List Visit} :
    AgreeOn ρ τ (.node i l :: vs) ↔ i.renumber ρ = i.renumber τ ∧ AgreeOn ρ τ vs := by
  constructor
  · exact fun h => ⟨h i l (List.mem_cons_self ..), fun j m hj => h j m (List.mem_cons_of_mem _ hj)⟩
  · rintro ⟨hi, hvs⟩ j m hj
    rcases List.mem_cons.1 hj with he | hj
    · cases he
      exact hi
    · exact hvs j m hj

@[simp] theorem agreeOn_ofHead {h : Head} {vs : List Visit} :
    AgreeOn ρ τ (.ofHead h :: vs) ↔ h.renumber ρ = h.renumber τ ∧ AgreeOn ρ τ vs := by
  unfold Visit.ofHead Head.renumber
  rw [agreeOn_node, Head.mk.injEq, and_iff_left rfl]

@[simp] theorem agreeOn_append {vs ws : List Visit} :
    AgreeOn ρ τ (vs ++ ws) ↔ AgreeOn ρ τ vs ∧ AgreeOn ρ τ ws := by
  simp only [AgreeOn, List.mem_append, or_imp, forall_and]

theorem TypeExpr.renumber_congr :
    ∀ {a : TypeExpr}, AgreeOn ρ τ a.visits → a.renumber ρ = a.renumber τ
  | .path _ _, h | .unit _, h => by
    rw [renumber, renumber, (agreeOn_ofHead.1 h).1]
  | .array _ element _, h => by
    obtain ⟨hh, he⟩ := agreeOn_ofHead.1 h
    simp only [renumber, hh, renumber_congr he]

theorem TypeExpr.map_renumber_congr {a : Option TypeExpr} (h : AgreeOn ρ τ (visitsOf a)) :
    a.map (renumber ρ) = a.map (renumber τ) := by
  cases a with
  | none => rfl
  | some a => exact congrArg some (renumber_congr h)

mutual

theorem Expr.renumber_congr :
    ∀ {e : Expr}, AgreeOn ρ τ e.visits → e.renumber ρ = e.renumber τ
  | .literal _ _, h | .identifier _ _, h | .ret _ none, h => by
    simp only [Expr.renumber, (agreeOn_ofHead.1 h).1]
  | .ret _ (some value), h => by
    obtain ⟨hh, hv⟩ := agreeOn_ofHead.1 h
    simp only [Expr.renumber, hh, Expr.renumber_congr hv]
  | .call _ callee args, h => by
    obtain ⟨hh, hc, ha⟩ : _ ∧ _ ∧ _ := by simpa [Expr.visits] using h
    simp only [Expr.renumber, hh, Expr.renumber_congr hc, Expr.renumberAll_congr ha]
  | .assign _ target value, h => by
    obtain ⟨hh, ht, hv⟩ : _ ∧ _ ∧ _ := by simpa [Expr.visits] using h
    simp only [Expr.renumber, hh, Expr.renumber_congr ht, Expr.renumber_congr hv]
  | .binary _ _ lhs rhs, h => by
    obtain ⟨hh, hl, hr⟩ : _ ∧ _ ∧ _ := by simpa [Expr.visits] using h
    simp only [Expr.renumber, hh, Expr.renumber_congr hl, Expr.renumber_congr hr]
  | .ifOnly _ condition body, h => by
    obtain ⟨hh, hc, hb⟩ : _ ∧ _ ∧ _ := by simpa [Expr.visits] using h
    simp only [Expr.renumber, hh, Expr.renumber_congr hc, Expr.renumber_congr hb]
  | .ifElse _ condition thenBody elseBody, h => by
    obtain ⟨hh, hc, ht, he⟩ : _ ∧ _ ∧ _ ∧ _ := by simpa [Expr.visits] using h
    simp only [Expr.renumber, hh, Expr.renumber_congr hc, Expr.renumber_congr ht,
      Expr.renumber_congr he]
  | .ifElseIf _ condition thenBody elseIf, h => by
    obtain ⟨hh, hc, ht, he⟩ : _ ∧ _ ∧ _ ∧ _ := by simpa [Expr.visits] using h
    simp only [Expr.renumber, hh, Expr.renumber_congr hc, Expr.renumber_congr ht,
      Expr.renumber_congr he]
  | .block _ stmts none, h => by
    obtain ⟨hh, hs⟩ := agreeOn_ofHead.1 h
    simp only [Expr.renumber, hh, Stmt.renumberAll_congr hs]
  | .block _ stmts (some tail), h => by
    obtain ⟨hh, hs, ht⟩ : _ ∧ _ ∧ _ := by simpa [Expr.visits] using h
    simp only [Expr.renumber, hh, Stmt.renumberAll_congr hs, Expr.renumber_congr ht]
  | .index _ base position, h => by
    obtain ⟨hh, hb, hp⟩ : _ ∧ _ ∧ _ := by simpa [Expr.visits] using h
    simp only [Expr.renumber, hh, Expr.renumber_congr hb, Expr.renumber_congr hp]
  | .array _ values, h => by
    obtain ⟨hh, hv⟩ := agreeOn_ofHead.1 h
    simp only [Expr.renumber, hh, Expr.renumberAll_congr hv]
  | .copies _ element _, h => by
    obtain ⟨hh, he⟩ := agreeOn_ofHead.1 h
    simp only [Expr.renumber, hh, Expr.renumber_congr he]
  | .struct _ path fields, h => by
    obtain ⟨hh, hp, hf⟩ : _ ∧ _ ∧ _ := by simpa [Expr.visits] using h
    simp only [Expr.renumber, StructPath.renumber, hh, hp, FieldInit.renumberAll_congr hf]

theorem Expr.renumberAll_congr : ∀ {es : List Expr},
    AgreeOn ρ τ (Expr.visitsAll es) → Expr.renumberAll ρ es = Expr.renumberAll τ es
  | [], _ => rfl
  | _ :: rest, h => by
    obtain ⟨he, hr⟩ := agreeOn_append.1 h
    simp only [Expr.renumberAll, Expr.renumber_congr he, Expr.renumberAll_congr hr]

theorem Stmt.renumber_congr :
    ∀ {st : Stmt}, AgreeOn ρ τ st.visits → st.renumber ρ = st.renumber τ
  | .bind _ pattern ascribed none, h => by
    obtain ⟨hh, hp, ha⟩ : _ ∧ _ ∧ _ := by simpa [Stmt.visits] using h
    simp only [Stmt.renumber, Pattern.renumber, hh, hp, TypeExpr.map_renumber_congr ha]
  | .bind _ pattern ascribed (some init), h => by
    obtain ⟨hh, hp, ha, hi⟩ : _ ∧ _ ∧ _ ∧ _ := by simpa [Stmt.visits] using h
    simp only [Stmt.renumber, Pattern.renumber, hh, hp, TypeExpr.map_renumber_congr ha,
      Expr.renumber_congr hi]
  | .expr e, h => congrArg Stmt.expr (Expr.renumber_congr h)

theorem Stmt.renumberAll_congr : ∀ {sts : List Stmt},
    AgreeOn ρ τ (Stmt.visitsAll sts) → Stmt.renumberAll ρ sts = Stmt.renumberAll τ sts
  | [], _ => rfl
  | _ :: rest, h => by
    obtain ⟨hs, hr⟩ := agreeOn_append.1 h
    simp only [Stmt.renumberAll, Stmt.renumber_congr hs, Stmt.renumberAll_congr hr]

theorem FieldInit.renumberAll_congr : ∀ {fs : List FieldInit},
    AgreeOn ρ τ (FieldInit.visitsAll fs) → FieldInit.renumberAll ρ fs = FieldInit.renumberAll τ fs
  | [], _ => rfl
  | .mk _ _ value :: rest, h => by
    obtain ⟨hh, hv, hr⟩ : _ ∧ _ ∧ _ := by simpa [FieldInit.visitsAll] using h
    simp only [FieldInit.renumberAll, hh, Expr.renumber_congr hv, FieldInit.renumberAll_congr hr]

end

/-- Pieces one after the other, each of which depends only on what is visited in it. -/
theorem map_renumber_congr {α : Type} {f g : α → α} {visits : α → List Visit}
    (h : ∀ {a}, AgreeOn ρ τ (visits a) → f a = g a) {l : List α}
    (hl : AgreeOn ρ τ (l.flatMap visits)) : l.map f = l.map g :=
  List.map_congr_left fun a ha => h fun i l hi => hl i l (List.mem_flatMap.2 ⟨a, ha, hi⟩)

theorem Param.renumber_congr {p : Param} (h : AgreeOn ρ τ p.visits) :
    p.renumber ρ = p.renumber τ := by
  obtain ⟨hh, hp, ht⟩ : _ ∧ _ ∧ _ := by simpa [visits] using h
  simp only [renumber, Pattern.renumber, hh, hp, TypeExpr.renumber_congr ht]

theorem FieldDecl.renumber_congr {f : FieldDecl} (h : AgreeOn ρ τ f.visits) :
    f.renumber ρ = f.renumber τ := by
  obtain ⟨hh, ht⟩ := agreeOn_ofHead.1 h
  simp only [renumber, hh, TypeExpr.renumber_congr ht]

theorem ItemKind.renumber_congr {k : ItemKind} (h : AgreeOn ρ τ k.visits) :
    k.renumber ρ = k.renumber τ := by
  cases k with
  | function d =>
    obtain ⟨hp, hr, hb⟩ : _ ∧ _ ∧ _ := by simpa [visits] using h
    simp only [renumber, FunctionDecl.renumber, map_renumber_congr Param.renumber_congr hp,
      TypeExpr.map_renumber_congr hr, Expr.renumber_congr hb]
  | struct d =>
    simp only [renumber, StructDecl.renumber, map_renumber_congr FieldDecl.renumber_congr h]
  | constant d | static d =>
    obtain ⟨ht, hv⟩ := agreeOn_append.1 h
    simp only [renumber, ConstantDecl.renumber, StaticDecl.renumber, TypeExpr.renumber_congr ht,
      Expr.renumber_congr hv]

theorem Item.renumber_congr {i : Item} (h : AgreeOn ρ τ i.visits) :
    i.renumber ρ = i.renumber τ := by
  obtain ⟨hh, hk⟩ := agreeOn_ofHead.1 h
  simp only [renumber, hh, ItemKind.renumber_congr hk]

end

/-! ## The renumbering that changes nothing -/

/-- All nodes keep their numbers. -/
def Renumbering.refl : Renumbering := ⟨id, id⟩

theorem Head.renumber_refl (h : Head) : h.renumber .refl = h := rfl

theorem TypeExpr.renumber_refl : ∀ a : TypeExpr, a.renumber .refl = a
  | .path _ _ | .unit _ => rfl
  | .array _ element _ => by rw [renumber, element.renumber_refl, Head.renumber_refl]

theorem TypeExpr.map_renumber_refl (a : Option TypeExpr) : a.map (renumber .refl) = a := by
  cases a with
  | none => rfl
  | some a => exact congrArg some a.renumber_refl

mutual

theorem Expr.renumber_refl : ∀ e : Expr, e.renumber .refl = e
  | .literal _ _ | .identifier _ _ | .ret _ none => rfl
  | .ret _ (some value) => by rw [Expr.renumber, value.renumber_refl, Head.renumber_refl]
  | .call _ callee args => by
    rw [Expr.renumber, callee.renumber_refl, Expr.renumberAll_refl args, Head.renumber_refl]
  | .assign _ target value => by
    rw [Expr.renumber, target.renumber_refl, value.renumber_refl, Head.renumber_refl]
  | .binary _ _ lhs rhs => by
    rw [Expr.renumber, lhs.renumber_refl, rhs.renumber_refl, Head.renumber_refl]
  | .ifOnly _ condition body => by
    rw [Expr.renumber, condition.renumber_refl, body.renumber_refl, Head.renumber_refl]
  | .ifElse _ condition thenBody elseBody => by
    rw [Expr.renumber, condition.renumber_refl, thenBody.renumber_refl, elseBody.renumber_refl,
      Head.renumber_refl]
  | .ifElseIf _ condition thenBody elseIf => by
    rw [Expr.renumber, condition.renumber_refl, thenBody.renumber_refl, elseIf.renumber_refl,
      Head.renumber_refl]
  | .block _ stmts none => by rw [Expr.renumber, Stmt.renumberAll_refl stmts, Head.renumber_refl]
  | .block _ stmts (some tail) => by
    rw [Expr.renumber, Stmt.renumberAll_refl stmts, tail.renumber_refl, Head.renumber_refl]
  | .index _ base position => by
    rw [Expr.renumber, base.renumber_refl, position.renumber_refl, Head.renumber_refl]
  | .array _ values => by rw [Expr.renumber, Expr.renumberAll_refl values, Head.renumber_refl]
  | .copies _ element _ => by rw [Expr.renumber, element.renumber_refl, Head.renumber_refl]
  | .struct _ _ fields => by
    rw [Expr.renumber, FieldInit.renumberAll_refl fields, Head.renumber_refl]
    rfl

theorem Expr.renumberAll_refl : ∀ es : List Expr, Expr.renumberAll .refl es = es
  | [] => rfl
  | e :: rest => by rw [Expr.renumberAll, e.renumber_refl, Expr.renumberAll_refl rest]

theorem Stmt.renumber_refl : ∀ st : Stmt, st.renumber .refl = st
  | .bind _ _ ascribed none => by
    rw [Stmt.renumber, TypeExpr.map_renumber_refl, Head.renumber_refl]
    rfl
  | .bind _ _ ascribed (some init) => by
    rw [Stmt.renumber, TypeExpr.map_renumber_refl, init.renumber_refl, Head.renumber_refl]
    rfl
  | .expr e => by rw [Stmt.renumber, e.renumber_refl]

theorem Stmt.renumberAll_refl : ∀ sts : List Stmt, Stmt.renumberAll .refl sts = sts
  | [] => rfl
  | st :: rest => by rw [Stmt.renumberAll, st.renumber_refl, Stmt.renumberAll_refl rest]

theorem FieldInit.renumberAll_refl : ∀ fs : List FieldInit, FieldInit.renumberAll .refl fs = fs
  | [] => rfl
  | .mk _ _ value :: rest => by
    rw [FieldInit.renumberAll, value.renumber_refl, FieldInit.renumberAll_refl rest,
      Head.renumber_refl]

end

theorem Item.renumber_refl (i : Item) : i.renumber .refl = i := by
  have hparam : Param.renumber .refl = id := funext fun p => by
    rw [Param.renumber, p.type.renumber_refl]
    rfl
  have hfield : FieldDecl.renumber .refl = id := funext fun f => by
    rw [FieldDecl.renumber, f.type.renumber_refl]
    rfl
  obtain ⟨h, k⟩ := i
  rw [Item.renumber, Head.renumber_refl]
  cases k with
  | function d =>
    rw [ItemKind.renumber, FunctionDecl.renumber, hparam, List.map_id, TypeExpr.map_renumber_refl,
      d.body.renumber_refl]
  | struct d => rw [ItemKind.renumber, StructDecl.renumber, hfield, List.map_id]
  | constant d =>
    rw [ItemKind.renumber, ConstantDecl.renumber, d.type.renumber_refl, d.value.renumber_refl]
  | static d =>
    rw [ItemKind.renumber, StaticDecl.renumber, d.type.renumber_refl, d.value.renumber_refl]

/-! ## Units -/

namespace Program

variable {ρ τ} {p : Program}

theorem mem_surfaces_of_visits {i : Identity} {l : Location} (h : .node i l ∈ p.visits) :
    i.surface ∈ p.surfaces :=
  List.mem_map.2 ⟨(i, l), List.mem_filterMap.2 ⟨_, h, rfl⟩, rfl⟩

/-- What a program becomes depends on the new numbers of its nodes only. -/
theorem renumber_congr (hs : ∀ n ∈ p.surfaces, ρ.surface n = τ.surface n)
    (hi : ∀ id ∈ p.ids, ρ.ir id = τ.ir id) : p.renumber ρ = p.renumber τ := by
  have hvisits : AgreeOn ρ τ (p.items.flatMap Item.visits) := by
    intro i l hm
    unfold Identity.renumber
    rw [hs _ (mem_surfaces_of_visits hm), hi _ (List.mem_filterMap.2 ⟨_, hm, rfl⟩)]
  unfold renumber
  rw [map_renumber_congr Item.renumber_congr hvisits]

end Program

namespace CompilationUnit

/-- The surface identities that the bindings and definitions of a unit mention. -/
def mentioned (u : CompilationUnit) : List SurfaceId :=
  (u.names ++ u.types).flatMap (fun b => [b.use, b.decl]) ++
    u.definitions.flatMap fun d => [d.node, d.parent]

/-- All that bindings and definitions mention is in the program. -/
def Grounded (u : CompilationUnit) : Prop := ∀ n ∈ u.mentioned, n ∈ u.program.surfaces

instance (u : CompilationUnit) : Decidable u.Grounded := inferInstanceAs (Decidable (∀ n ∈ _, _))

variable {ρ τ} {u : CompilationUnit}

/-- What a grounded unit becomes depends on the new numbers of its nodes only. -/
theorem renumber_congr (hu : u.Grounded)
    (hs : ∀ n ∈ u.program.surfaces, ρ.surface n = τ.surface n)
    (hi : ∀ id ∈ u.program.ids, ρ.ir id = τ.ir id) : u.renumber ρ = u.renumber τ := by
  have hbinding : ∀ b ∈ u.names ++ u.types, b.renumber ρ = b.renumber τ := by
    intro b hb
    have hm : ∀ n ∈ [b.use, b.decl], n ∈ u.mentioned := fun n hn =>
      List.mem_append_left _ (List.mem_flatMap.2 ⟨b, hb, hn⟩)
    unfold Binding.renumber
    rw [hs _ (hu _ (hm b.use (by simp))), hs _ (hu _ (hm b.decl (by simp)))]
  have hdefinition : ∀ d ∈ u.definitions, d.renumber ρ = d.renumber τ := by
    intro d hd
    have hm : ∀ n ∈ [d.node, d.parent], n ∈ u.mentioned := fun n hn =>
      List.mem_append_right _ (List.mem_flatMap.2 ⟨d, hd, hn⟩)
    unfold Definition.renumber
    rw [hs _ (hu _ (hm d.node (by simp))), hs _ (hu _ (hm d.parent (by simp)))]
  unfold renumber
  rw [Program.renumber_congr hs hi,
    List.map_congr_left fun b hb => hbinding b (List.mem_append_left _ hb),
    List.map_congr_left fun b hb => hbinding b (List.mem_append_right _ hb),
    List.map_congr_left hdefinition]

end CompilationUnit

end MiddleEnd
