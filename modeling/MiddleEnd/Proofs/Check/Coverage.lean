/-
  Which nodes have a type after a clean check. `Fills s ids parts t u`: between tables `t` and `u`
  the nodes `ids` get a type, no node loses its type, and no other node gets one, but for nodes
  that `Strays` names.

  Every node of the walk gets a type, except within callees and for the paths of struct literals
  (`Session.typed_nodes`). No other node of the program does, as long as only names stand for
  declarations: an assignment settles the declaration that its target is bound to, whatever the
  target is, so a place such as `y[0]` that is bound to a declaration lets any node have a type.
-/
import MiddleEnd.Proofs.Check.Evolution
import MiddleEnd.Proofs.Syntax.Samples
import MiddleEnd.Proofs.Tables.Fresh

namespace MiddleEnd

/-! ## Nodes with types -/

namespace Part

/-- The identities of a part that no type is recorded for. -/
def untyped : Part → List IrId
  | .callee e => e.ids
  | .path q => [q.id.ir]
  | _ => []

/-- The identities of a part that a type is recorded for. -/
def typed : Part → List IrId
  | .callee _ | .path _ => []
  | p => p.irs

def typedAll (ps : List Part) : List IrId := ps.flatMap typed

@[simp] theorem typedAll_nil : typedAll [] = [] := rfl

@[simp] theorem typedAll_cons (p : Part) (ps : List Part) :
    typedAll (p :: ps) = p.typed ++ typedAll ps :=
  List.flatMap_cons ..

@[simp] theorem typedAll_append (ps qs : List Part) :
    typedAll (ps ++ qs) = typedAll ps ++ typedAll qs :=
  List.flatMap_append ..

/-- What the part assigns, if that is no name. -/
def place? : Part → Option Expr
  | .expr (.assign _ (.identifier _ _) _) => none
  | .expr (.assign _ target _) => some target
  | _ => none

theorem irs_eq (p : Part) : p.irs = p.typed ++ p.untyped := by
  cases p <;> rfl

theorem place?_assign {h : Head} {target value : Expr} (ht : ∀ g name, target ≠ .identifier g name) :
    place? (.expr (.assign h target value)) = some target := by
  cases target with
  | identifier g name => exact absurd rfl (ht g name)
  | _ => rfl

end Part

namespace Program

variable {p : Program} {id : IrId}

/-- The nodes of the walk that no type is recorded for. -/
def untyped (p : Program) : List IrId := p.parts.flatMap Part.untyped

/-- What the assignments of the program assign that is no name. -/
def places (p : Program) : List Expr := p.parts.filterMap Part.place?

theorem mem_typed_iff (hn : p.ids.Nodup) :
    id ∈ p.firm ++ Part.typedAll p.parts ↔ id ∈ p.ids ∧ id ∉ p.untyped := by
  have hother : ∀ {a b : Part}, id ∈ a.typed → id ∈ b.untyped → a ≠ b := by
    rintro a b ha hb rfl
    cases a <;> first | exact absurd ha List.not_mem_nil | exact absurd hb List.not_mem_nil
  have hirs : ∀ {a : Part}, id ∈ a.irs ↔ id ∈ a.typed ∨ id ∈ a.untyped := fun {a} => by
    rw [a.irs_eq, List.mem_append]
  rw [p.ids_perm.mem_iff, List.mem_append, List.mem_append]
  unfold untyped Part.typedAll Part.irsAll
  rw [List.mem_flatMap, List.mem_flatMap, List.mem_flatMap]
  constructor
  · rintro (hf | ⟨a, ha, hid⟩)
    · refine ⟨.inl hf, ?_⟩
      rintro ⟨b, hb, hid⟩
      exact p.not_mem_firm hn hb (hirs.2 (.inr hid)) hf
    · refine ⟨.inr ⟨a, ha, hirs.2 (.inl hid)⟩, ?_⟩
      rintro ⟨b, hb, hid'⟩
      exact p.not_mem_irs hn ha hb (hother hid hid') (hirs.2 (.inl hid)) (hirs.2 (.inr hid'))
  · rintro ⟨hf | ⟨a, ha, hid⟩, hu⟩
    · exact .inl hf
    · rcases hirs.1 hid with hid | hid
      · exact .inr ⟨a, ha, hid⟩
      · exact absurd ⟨a, ha, hid⟩ hu

end Program

/-! ## Tables -/

namespace TypeTable

/-- The node has a type. -/
def Has (t : TypeTable) (id : IrId) : Prop := (t.get? id).isSome = true

theorem has_record {t : TypeTable} {id other : IrId} {ty : Ty} :
    (t.record id ty).Has other ↔ other = id ∨ t.Has other := by
  unfold Has
  rw [get?_record]
  split <;> simp_all

/-- Only primitive types and unit have a type. -/
def OnlyBuiltins (t : TypeTable) : Prop := ∀ id, t.Has id ↔ id ∈ t.builtinRefs

theorem OnlyBuiltins.addBuiltin {t : TypeTable} (h : t.OnlyBuiltins) (node : SurfaceId)
    (name : String) (ty : Ty) : (t.addBuiltin node name ty).OnlyBuiltins := by
  intro id
  have hhas : (t.addBuiltin node name ty).Has id ↔ id = ty.ref ∨ t.Has id := by
    unfold Has
    rw [get?_addBuiltin]
    split <;> simp_all
  rw [builtinRefs_addBuiltin, hhas, List.mem_append, List.mem_singleton, h id, or_comm]

theorem OnlyBuiltins.addBuiltins (bs : List Builtin) :
    ∀ {t : TypeTable}, t.OnlyBuiltins → ∀ r : Registry, (addBuiltins t r bs).1.OnlyBuiltins := by
  induction bs with
  | nil => exact fun h _ => h
  | cons b bs ih => exact fun h r => ih (h.addBuiltin _ _ _) _

theorem onlyBuiltins_empty : empty.OnlyBuiltins := fun _ =>
  ⟨fun h => absurd h Bool.false_ne_true, fun h => absurd h List.not_mem_nil⟩

theorem onlyBuiltins_withBuiltins (bs : List Builtin) (r : Registry) :
    (withBuiltins bs r).1.OnlyBuiltins :=
  (onlyBuiltins_empty.addBuiltins bs r).addBuiltin _ Ty.unitName _

end TypeTable

namespace Check

variable {s : Scope}

/-- An assignment among the parts has a target that is no name and is bound to the node. -/
def Strays (s : Scope) (parts : List Part) (id : IrId) : Prop :=
  ∃ e ∈ parts.filterMap Part.place?, declaration s e = .ok id

/-- The nodes get a type and no other node does, but for strays. -/
structure Fills (s : Scope) (ids : List IrId) (parts : List Part) (t u : TypeTable) : Prop where
  all : ∀ id ∈ ids, u.Has id
  keeps : ∀ id, t.Has id → u.Has id
  only : ∀ id, u.Has id → t.Has id ∨ id ∈ ids ∨ Strays s parts id

namespace Fills

variable {ids ids' : List IrId} {parts parts' : List Part} {t u v : TypeTable}

theorem refl (t : TypeTable) : Fills s [] [] t t where
  all _ hid := absurd hid List.not_mem_nil
  keeps _ hid := hid
  only _ hid := .inl hid

theorem rearrange (h : Fills s ids parts t u) (hids : ∀ id, id ∈ ids' ↔ id ∈ ids)
    (hparts : ∀ p ∈ parts, p ∈ parts') : Fills s ids' parts' t u where
  all id hid := h.all id ((hids id).1 hid)
  keeps := h.keeps
  only id hid := by
    rcases h.only id hid with ht | hin | ⟨e, he, hd⟩
    · exact .inl ht
    · exact .inr (.inl ((hids id).2 hin))
    · obtain ⟨p, hp, hpe⟩ := List.mem_filterMap.1 he
      exact .inr (.inr ⟨e, List.mem_filterMap.2 ⟨p, hparts p hp, hpe⟩, hd⟩)

theorem widen (h : Fills s ids parts t u) (hparts : ∀ p ∈ parts, p ∈ parts') :
    Fills s ids parts' t u :=
  h.rearrange (fun _ => Iff.rfl) hparts

theorem trans (h : Fills s ids parts t u) (k : Fills s ids' parts' u v) :
    Fills s (ids ++ ids') (parts ++ parts') t v where
  all id hid := by
    rcases List.mem_append.1 hid with hid | hid
    · exact k.keeps id (h.all id hid)
    · exact k.all id hid
  keeps id hid := k.keeps id (h.keeps id hid)
  only id hid := by
    have hleft : Fills s ids (parts ++ parts') t u :=
      h.widen fun p hp => List.mem_append_left _ hp
    have hright : Fills s ids' (parts ++ parts') u v :=
      k.widen fun p hp => List.mem_append_right _ hp
    rcases hright.only id hid with hu | hin | hs
    · rcases hleft.only id hu with ht | hin | hs
      · exact .inl ht
      · exact .inr (.inl (List.mem_append_left _ hin))
      · exact .inr (.inr hs)
    · exact .inr (.inl (List.mem_append_right _ hin))
    · exact .inr (.inr hs)

/-- Recording a type for one more node. -/
theorem record (h : Fills s ids parts t u) (id : IrId) (ty : Ty) :
    Fills s (id :: ids) parts t (u.record id ty) where
  all other ho := by
    rw [TypeTable.has_record]
    exact (List.mem_cons.1 ho).imp_right (h.all other)
  keeps other ho := TypeTable.has_record.2 (.inr (h.keeps other ho))
  only other ho := by
    rcases TypeTable.has_record.1 ho with rfl | ho
    · exact .inr (.inl (List.mem_cons_self ..))
    · rcases h.only other ho with ht | hin | hs
      · exact .inl ht
      · exact .inr (.inl (List.mem_cons_of_mem _ hin))
      · exact .inr (.inr hs)

/-- Recording a type for a node once more, or for a stray. -/
theorem again (h : Fills s ids parts t u) {id : IrId} (hid : u.Has id ∨ Strays s parts id)
    (ty : Ty) : Fills s ids parts t (u.record id ty) where
  all other ho := TypeTable.has_record.2 (.inr (h.all other ho))
  keeps other ho := TypeTable.has_record.2 (.inr (h.keeps other ho))
  only other ho := by
    rcases TypeTable.has_record.1 ho with rfl | ho
    · rcases hid with hu | hs
      · exact h.only other hu
      · exact .inr (.inr hs)
    · exact h.only other ho

theorem settled (h : Fills s ids parts t u) {target : Expr}
    (hd : ∀ id, declaration s target = .ok id → u.Has id ∨ Strays s parts id) (before after : Ty) :
    Fills s ids parts t (settled s u target before after) := by
  unfold Check.settled
  split
  · split
    · rename_i id hid
      exact h.again (hd id hid) after
    · exact h
  · exact h

/-- Recording the type of an expression, after what happens at its parts. -/
theorem node (h : Fills s (Part.typedAll parts) parts t u) (e : Expr) (ty : Ty) :
    Fills s (Part.typedAll (.expr e :: parts)) (.expr e :: parts) t (u.record e.ir ty) :=
  (h.widen fun _ hp => List.mem_cons_of_mem _ hp).record e.ir ty

/-- A part without types. -/
theorem skip (h : Fills s (Part.typedAll parts) parts t u) {p : Part} (hp : p.typed = []) :
    Fills s (Part.typedAll (p :: parts)) (p :: parts) t u := by
  rw [Part.typedAll_cons, hp, List.nil_append]
  exact h.widen fun _ hq => List.mem_cons_of_mem _ hq

theorem both (h : Fills s (Part.typedAll parts) parts t u)
    (k : Fills s (Part.typedAll parts') parts' u v) :
    Fills s (Part.typedAll (parts ++ parts')) (parts ++ parts') t v := by
  rw [Part.typedAll_append]
  exact h.trans k

/-- Parts in another order than that in which they are looked at. -/
theorem swapped (h : Fills s (Part.typedAll parts) parts t u)
    (k : Fills s (Part.typedAll parts') parts' u v) :
    Fills s (Part.typedAll (parts' ++ parts)) (parts' ++ parts) t v := by
  have hids : ∀ id, id ∈ Part.typedAll (parts' ++ parts) ↔ id ∈ Part.typedAll (parts ++ parts') :=
    fun id => by
      rw [Part.typedAll_append, Part.typedAll_append, List.mem_append, List.mem_append, or_comm]
  refine (h.both k).rearrange hids fun p hp => ?_
  rw [List.mem_append] at hp ⊢
  exact hp.symm

/-- The type of a variable is recorded for its `let` and for its pattern. -/
theorem bind (h : Fills s (Part.typedAll parts) parts t u) (g : Head) (q : Pattern) (ty : Ty) :
    Fills s (Part.typedAll (.bind g q :: parts)) (.bind g q :: parts) t
      ((u.record q.id.ir ty).record g.id.ir ty) :=
  ((h.widen fun _ hp => List.mem_cons_of_mem _ hp).record q.id.ir ty).record g.id.ir ty

end Fills

/-! ## Bodies -/

theorem Annotates.fills {t u : TypeTable} {a : TypeExpr} {ty : Ty} (h : Annotates s t a ty u) :
    Fills s (Part.typedAll a.parts) a.parts t u := by
  induction h with
  | unit h => exact ((Fills.refl _).widen fun _ hp => absurd hp List.not_mem_nil).record h.id.ir _
  | array h capacity _ ih =>
    exact (ih.widen fun _ hp => List.mem_cons_of_mem _ hp).record h.id.ir _
  | path h name _ =>
    exact ((Fills.refl _).widen fun _ hp => absurd hp List.not_mem_nil).record h.id.ir _

theorem Annotates?.fills {t u : TypeTable} {a : Option TypeExpr} {ty : Option Ty}
    (h : Annotates? s t a ty u) :
    Fills s (Part.typedAll (TypeExpr.partsOf a)) (TypeExpr.partsOf a) t u := by
  cases h with
  | none => exact .refl t
  | some h => exact h.fills

/-- A derivation finds a type for every typed node of its parts. -/
theorem Derives.fills {t u : TypeTable} {j : Judgement} (h : Derives s t j u) :
    Fills s (Part.typedAll j.parts) j.parts t u := by
  induction h with
  | literal h lit final _ => exact (Fills.refl _).node (.literal h lit) _
  | identifier h name final _ _ _ => exact (Fills.refl _).node (.identifier h name) _
  | retUnit h final _ _ => exact (Fills.refl _).node (.ret h none) _
  | ret h value final _ _ _ ih => exact ih.node (.ret h (some value)) _
  | call h callee args final _ _ _ _ _ ih =>
    exact (ih.skip (p := .callee callee) rfl).node (.call h callee args) _
  | callError h callee args final _ _ _ _ ih =>
    exact (ih.skip (p := .callee callee) rfl).node (.call h callee args) _
  | @assignName t u id tt vt ty h g name value final hd hget _ _ ih =>
    have hnone : Fills s (Part.typedAll []) [] t t := .refl t
    have hall := (hnone.node (.identifier g name) tt).both ih
    have hg : u.Has g.id.ir := hall.all g.id.ir (List.mem_cons_self ..)
    -- the declaration had a type before the value was looked at
    have hid : u.Has id := hall.keeps id (by unfold TypeTable.Has; rw [hget]; rfl)
    refine ((hall.again (.inl hg) ty).settled ?_ tt ty).node (.assign h (.identifier g name) value) ty
    intro other ho
    cases hd.symm.trans ho
    exact .inl (TypeTable.has_record.2 (.inr hid))
  | @assign t u v tt vt ty h target value final hn _ _ _ iht ihv =>
    have hall : Fills s (Part.typedAll (target.parts ++ value.parts))
        (.expr (.assign h target value) :: (target.parts ++ value.parts)) t v :=
      (iht.both ihv).widen fun _ hp => List.mem_cons_of_mem _ hp
    have htarget : v.Has target.ir := hall.all target.ir (List.mem_flatMap.2
      ⟨.expr target, List.mem_append_left _ target.self_mem_parts, List.mem_singleton_self _⟩)
    refine ((hall.again (.inl htarget) ty).settled ?_ tt ty).record h.id.ir ty
    intro other ho
    exact .inr ⟨target, List.mem_filterMap.2
      ⟨_, List.mem_cons_self .., Part.place?_assign hn⟩, ho⟩
  | binary h op lhs rhs final _ _ _ ihl ihr => exact (ihl.both ihr).node (.binary h op lhs rhs) _
  | ifOnly h condition body final _ _ ihc ihb =>
    exact (ihc.both ihb).node (.ifOnly h condition body) _
  | ifElse h condition thenBody elseBody _ _ _ ihc iht ihe =>
    exact (ihc.both (iht.both ihe)).node (.ifElse h condition thenBody elseBody) _
  | ifElseFinal h condition thenBody elseBody _ _ _ _ _ _ ihc iht ihe =>
    exact (ihc.both (iht.both ihe)).node (.ifElse h condition thenBody elseBody) _
  | ifElseIf h condition thenBody elseIf final _ _ _ ihc iht ihe =>
    exact (ihc.both (iht.both ihe)).node (.ifElseIf h condition thenBody elseIf) _
  | blockUnit h body final _ ih => exact ih.node (.block h body none) _
  | block h body tail final _ _ ihb iht =>
    exact (ihb.both iht).node (.block h body (some tail)) _
  | index h base position final _ _ _ ihp ihb =>
    exact (ihp.swapped ihb).node (.index h base position) _
  | indexError h base position final _ _ _ ihp ihb =>
    exact (ihp.swapped ihb).node (.index h base position) _
  | array h first rest final _ _ _ ihf ihr =>
    exact (ihf.both ihr).node (.array h (first :: rest)) _
  | copies h element count final _ ih => exact ih.node (.copies h element count) _
  | struct h path fields final _ _ _ _ _ ih =>
    exact (ih.skip (p := .path path) rfl).node (.struct h path fields) _
  | exprsNil | argumentsNil | fieldsNil | stmtsNil => exact .refl _
  | exprsCons e es _ _ ihe ihr => exact ihe.both ihr
  | argumentsCons name param params e es _ _ _ ihe ihr => exact ihe.both ihr
  | fieldsCons decls h name value rest _ _ _ _ ihv ihr =>
    have hall := (ihv.record h.id.ir _).trans ihr
    rw [List.cons_append, ← Part.typedAll_append] at hall
    exact hall.widen fun _ hp => List.mem_cons_of_mem _ hp
  | effect e _ ih => exact ih
  | declare h pattern ascribed ha => exact ha.fills.bind h pattern _
  | bind h pattern ascribed init ha _ _ ih => exact (ha.fills.both ih).bind h pattern _
  | stmtsCons st rest _ _ ihs ihr => exact ihs.both ihr

/-! ## Items -/

/-- The identities of parameters and of the names they introduce. -/
def paramIds (ps : List Param) : List IrId :=
  ps.flatMap fun p => [p.head.id.ir, p.pattern.id.ir]

def paramParts (ps : List Param) : List Part := ps.flatMap fun p => p.type.parts

def fieldIds (fs : List FieldDecl) : List IrId := fs.map fun f => f.head.id.ir

def fieldParts (fs : List FieldDecl) : List Part := fs.flatMap fun f => f.type.parts

theorem HasParams.fills {t u : TypeTable} {ps : List Param} {ms : Members}
    (h : HasParams s t ps ms u) :
    Fills s (paramIds ps ++ Part.typedAll (paramParts ps)) (paramParts ps) t u := by
  induction h with
  | nil t => exact .refl t
  | @cons t u v p rest ty ms ha _ ih =>
    have hhead := (ha.fills.record p.head.id.ir ty).record p.pattern.id.ir ty
    refine (hhead.trans ih).rearrange ?_ fun _ hp => hp
    intro id
    simp only [paramIds, paramParts, List.flatMap_cons, Part.typedAll_append, List.mem_append,
      List.mem_cons, List.not_mem_nil, or_false]
    tauto

theorem HasFields.fills {t u : TypeTable} {fs : List FieldDecl} {ms : Members}
    (h : HasFields s t fs ms u) :
    Fills s (fieldIds fs ++ Part.typedAll (fieldParts fs)) (fieldParts fs) t u := by
  induction h with
  | nil t => exact .refl t
  | @cons t u v f rest ty ms ha _ ih =>
    have hhead := ha.fills.record f.head.id.ir (.field f.head.id.ir f.name ty)
    refine (hhead.trans ih).rearrange ?_ fun _ hp => hp
    intro id
    simp only [fieldIds, fieldParts, List.map_cons, List.flatMap_cons, Part.typedAll_append,
      List.mem_append, List.mem_cons]
    tauto

/-- What the item declares and what its signature is made of gets a type. -/
theorem Signs.fills {t u : TypeTable} {i : Item} (h : Signs s t i u) :
    Fills s (i.firm ++ Part.typedAll i.signatureParts) i.signatureParts t u := by
  obtain ⟨ty, v, h, rfl⟩ := h
  cases h with
  | function h d hp ha =>
    refine ((hp.fills.trans ha.fills).record h.id.ir _).rearrange ?_ fun _ hp => hp
    intro id
    simp only [Item.firm, Item.signatureParts, paramIds, paramParts, Part.typedAll_append,
      List.mem_append, List.mem_cons]
    tauto
  | struct h d hf => exact hf.fills.record h.id.ir _
  | constant h d ha => exact ha.fills.record h.id.ir _
  | static h d ha => exact ha.fills.record h.id.ir _

theorem Fits.fills {t u : TypeTable} {i : Item} (h : Fits s t i u) :
    Fills s (Part.typedAll i.bodyParts) i.bodyParts t u := by
  cases h with
  | function h d _ hb _ =>
    -- entering and leaving the function changes no entry
    exact ⟨hb.fills.all, hb.fills.keeps, hb.fills.only⟩
  | struct h d => exact .refl t
  | constant h d _ hv _ => exact hv.fills
  | static h d _ hv _ => exact hv.fills

theorem fills_of_chain {α : Type} {R : TypeTable → α → TypeTable → Prop} {ids : α → List IrId}
    {parts : α → List Part} (hR : ∀ {t a u}, R t a u → Fills s (ids a) (parts a) t u)
    {t u : TypeTable} {l : List α} (h : Chain R t l u) :
    Fills s (l.flatMap ids) (l.flatMap parts) t u := by
  induction h with
  | nil t => exact .refl t
  | cons ha _ ih =>
    rw [List.flatMap_cons, List.flatMap_cons]
    exact (hR ha).trans ih

/-- A pass over a program finds a type for what items declare and for every typed node of their
parts. -/
theorem Passes.fills {p : Program} {t u : TypeTable} (h : Passes s p t u) :
    Fills s (p.firm ++ Part.typedAll p.parts) p.parts t u := by
  obtain ⟨v, hs, hb⟩ := h
  have hall := (fills_of_chain (fun h => Signs.fills h) hs).trans
    (fills_of_chain (fun h => Fits.fills h) hb)
  refine hall.rearrange ?_ ?_
  · intro id
    simp only [Program.firm, Program.parts, Item.parts, Part.typedAll, List.mem_append,
      List.mem_flatMap, mem_signatureOrder]
    constructor
    · rintro (⟨i, hi, hid⟩ | ⟨a, ⟨i, hi, ha | ha⟩, hid⟩)
      · exact .inl ⟨i, hi, .inl hid⟩
      · exact .inl ⟨i, hi, .inr ⟨a, ha, hid⟩⟩
      · exact .inr ⟨i, hi, a, ha, hid⟩
    · rintro (⟨i, hi, hid | ⟨a, ha, hid⟩⟩ | ⟨i, hi, a, ha, hid⟩)
      · exact .inl ⟨i, hi, hid⟩
      · exact .inr ⟨a, ⟨i, hi, .inl ha⟩, hid⟩
      · exact .inr ⟨a, ⟨i, hi, .inr ha⟩, hid⟩
  · intro a ha
    rcases List.mem_append.1 ha with ha | ha
    · obtain ⟨i, hi, ha⟩ := List.mem_flatMap.1 ha
      exact List.mem_flatMap.2 ⟨i, mem_signatureOrder.1 hi, List.mem_append_left _ ha⟩
    · obtain ⟨i, hi, ha⟩ := List.mem_flatMap.1 ha
      exact List.mem_flatMap.2 ⟨i, hi, List.mem_append_right _ ha⟩

end Check

/-! ## Sessions -/

namespace Session

variable {u : CompilationUnit}

/-- The nodes that have types after a check: the primitive types and unit, and every node of the
walk but for callees and paths of struct literals. -/
def IsTyped (u : CompilationUnit) (id : IrId) : Prop :=
  id ∈ (ofUnit u).types.builtinRefs ∨ id ∈ u.program.ids ∧ id ∉ u.program.untyped

/-- After a clean first check all nodes have types that should; every other node with a type is the
declaration that a place is bound to. -/
theorem typed_nodes (u : CompilationUnit) (hn : u.program.ids.Nodup)
    (hclean : (ofUnit u).Clean) :
    (∀ id, IsTyped u id → (ofUnit u).check.2.types.Has id) ∧
      ∀ id, (ofUnit u).check.2.types.Has id →
        IsTyped u id ∨ ∃ e ∈ u.program.places, Check.declaration (ofUnit u).scope e = .ok id := by
  have hfills := (hclean.passes rfl).fills
  have hbuiltin : (ofUnit u).types.OnlyBuiltins := TypeTable.onlyBuiltins_withBuiltins _ _
  constructor
  · rintro id (hid | hid)
    · exact hfills.keeps id ((hbuiltin id).2 hid)
    · exact hfills.all id ((Program.mem_typed_iff hn).2 hid)
  · intro id hid
    rcases hfills.only id hid with hold | hin | hstray
    · exact .inl (.inl ((hbuiltin id).1 hold))
    · exact .inl (.inr ((Program.mem_typed_iff hn).1 hin))
    · exact .inr hstray

open Samples in
/-- The callee in the last statement of `straying` has a type, since the place `y[0]` is bound to
it. -/
theorem typed_nodes_straying : straying.program.ids.Nodup ∧ (ofUnit straying).Clean ∧
    ¬ IsTyped straying ⟨15⟩ ∧ (ofUnit straying).check.2.types.Has ⟨15⟩ ∧
    ∃ e ∈ straying.program.places, Check.declaration (ofUnit straying).scope e = .ok ⟨15⟩ := by
  have hn : straying.program.ids.Nodup := by decide +kernel
  have hclean : (ofUnit straying).Clean := by decide +kernel
  have hun : ¬ IsTyped straying ⟨15⟩ := by
    have hbuiltin : (⟨15⟩ : IrId) ∉ (ofUnit straying).types.builtinRefs := by decide +kernel
    have huntyped : (⟨15⟩ : IrId) ∈ straying.program.untyped := by decide +kernel
    rintro (h | ⟨_, h⟩)
    · exact hbuiltin h
    · exact h huntyped
  have hhas : (ofUnit straying).check.2.types.Has ⟨15⟩ := by
    unfold TypeTable.Has
    decide +kernel
  exact ⟨hn, hclean, hun, hhas, ((typed_nodes straying hn hclean).2 _ hhas).resolve_left hun⟩

end Session

end MiddleEnd
