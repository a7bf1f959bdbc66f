/-
  Units that are regular (`Session.Regular`): function bodies are blocks in which every name is in
  scope, the fields of a struct have different names, constants and statics start as literals, and
  all literals can be read. What names and type names stand for in such a unit has a type of values
  (`Regular.valued`): function items and field declarations have none (`Program.unvalued`).
-/
import MiddleEnd.Proofs.Check.Outcome
import MiddleEnd.Proofs.Lower.Progress
import MiddleEnd.Proofs.Tables.Primitives

namespace MiddleEnd

/-! ## Nodes without values -/

namespace Item

/-- What the item declares that has no value: a function, and the fields of a struct. -/
def unvalued (i : Item) : List IrId :=
  match i.kind with
  | .function _ => [i.head.id.ir]
  | .struct d => d.fields.map fun f => f.head.id.ir
  | _ => []

/-- What else the item declares. -/
def valued (i : Item) : List IrId :=
  match i.kind with
  | .function d => d.params.flatMap fun p => [p.head.id.ir, p.pattern.id.ir]
  | _ => [i.head.id.ir]

theorem firm_perm (i : Item) : i.firm.Perm (i.unvalued ++ i.valued) := by
  obtain ⟨h, k⟩ := i
  cases k with
  | function d => exact .refl _
  | struct d =>
    show List.Perm ([h.id.ir] ++ d.fields.map fun f => f.head.id.ir) _
    exact List.perm_append_comm
  | constant d => exact .refl _
  | static d => exact .refl _

end Item

namespace Program

variable {p : Program} {id : IrId}

def unvalued (p : Program) : List IrId := p.items.flatMap Item.unvalued

def valued (p : Program) : List IrId := p.items.flatMap Item.valued

theorem firm_perm (p : Program) : p.firm.Perm (p.unvalued ++ p.valued) := by
  refine List.Perm.trans ?_ (List.flatMap_append_perm p.items Item.unvalued _).symm
  exact List.Perm.flatMap_left _ fun i _ => i.firm_perm

theorem mem_firm_of_unvalued (h : id ∈ p.unvalued) : id ∈ p.firm :=
  p.firm_perm.mem_iff.2 (List.mem_append_left _ h)

theorem not_mem_unvalued (hn : p.ids.Nodup) (h : id ∈ p.valued) : id ∉ p.unvalued := by
  have hfirm := (List.nodup_append.1 (p.ids_perm.nodup_iff.1 hn)).1
  have hsplit := List.nodup_append.1 (p.firm_perm.nodup_iff.1 hfirm)
  exact fun hu => hsplit.2.2 id hu id h rfl

theorem mem_valued_of_structs (h : id ∈ p.structs) : id ∈ p.valued := by
  obtain ⟨i, hi, rfl⟩ := List.mem_map.1 h
  obtain ⟨hi, hs⟩ := List.mem_filter.1 hi
  refine List.mem_flatMap.2 ⟨i, hi, ?_⟩
  unfold Item.isStruct at hs
  unfold Item.valued
  cases hk : i.kind with
  | struct d => exact List.mem_singleton_self _
  | _ => rw [hk] at hs; cases hs

theorem mem_valued_of_globals (h : id ∈ p.globals) : id ∈ p.valued := by
  obtain ⟨i, hi, rfl⟩ := List.mem_map.1 h
  obtain ⟨hi, hs⟩ := List.mem_filter.1 hi
  refine List.mem_flatMap.2 ⟨i, hi, ?_⟩
  unfold Item.initial? at hs
  unfold Item.valued
  cases hk : i.kind with
  | constant d => exact List.mem_singleton_self _
  | static d => exact List.mem_singleton_self _
  | _ => rw [hk] at hs; cases hs

theorem mem_ids_of_firm (h : id ∈ p.firm) : id ∈ p.ids :=
  p.ids_perm.mem_iff.2 (List.mem_append_left _ h)

end Program

/-! ## Regular units -/

def Expr.isLiteral : Expr → Bool
  | .literal .. => true
  | _ => false

/-- The item is as lowering expects it, where `globals` can be named everywhere. -/
def Item.regular (s : Scope) (globals : List IrId) (i : Item) : Bool :=
  match i.kind with
  | .function d => d.body.isBlock && d.body.scoped s (d.params.map (·.head.id.ir) ++ globals)
  | .struct d => decide (d.fields.map (·.name)).Nodup
  | .constant d => d.value.isLiteral
  | .static d => d.value.isLiteral

namespace Literal

def isFloat (lit : Literal) : Bool :=
  match lit.primitive with
  | .float _ => true
  | _ => false

/-- The text of the literal can be read as a value of its kind. -/
def readable (lit : Literal) : Bool :=
  match lit.kind with
  | .bool => (Lower.bool? (Lower.plainSpelling lit.spelling)).isSome
  | .float => (Binary.binary64.ofText? (Lower.plainSpelling lit.spelling)).isSome
  | .int =>
    if lit.isFloat then (Binary.binary64.ofText? (Lower.plainSpelling lit.spelling)).isSome
    else (Lower.int? (Lower.plainSpelling lit.spelling)).isSome

end Literal

def Part.literal? : Part → Option Literal
  | .expr (.literal _ lit) => some lit
  | _ => none

namespace Session

/-- Bodies, fields, initial values and literals are as lowering expects them; calls and callees
belong to one crate. -/
structure Regular (s : Session) : Prop where
  items : ∀ i ∈ s.program.items, i.regular s.scope s.program.globals = true
  literals : ∀ lit ∈ s.program.parts.filterMap Part.literal?, lit.readable = true
  crates : ∀ c ∈ s.program.parts.filterMap Part.call?, c.2.head.id.crate = c.1.id.crate

instance (s : Session) : Decidable s.Regular :=
  decidable_of_iff (_ ∧ _ ∧ _)
    ⟨fun h => ⟨h.1, h.2.1, h.2.2⟩, fun h => ⟨h.items, h.literals, h.crates⟩⟩

namespace Regular

variable {s : Session} {u : CompilationUnit} {i : Item}

/-- What a name stands for is a variable, or is declared by an item and has a value. -/
theorem named (h : s.Regular) (hi : i ∈ s.program.items) {g : Head} {x : String} {id : IrId}
    (he : .expr (.identifier g x) ∈ i.bodyParts)
    (hd : Check.declaration s.scope (.identifier g x) = .ok id) :
    id ∈ s.program.valued ∨ id ∈ i.bodyParts.flatMap Part.lets := by
  have hitem := h.items i hi
  unfold Item.regular at hitem
  have hliteral : ∀ {e : Expr}, e.isLiteral = true → i.bodyParts = e.parts → False := by
    intro e hl hparts
    rw [hparts] at he
    unfold Expr.isLiteral at hl
    cases e with
    | literal g lit => cases List.mem_singleton.1 he
    | _ => cases hl
  cases hk : i.kind with
  | function d =>
    rw [hk] at hitem
    have hparts : i.bodyParts = d.body.parts := by unfold Item.bodyParts; rw [hk]
    rw [hparts] at he ⊢
    obtain ⟨id', hd', hid⟩ := Expr.namesWithin (Bool.and_eq_true _ _ ▸ hitem).2 g x he
    cases hd.symm.trans hd'
    refine hid.imp_left fun hid => ?_
    rcases List.mem_append.1 hid with hid | hid
    · obtain ⟨q, hq, rfl⟩ := List.mem_map.1 hid
      refine List.mem_flatMap.2 ⟨i, hi, ?_⟩
      unfold Item.valued
      rw [hk]
      exact List.mem_flatMap.2 ⟨q, hq, List.mem_cons_self ..⟩
    · exact Program.mem_valued_of_globals hid
  | struct d =>
    have hparts : i.bodyParts = [] := by unfold Item.bodyParts; rw [hk]
    rw [hparts] at he
    exact absurd he List.not_mem_nil
  | constant d =>
    rw [hk] at hitem
    exact (hliteral hitem (by unfold Item.bodyParts; rw [hk])).elim
  | static d =>
    rw [hk] at hitem
    exact (hliteral hitem (by unfold Item.bodyParts; rw [hk])).elim

/-- Names and type names of a regular unit stand for what has a type of values. -/
theorem valued (h : (ofUnit u).Regular) (hb : (ofUnit u).Bound) (hn : u.program.ids.Nodup)
    (hi : i ∈ u.program.items) :
    Check.Valued (ofUnit u).scope (ofUnit u).types (· ∈ u.program.unvalued) i where
  parts := by
    have hparts : ∀ {a : Part}, a ∈ i.parts → a ∈ u.program.parts := fun ha =>
      List.mem_flatMap.2 ⟨i, hi, ha⟩
    have hstruct : ∀ {id : IrId}, id ∈ u.program.structs → id ∉ u.program.unvalued := fun hid =>
      Program.not_mem_unvalued hn (Program.mem_valued_of_structs hid)
    refine ⟨?_, ?_, ?_⟩
    · intro g x id he hd
      rcases List.mem_append.1 he with he | he
      · exact absurd he (Check.noExpr_signatureParts i _)
      · rcases h.named hi he hd with hid | hid
        · exact Program.not_mem_unvalued hn hid
        · obtain ⟨a, ha, hid⟩ := List.mem_flatMap.1 hid
          have hirs := (Program.mem_irs_of_lets hid).2
          exact fun hu => Program.not_mem_firm hn (hparts (List.mem_append_right _ ha)) hirs
            (Program.mem_firm_of_unvalued hu)
    · intro g name id he hd hu
      rcases hb.typePaths _ (List.mem_filterMap.2 ⟨_, hparts he, rfl⟩) _ hd with hid | hid
      · exact hstruct hid hu
      · exact hid (Program.mem_ids_of_firm (Program.mem_firm_of_unvalued hu))
    · intro g path fs decl id he hdecl hnode
      exact hstruct (hb.structPaths _ (List.mem_filterMap.2 ⟨_, hparts he, rfl⟩) _ hdecl _ hnode)
  function d hk := by
    refine List.mem_flatMap.2 ⟨i, hi, ?_⟩
    unfold Item.unvalued
    rw [hk]
    exact List.mem_singleton_self _
  fields d hk := by
    constructor
    · intro f hf
      refine List.mem_flatMap.2 ⟨i, hi, ?_⟩
      unfold Item.unvalued
      rw [hk]
      exact List.mem_map_of_mem hf
    · have hitem := h.items i hi
      unfold Item.regular at hitem
      rw [hk] at hitem
      exact of_decide_eq_true hitem

end Regular

/-! ## What a clean check of a regular unit finds -/

/-- The identity is that of a declared primitive type. -/
def IsPrimitive (s : Session) (id : IrId) : Prop :=
  ∃ b ∈ s.scope.bindings.builtins, s.types.builtinId? b.node = some id

/-- Before the first check all types are those of values. -/
theorem plainly {u : CompilationUnit} (hroom : (ofUnit u).HasRoom) (K : IrId → Prop) :
    Check.Plainly (ofUnit u).types (ofUnit u).IsPrimitive K (ofUnit u).types := by
  have hbased := based hroom
  have hplain : ∀ {b : Builtin} {r : IrId}, b ∈ (ofUnit u).scope.bindings.builtins →
      (ofUnit u).types.builtinId? b.node = some r →
      (Ty.ofPrimitive r b.primitive).Plain (ofUnit u).IsPrimitive := fun hb hr =>
    Ty.plain_ofPrimitive ⟨_, hb, hr⟩ _
  have hunit : ∀ {ty : Ty}, ty.isUnit = true → ty.Plain (ofUnit u).IsPrimitive := by
    intro ty h
    cases ty with
    | unit r => trivial
    | _ => cases h
  refine ⟨rfl, ?_, ?_, ?_⟩
  · intro name ty hname
    rcases hbased.named hname with ⟨_, h⟩ | ⟨b, hb, _, r, hr, rfl⟩
    · exact hunit h
    · exact hplain hb hr
  · intro ty hty
    rw [hbased.returns] at hty
    exact absurd hty List.not_mem_nil
  · intro id ty hget
    rcases hbased.known hget with h | ⟨b, hb, hr, rfl⟩
    · exact .inl (hunit h)
    · exact .inl (hplain hb hr)

/-- A unit that is bound and regular, and that the first check reports clean. -/
structure Accepts (u : CompilationUnit) : Prop where
  room : (ofUnit u).HasRoom
  distinct : u.program.ids.Nodup
  bound : (ofUnit u).Bound
  regular : (ofUnit u).Regular
  clean : (ofUnit u).Clean

namespace Accepts

variable {u : CompilationUnit}

theorem valued (h : Accepts u) : ∀ i ∈ u.program.items,
    Check.Valued (ofUnit u).scope (ofUnit u).types (· ∈ u.program.unvalued) i :=
  fun _ hi => h.regular.valued h.bound h.distinct hi

theorem outcome (h : Accepts u) : Check.Outcome (ofUnit u).scope (ofUnit u).types
    (· ∈ u.program.lets) u.program.IsFirm (ofUnit u).IsPrimitive (ofUnit u).check.2.types
      u.program := by
  exact (h.clean.passes rfl).outcome (h.bound.itemsPlaced h.distinct) ((known u).good _)
    (known u).returns h.distinct (fun _ => get?_eq_none_of_mem_ids h.room) h.valued
    (plainly h.room _)

/-- Types of values are plain. -/
theorem plain (h : Accepts u) : Check.Plainly (ofUnit u).types
    (fun r => (ofUnit u).IsPrimitive r ∨ r ∈ u.program.structs) (· ∈ u.program.unvalued)
      (ofUnit u).check.2.types := by
  refine (h.clean.passes rfl).plain h.valued ?_ ((plainly h.room _).mono fun _ => .inl)
  exact fun i hi hs => .inr (List.mem_map.2 ⟨i, List.mem_filter.2 ⟨hi, hs⟩, rfl⟩)

/-- The types of primitive types stay. -/
theorem primitive (h : Accepts u) {b : Builtin} (hb : b ∈ (ofUnit u).scope.bindings.builtins) :
    ∃ r, (ofUnit u).check.2.types.builtinId? b.node = some r ∧ (ofUnit u).IsPrimitive r ∧
      (ofUnit u).check.2.types.get? r = some (.ofPrimitive r b.primitive) := by
  obtain ⟨r, hr, hget⟩ := (based h.room).listed b hb
  refine ⟨r, ?_, ⟨b, hb, hr⟩, ?_⟩
  · unfold TypeTable.builtinId?
    rw [h.outcome.good.builtinIds]
    exact hr
  · refine h.outcome.keeps.exact hget (Ty.complete_ofPrimitive r b.primitive) ?_
    intro hlets
    obtain ⟨a, ha, hid⟩ := List.mem_flatMap.1 hlets
    refine fresh_of_get? h.room ?_ (Program.mem_ids_of_irs ha (Program.mem_irs_of_lets hid).2)
    rw [hget]
    exact Option.some_ne_none _

/-- A literal has the primitive type that it selects. -/
theorem literal (h : Accepts u) {t : TypeTable} {lit : Literal} {ty : Ty}
    (ht : t.builtins = (ofUnit u).check.2.types.builtins)
    (hty : t.builtin? lit.primitive.name = some ty) :
    ∃ r, (ofUnit u).IsPrimitive r ∧ ty = .ofPrimitive r lit.primitive := by
  unfold TypeTable.builtin? at hty
  rw [ht, h.outcome.keeps.builtins] at hty
  obtain ⟨b, hb, r, hr, rfl, _⟩ := (based h.room).primitive hty
  exact ⟨r, ⟨b, hb, hr⟩, rfl⟩

end Accepts

end Session

end MiddleEnd
