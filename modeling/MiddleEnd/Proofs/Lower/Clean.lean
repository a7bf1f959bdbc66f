/-
  A clean check leads to no fault in lowering (`Session.lower_of_clean`). The check establishes
  whatever lowering requires of a regular unit, but for one thing: lowering has no use for values of
  type unit that need storage. It cannot lower a type with unit inside, nor a name that stands for a
  variable of type unit, and the check accepts both (`Session.Storable`).
-/
import MiddleEnd.Proofs.Check.Coverage
import MiddleEnd.Proofs.Check.Regular
import MiddleEnd.Proofs.Lower.Completion
import MiddleEnd.Proofs.Syntax.Samples

namespace MiddleEnd.Session

/-- No node of the program has a type with unit inside, and no name stands for a variable of type
unit. -/
structure Storable (s : Session) : Prop where
  solid : ∀ id ∈ s.program.ids, ∀ ty ∈ s.types.get? id, ty.solid = true
  names : ∀ e ∈ s.program.parts.filterMap Part.name?,
    ∀ id ∈ (Check.declaration s.scope e).toOption, ∀ ty ∈ s.types.get? id, ty.isUnit = false

instance (s : Session) : Decidable s.Storable :=
  decidable_of_iff (_ ∧ _) ⟨fun h => ⟨h.1, h.2⟩, fun h => ⟨h.solid, h.names⟩⟩

/-- The identities that types of the unit refer to. -/
def IsStored (u : CompilationUnit) (r : IrId) : Prop :=
  (ofUnit u).IsPrimitive r ∨ r ∈ u.program.structs

namespace Accepts

variable {u : CompilationUnit} {i : Item}

/-- A type that is known is unit or needs storage. -/
theorem stored (h : Accepts u) (hs : (ofUnit u).check.2.Storable) {id : IrId} {ty : Ty}
    (hid : id ∈ u.program.ids) (hv : id ∉ u.program.unvalued)
    (hget : (ofUnit u).check.2.types.get? id = some ty) (hc : ty.complete = true) :
    ty.isUnit = true ∨ ty.Stored (IsStored u) := by
  cases hu : ty.isUnit with
  | true => exact .inl rfl
  | false => exact .inr ((h.plain.value hv hget).stored hc (hs.solid id hid ty hget) hu)

theorem mem_parts (hi : i ∈ u.program.items) {a : Part} (ha : a ∈ i.bodyParts) :
    a ∈ u.program.parts :=
  Check.mem_parts_of_bodyParts hi ha

theorem loose (h : Accepts u) (hi : i ∈ u.program.items) {a : Part} (ha : a ∈ i.bodyParts)
    (id : IrId) (hid : id ∈ a.irs) : id ∈ u.program.ids ∧ id ∉ u.program.unvalued := by
  refine ⟨Program.mem_ids_of_irs (mem_parts hi ha) hid, ?_⟩
  intro hu
  exact Program.not_mem_firm h.distinct (mem_parts hi ha) hid (Program.mem_firm_of_unvalued hu)

/-- Every expression has a type that is unit or needs storage. -/
theorem typed (h : Accepts u) (hs : (ofUnit u).check.2.Storable) (hi : i ∈ u.program.items)
    {e : Expr} (he : .expr e ∈ i.bodyParts) :
    ∃ ty, (ofUnit u).check.2.types.get? e.ir = some ty ∧
      (ty.isUnit = true ∨ ty.Stored (IsStored u)) := by
  obtain ⟨ty, hget, hc⟩ := ((h.outcome.bodies i hi).exprs e he).settled
  obtain ⟨hid, hv⟩ := h.loose hi he e.ir (List.mem_singleton_self _)
  exact ⟨ty, hget, h.stored hs hid hv hget hc⟩

theorem bind (h : Accepts u) (hs : (ofUnit u).check.2.Storable) (hi : i ∈ u.program.items)
    {g : Head} {q : Pattern} (hm : .bind g q ∈ i.bodyParts) :
    ∃ ty, (ofUnit u).check.2.types.get? g.id.ir = some ty ∧
      ((ty.isUnit || ty.isInfer) = true ∨ ty.Stored (IsStored u)) := by
  have hall := (h.clean.passes rfl).fills.all g.id.ir (List.mem_append_right _
    (List.mem_flatMap.2 ⟨_, mem_parts hi hm, List.mem_cons_self ..⟩))
  obtain ⟨ty, hget⟩ := Option.isSome_iff_exists.1 hall
  obtain ⟨hid, hv⟩ := h.loose hi hm g.id.ir (List.mem_cons_self ..)
  refine ⟨ty, hget, ?_⟩
  rcases h.outcome.good.entries hget with hc | ⟨⟨r, rfl⟩, _⟩
  · rcases h.stored hs hid hv hget hc with hu | hst
    · exact .inl (by rw [hu]; rfl)
    · exact .inr hst
  · exact .inl rfl

/-- A name stands for what has a value. -/
theorem held (h : Accepts u) (hs : (ofUnit u).check.2.Storable) (hi : i ∈ u.program.items)
    {g : Head} {x : String} (he : .expr (.identifier g x) ∈ i.bodyParts) {id : IrId}
    (hd : Check.declaration (ofUnit u).scope (.identifier g x) = .ok id) :
    Lower.Held (ofUnit u).check.2.checked id := by
  obtain ⟨ty, hget, hc⟩ := (h.outcome.bodies i hi).names he hd
  refine ⟨ty, hget, ?_, ?_⟩
  · exact hs.names _ (List.mem_filterMap.2 ⟨_, mem_parts hi he, rfl⟩) id (by
      show id ∈ (Check.declaration (ofUnit u).scope (.identifier g x)).toOption
      rw [hd]
      rfl) ty hget
  · cases ty with
    | infer r => cases hc
    | _ => rfl

theorem readable {lit : Literal} (hl : lit.readable = true) (r : IrId) :
    Lower.Readable (.ofPrimitive r lit.primitive) lit := by
  have hfloat : Lower.isFloat (.ofPrimitive r lit.primitive) = lit.isFloat := by
    unfold Literal.isFloat
    cases lit.primitive <;> rfl
  unfold Literal.readable at hl
  unfold Lower.Readable
  rw [hfloat]
  cases hk : lit.kind with
  | bool =>
    rw [hk] at hl
    exact hl
  | float =>
    rw [hk] at hl
    exact hl
  | int =>
    rw [hk] at hl
    cases hf : lit.isFloat with
    | true =>
      rw [hf] at hl
      exact hl
    | false =>
      rw [hf] at hl
      exact hl

/-- What lowering requires of each expression of a body. -/
theorem supports (h : Accepts u) (hs : (ofUnit u).check.2.Storable) (hi : i ∈ u.program.items)
    {e : Expr} (he : .expr e ∈ i.bodyParts) :
    Lower.Supports (ofUnit u).check.2.checked (IsStored u) (· ∈ u.program.functions) e := by
  have hmem := mem_parts hi he
  have hfound := (h.outcome.bodies i hi).exprs e he
  obtain ⟨hid, hv⟩ := h.loose hi he e.ir (List.mem_singleton_self _)
  cases e with
  | identifier g x => exact fun id hd => h.held hs hi he hd
  | literal g lit =>
    cases hfound with
    | derived hd hb hget hc =>
      cases hd with
      | literal _ _ _ hty =>
        obtain ⟨r, hr, rfl⟩ := h.literal hb hty
        have hread := h.regular.literals lit (List.mem_filterMap.2 ⟨_, hmem, rfl⟩)
        refine ⟨_, hget, ?_, readable hread r⟩
        refine (h.stored hs hid hv hget hc).resolve_left ?_
        rw [Ty.isUnit_ofPrimitive]
        exact Bool.false_ne_true
  | call g callee args =>
    cases hfound with
    | derived hd hb hget hc =>
      cases hd with
      | call _ _ _ _ hdecl hnode _ _ _ =>
        have hf := h.bound.callees _ (List.mem_filterMap.2 ⟨_, hmem, rfl⟩) _ hdecl _ hnode
        have hcrate := h.regular.crates _ (List.mem_filterMap.2 ⟨_, hmem, rfl⟩)
        exact ⟨_, _, hdecl, by rw [hcrate]; exact hnode, hf⟩
      | callError => cases hc
  | array g values =>
    cases hfound with
    | derived hd hb hget hc =>
      cases hd with
      | array =>
        exact ⟨_, hget, (h.stored hs hid hv hget hc).resolve_left Bool.false_ne_true⟩
  | copies g element count =>
    cases hfound with
    | derived hd hb hget hc =>
      cases hd with
      | copies =>
        exact ⟨_, hget, (h.stored hs hid hv hget hc).resolve_left Bool.false_ne_true⟩
  | struct g path fields =>
    cases hfound with
    | derived hd hb hget hc =>
      cases hd with
      | struct _ _ _ _ _ _ _ _ hall =>
        obtain ⟨hr, hn, _⟩ := h.plain.value hv hget
        exact ⟨_, _, _, hget, hr, hn, hall⟩
  | _ => trivial

theorem supported (h : Accepts u) (hs : (ofUnit u).check.2.Storable)
    (hi : i ∈ u.program.items) : Lower.Supported (ofUnit u).check.2.checked (IsStored u)
      (· ∈ u.program.functions) i.bodyParts where
  typed _ he := h.typed hs hi he
  exprs _ he := h.supports hs hi he
  binds _ _ hm := h.bind hs hi hm

/-- The type of an item is known, and has no unit inside. -/
theorem firm (h : Accepts u) (hs : (ofUnit u).check.2.Storable) (hi : i ∈ u.program.items) {ty : Ty}
    (hget : (ofUnit u).check.2.types.get? i.head.id.ir = some ty) :
    ty.complete = true ∧ ty.solid = true :=
  have hf := Program.head_mem_firm hi
  ⟨h.outcome.good.firm hget (.inl hf), hs.solid _ (Program.mem_ids_of_firm hf) ty hget⟩

theorem function (h : Accepts u) (hs : (ofUnit u).check.2.Storable) (hi : i ∈ u.program.items)
    {d : FunctionDecl} (hk : i.kind = .function d) :
    Lower.Lowerable.Function (ofUnit u).check.2.checked (IsStored u) (· ∈ u.program.functions)
      u.program.globals i d := by
  have hitem := h.regular.items i hi
  unfold Item.regular at hitem
  rw [hk] at hitem
  obtain ⟨hblock, hscoped⟩ := Bool.and_eq_true _ _ ▸ hitem
  have hparts : i.bodyParts = d.body.parts := by unfold Item.bodyParts; rw [hk]
  obtain ⟨r, ps, result, hget, hlen⟩ := h.outcome.functions i hi d hk
  obtain ⟨hc, hsolid⟩ := h.firm hs hi hget
  obtain ⟨hpc, hrc⟩ := Bool.and_eq_true _ _ ▸ hc
  obtain ⟨hps, hrs⟩ := Bool.and_eq_true _ _ ▸ hsolid
  obtain ⟨hpp, hrp⟩ := ((h.plain.entries hget).resolve_left fun hf => hf.elim).2
  refine ⟨⟨r, ps, result, hget, hlen, hpp.stored hpc hps, ?_⟩, ?_, hscoped, ?_⟩
  · cases hu : result.isUnit with
    | true => exact .inl rfl
    | false => exact .inr (hrp.stored hrc hrs hu)
  · cases hb : d.body with
    | block g ss tail => exact ⟨g, ss, tail, rfl⟩
    | _ => rw [hb] at hblock; cases hblock
  · rw [← hparts]
    exact h.supported hs hi

theorem initial (h : Accepts u) (hs : (ofUnit u).check.2.Storable) (hi : i ∈ u.program.items) :
    Lower.Lowerable.Initial (ofUnit u).check.2.checked (IsStored u) i := by
  intro e he
  have hbody : .expr e ∈ i.bodyParts ∧ e.isLiteral = true := by
    have hitem := h.regular.items i hi
    unfold Item.regular at hitem
    unfold Item.initial? at he
    unfold Item.bodyParts
    cases hk : i.kind with
    | constant d =>
      rw [hk] at hitem he
      cases he
      exact ⟨d.value.self_mem_parts, hitem⟩
    | static d =>
      rw [hk] at hitem he
      cases he
      exact ⟨d.value.self_mem_parts, hitem⟩
    | _ => rw [hk] at he; cases he
  obtain ⟨declared, ty, hget, hty, hunit⟩ := h.outcome.initials i hi e he
  cases e with
  | literal g lit =>
    obtain ⟨t, ht, hstored, hread⟩ := h.supports hs hi hbody.1
    cases ht.symm.trans hty
    refine ⟨⟨g, lit, ty, rfl, hty, hstored, hread⟩, declared, hget, ?_⟩
    obtain ⟨hc, hsolid⟩ := h.firm hs hi hget
    have hv : i.head.id.ir ∉ u.program.unvalued :=
      Program.not_mem_unvalued h.distinct (Program.mem_valued_of_globals (List.mem_map.2
        ⟨i, List.mem_filter.2 ⟨hi, by rw [he]; rfl⟩, rfl⟩))
    exact (h.plain.value hv hget).stored hc hsolid (hunit.trans hstored.isUnit_eq_false)
  | _ => cases hbody.2

theorem lowerable (h : Accepts u) (hs : (ofUnit u).check.2.Storable) :
    Lower.Lowerable (ofUnit u).check.2.checked (ofUnit u).IsPrimitive u.program where
  primitives b hb := by
    obtain ⟨r, hr, _, hget⟩ := h.primitive hb
    exact ⟨r, _, hr, hget, by cases b.primitive <;> rfl⟩
  entered r hr := by
    obtain ⟨b, hb, hr⟩ := hr
    refine ⟨b, hb, ?_⟩
    show (ofUnit u).check.2.types.builtinId? b.node = some r
    unfold TypeTable.builtinId?
    rw [h.outcome.good.builtinIds]
    exact hr
  structs := h.outcome.structs
  firm _ hi _ hget := h.firm hs hi hget
  initials _ hi := h.initial hs hi
  functions _ hi _ hk := h.function hs hi hk

end Accepts

/-- After a clean check of a regular unit lowering does not stop at a fault, if no type has unit
inside and no name stands for a variable of type unit. -/
theorem lower_of_clean (u : CompilationUnit) (target : String) (hroom : (ofUnit u).HasRoom)
    (hn : u.program.ids.Nodup) (hb : (ofUnit u).Bound) (hreg : (ofUnit u).Regular)
    (hclean : (ofUnit u).Clean) (hs : (ofUnit u).check.2.Storable) :
    ((ofUnit u).check.2.lower target).1 = .ok () := by
  have haccepts : Accepts u := ⟨hroom, hn, hb, hreg, hclean⟩
  obtain ⟨_, l, hr, _⟩ := (haccepts.lowerable hs).ends target
  exact congrArg (·.1) hr

open Samples in
theorem lower_of_clean_building : (ofUnit building).HasRoom ∧ building.program.ids.Nodup ∧
    (ofUnit building).Bound ∧ (ofUnit building).Regular ∧ (ofUnit building).Clean ∧
    (ofUnit building).check.2.Storable ∧ ((ofUnit building).check.2.lower "x86_64").1 = .ok () := by
  have hroom : (ofUnit building).HasRoom := by decide +kernel
  have hn : building.program.ids.Nodup := by decide +kernel
  have hb : (ofUnit building).Bound := by decide +kernel
  have hreg : (ofUnit building).Regular := by decide +kernel
  have hclean : (ofUnit building).Clean := by decide +kernel
  have hs : (ofUnit building).check.2.Storable := by decide +kernel
  exact ⟨hroom, hn, hb, hreg, hclean, hs,
    lower_of_clean building "x86_64" hroom hn hb hreg hclean hs⟩

end MiddleEnd.Session
