/-
  C types and types correspond. At whatever two points of lowering the C types of two types from the
  table of a unit are built, they are the same C type if and only if the types are the same
  (`Session.cTypes_correspond`).

  A C type is known from its name alone. Scalar types and struct items have names of their own, and
  wrappers of arrays are numbered: one that is made for a name and a length stays the only one for
  them (`C.Program.Numbered`). So what a C type stands for is settled by the wrappers made so far
  (`Denotes`), and wrappers that come later do not change it.
-/
import MiddleEnd.Proofs.C.Definitions
import MiddleEnd.Proofs.Check.Rooted
import MiddleEnd.Proofs.Lower.Constants
import MiddleEnd.Proofs.Lower.Declarations
import MiddleEnd.Proofs.Lower.Steps
import MiddleEnd.Proofs.Syntax.Samples

namespace MiddleEnd

theorem Session.fresh_of_known {u : CompilationUnit} (hroom : (ofUnit u).HasRoom) {id : IrId}
    {t : Ty} (h : (ofUnit u).types.get? id = some t) : id ∉ u.program.ids :=
  fresh_of_get? hroom fun hnone => Option.some_ne_none t (h.symm.trans hnone)

/-! ## Wrappers -/

namespace C.Program

variable {p : Program}

/-- The wrappers of arrays are numbered in the order in which they were made. -/
def Numbered (p : Program) : Prop :=
  p.arrays.map (·.2) = (List.range p.arrays.length).map fun n => .named (arrayName n)

/-- Different wrappers are for different arrays. -/
theorem Numbered.key_eq (h : p.Numbered) {a b : String × String} {t : Ty}
    (ha : p.arrays.lookup a = some t) (hb : p.arrays.lookup b = some t) : a = b := by
  have hnodup : (p.arrays.map (·.2)).Nodup := by
    rw [show p.arrays.map (·.2) = _ from h]
    exact List.nodup_range.map fun m n he => arrayName_injective (Ty.named.inj he)
  have hmem : ∀ {key}, p.arrays.lookup key = some t → (key, t) ∈ p.arrays := by
    intro key hkey
    obtain ⟨before, after, hsplit, _⟩ := List.lookup_eq_some_iff.1 hkey
    rw [hsplit]
    exact List.mem_append_right _ List.mem_cons_self
  exact congrArg Prod.fst (List.inj_on_of_nodup_map hnodup (hmem ha) (hmem hb) rfl)

theorem Numbered.name (h : p.Numbered) {key : String × String} {t : Ty}
    (ht : p.arrays.lookup key = some t) : ∃ n, t = .named (arrayName n) := by
  obtain ⟨before, after, hsplit, _⟩ := List.lookup_eq_some_iff.1 ht
  have hin : t ∈ p.arrays.map (·.2) := by
    rw [hsplit]
    simp
  rw [show p.arrays.map (·.2) = _ from h] at hin
  obtain ⟨n, _, rfl⟩ := List.mem_map.1 hin
  exact ⟨n, rfl⟩

theorem Numbered.arrayType (h : p.Numbered) (element : Ty) (length : Expr) :
    (p.arrayType element length).2.Numbered := by
  unfold Program.arrayType Numbered
  dsimp only
  cases p.arrays.lookup (element.spelling, length.text) with
  | some t => exact h
  | none => simp [show p.arrays.map (·.2) = _ from h, List.range_succ]

end C.Program

theorem lookup_of_starts {α β : Type} [BEq α] {xs ys : List (α × β)} (h : xs <+: ys) {key : α}
    {b : β} (hb : xs.lookup key = some b) : ys.lookup key = some b := by
  obtain ⟨zs, rfl⟩ := h
  rw [List.lookup_append, hb, Option.some_or]

/-- What a partial function without repeated results gives comes from one element. -/
theorem eq_of_nodup_filterMap {α β : Type} {f : α → Option β} {l : List α}
    (hn : (l.filterMap f).Nodup) {x y : α} {b : β} (hx : x ∈ l) (hy : y ∈ l) (hfx : f x = some b)
    (hfy : f y = some b) : x = y := by
  by_contra hne
  have hsymm : Std.Symm fun x y : α => ∀ b, f x = some b → ∀ c, f y = some c → b ≠ c :=
    ⟨fun x y h b hb c hc he => h c hc b hb he.symm⟩
  exact (List.pairwise_filterMap.1 hn).forall hx hy hne b hfx b hfy rfl

/-! ## Scalar types -/

namespace Lower

theorem text_arrayLength (n : Nat) : (arrayLength n).text = n.repr := rfl

/-- Only primitive types have scalar types. -/
theorem exists_ofPrimitive {t : Ty} {ct : C.Ty} (h : primitiveTy? t = some ct) :
    ∃ r q, t = .ofPrimitive r q := by
  cases t with
  | bool r => exact ⟨r, .bool, rfl⟩
  | int r w => exact ⟨r, .int w, rfl⟩
  | uint r w => exact ⟨r, .uint w, rfl⟩
  | float r w => exact ⟨r, .float w, rfl⟩
  | _ => cases h

theorem primitiveTy?_ofPrimitive (r s : IrId) (q : Primitive) :
    primitiveTy? (.ofPrimitive r q) = primitiveTy? (.ofPrimitive s q) := by
  cases q <;> rfl

theorem same_ofPrimitive (r s : IrId) (p q : Primitive) :
    (Ty.ofPrimitive r p).same (.ofPrimitive s q) = true ↔ p = q := by
  cases p <;> cases q <;> simp [Ty.ofPrimitive, Ty.same]

/-- Different primitive types are spelled differently. -/
theorem spelling_injective {r s : IrId} {p q : Primitive}
    (h : (primitiveTy? (.ofPrimitive r p)).map C.Ty.spelling =
      (primitiveTy? (.ofPrimitive s q)).map C.Ty.spelling) : p = q := by
  have hall : ∀ p ∈ Primitive.all, ∀ q ∈ Primitive.all,
      (primitiveTy? (.ofPrimitive ⟨0⟩ p)).map C.Ty.spelling =
        (primitiveTy? (.ofPrimitive ⟨0⟩ q)).map C.Ty.spelling → p = q := by decide +kernel
  rw [primitiveTy?_ofPrimitive r ⟨0⟩, primitiveTy?_ofPrimitive s ⟨0⟩] at h
  exact hall p p.mem_all q q.mem_all h

/-- Two scalar types are the same if and only if the primitive types are. -/
theorem scalar_eq_iff {t₁ t₂ : Ty} {ct₁ ct₂ : C.Ty} (h₁ : primitiveTy? t₁ = some ct₁)
    (h₂ : primitiveTy? t₂ = some ct₂) : ct₁ = ct₂ ↔ t₁.same t₂ = true := by
  obtain ⟨r, p, rfl⟩ := exists_ofPrimitive h₁
  obtain ⟨s, q, rfl⟩ := exists_ofPrimitive h₂
  rw [same_ofPrimitive]
  constructor
  · rintro rfl
    exact spelling_injective (congrArg _ (h₁.trans h₂.symm))
  · rintro rfl
    rw [primitiveTy?_ofPrimitive r s, h₂] at h₁
    exact (Option.some.inj h₁).symm

theorem spelling_of_primitiveTy? {t : Ty} {ct : C.Ty} (h : primitiveTy? t = some ct) :
    ∃ s ∈ C.scalars, ct = .named s := by
  obtain ⟨s, rfl, hs | hs⟩ := scalar_of_primitiveTy? h []
  · exact ⟨s, hs, rfl⟩
  · cases hs

theorem scalar_ne {t : Ty} {ct : C.Ty} (h : primitiveTy? t = some ct) {name : String}
    (hname : name ∉ C.scalars) : ct ≠ .named name := by
  rintro rfl
  obtain ⟨s, hs, he⟩ := spelling_of_primitiveTy? h
  cases he
  exact hname hs

/-- A primitive type is the same as no other type. -/
theorem not_same_of_primitive {t t' : Ty} {ct : C.Ty} (h : primitiveTy? t = some ct)
    (h' : primitiveTy? t' = none) : ¬ t.same t' = true ∧ ¬ t'.same t = true := by
  cases t <;> cases h <;> cases t' <;> first | (cases h'; done) | exact ⟨nofun, nofun⟩

theorem not_same_struct_array (r s : IrId) (name : String) (fields : Members) (element : Ty)
    (n : Nat) :
    ¬ (Ty.struct r name fields).same (.array s element n) = true ∧
      ¬ (Ty.array s element n).same (.struct r name fields) = true :=
  ⟨nofun, nofun⟩

/-! ## What C types stand for -/

/-- The C type stands for the type, with the wrappers made so far. -/
inductive Denotes (items : List Item) (arrays : List ((String × String) × C.Ty)) : Ty → C.Ty → Prop
  | primitive {t : Ty} {ct : C.Ty} : primitiveTy? t = some ct → Denotes items arrays t ct
  | struct {i : Item} {d : StructDecl} (name : String) (fields : Members) :
    i ∈ items → i.kind = .struct d →
    Denotes items arrays (.struct i.head.id.ir name fields) (.named d.name)
  | array {element : Ty} {ct wrapper : C.Ty} (r : IrId) (n : Nat) :
    Denotes items arrays element ct →
    arrays.lookup (ct.spelling, (arrayLength n).text) = some wrapper →
    Denotes items arrays (.array r element n) wrapper

variable {items : List Item} {arrays more : List ((String × String) × C.Ty)} {c : C.Program}

theorem Denotes.later {t : Ty} {ct : C.Ty} (h : Denotes items arrays t ct) (hm : arrays <+: more) :
    Denotes items more t ct := by
  induction h with
  | primitive h => exact .primitive h
  | struct name fields hi hd => exact .struct name fields hi hd
  | array r n _ hw ih => exact .array r n ih (lookup_of_starts hm hw)

/-- Items with different identities, and struct items with names of their own. -/
structure Distinct (items : List Item) : Prop where
  heads : (items.map (·.head.id.ir)).Nodup
  names : (items.filterMap Item.structName?).Nodup
  own : ∀ name ∈ items.filterMap Item.structName?,
    name ∉ C.scalars ∧ ∀ n, name ≠ C.Program.arrayName n

theorem structName?_of_kind {i : Item} {d : StructDecl} (h : i.kind = .struct d) :
    i.structName? = some d.name := by
  unfold Item.structName?
  rw [h]

namespace Distinct

variable (h : Distinct items)
include h

theorem own_name {i : Item} {d : StructDecl} (hi : i ∈ items) (hd : i.kind = .struct d) :
    d.name ∉ C.scalars ∧ ∀ n, d.name ≠ C.Program.arrayName n :=
  h.own _ (List.mem_filterMap.2 ⟨i, hi, structName?_of_kind hd⟩)

/-- Two struct items have the same name if and only if they have the same identity. -/
theorem name_eq_iff {i j : Item} {d e : StructDecl} (hi : i ∈ items) (hd : i.kind = .struct d)
    (hj : j ∈ items) (he : j.kind = .struct e) : d.name = e.name ↔ i.head.id.ir = j.head.id.ir := by
  constructor
  · intro hname
    rw [eq_of_nodup_filterMap h.names hi hj (structName?_of_kind hd)
      (hname ▸ structName?_of_kind he)]
  · intro hir
    cases List.inj_on_of_nodup_map h.heads hi hj hir
    rw [hd] at he
    cases he
    rfl

end Distinct

theorem Denotes.named (hc : c.Numbered) {t : Ty} {ct : C.Ty} (h : Denotes items c.arrays t ct) :
    ∃ s, ct = .named s := by
  cases h with
  | primitive h =>
    obtain ⟨s, _, rfl⟩ := spelling_of_primitiveTy? h
    exact ⟨s, rfl⟩
  | struct => exact ⟨_, rfl⟩
  | array _ _ _ hw =>
    obtain ⟨n, rfl⟩ := hc.name hw
    exact ⟨_, rfl⟩

/-- With the same wrappers, C types are the same if and only if the types are. -/
theorem Denotes.eq_iff (h : Distinct items) (hc : c.Numbered) {t₁ t₂ : Ty} {ct₁ ct₂ : C.Ty}
    (h₁ : Denotes items c.arrays t₁ ct₁) (h₂ : Denotes items c.arrays t₂ ct₂) :
    ct₁ = ct₂ ↔ t₁.same t₂ = true := by
  induction h₁ generalizing t₂ ct₂ with
  | primitive hp =>
    cases h₂ with
    | primitive hq => exact scalar_eq_iff hp hq
    | struct name fields hi hd =>
      exact iff_of_false (scalar_ne hp (h.own_name hi hd).1) (not_same_of_primitive hp rfl).1
    | array r n he hw =>
      obtain ⟨m, rfl⟩ := hc.name hw
      exact iff_of_false (scalar_ne hp (C.Program.arrayName_notMem_scalars m))
        (not_same_of_primitive hp rfl).1
  | struct name fields hi hd =>
    cases h₂ with
    | primitive hq =>
      exact iff_of_false (scalar_ne hq (h.own_name hi hd).1).symm (not_same_of_primitive hq rfl).2
    | struct name fields hj he =>
      rw [C.Ty.named.injEq, h.name_eq_iff hi hd hj he, Ty.same, beq_iff_eq]
    | array r n he hw =>
      obtain ⟨m, rfl⟩ := hc.name hw
      exact iff_of_false (fun heq => (h.own_name hi hd).2 m (C.Ty.named.inj heq))
        (not_same_struct_array ..).1
  | @array element ct wrapper r n he hw ih =>
    cases h₂ with
    | primitive hq =>
      obtain ⟨m, rfl⟩ := hc.name hw
      exact iff_of_false (scalar_ne hq (C.Program.arrayName_notMem_scalars m)).symm
        (not_same_of_primitive hq rfl).2
    | struct name fields hj hd =>
      obtain ⟨m, rfl⟩ := hc.name hw
      exact iff_of_false (fun heq => (h.own_name hj hd).2 m (C.Ty.named.inj heq).symm)
        (not_same_struct_array ..).2
    | @array element' ct' _ r' n' he' hw' =>
      -- elements with the same name and lengths with the same text share their wrapper
      have hkey : wrapper = ct₂ ↔
          (ct.spelling, (arrayLength n).text) = (ct'.spelling, (arrayLength n').text) := by
        constructor
        · rintro rfl
          exact hc.key_eq hw hw'
        · intro heq
          rw [heq, hw'] at hw
          exact (Option.some.inj hw).symm
      obtain ⟨x, rfl⟩ := he.named hc
      obtain ⟨y, rfl⟩ := he'.named hc
      rw [hkey, Prod.mk.injEq, text_arrayLength, text_arrayLength, C.repr_inj, Ty.same,
        Bool.and_eq_true, beq_iff_eq, ← ih he', C.Ty.named.injEq, C.Ty.spelling, C.Ty.spelling]

/-! ## Building C types -/

/-- What the types entered so far stand for, and how wrappers are numbered. -/
structure Consistent (u : CompilationUnit) (l : Lowering) : Prop where
  entered : ∀ (id : IrId) ct, l.types[id]? = some ct →
    (∃ t, (Session.ofUnit u).types.get? id = some t ∧ primitiveTy? t = some ct) ∨
    ∃ i ∈ u.program.items, ∃ d, i.kind = .struct d ∧ i.head.id.ir = id ∧ ct = .named d.name
  numbered : l.c.Numbered

variable {u : CompilationUnit} {k : Checked} {l l' : Lowering}

theorem consistent_empty (u : CompilationUnit) (target : String) :
    Consistent u (.empty target) where
  entered id ct h := by
    rw [show (Lowering.empty target).types[id]? = none from rfl] at h
    cases h
  numbered := rfl

/-- The tables say of primitive types what was known before any check. -/
def KeepsPrimitives (u : CompilationUnit) (k : Checked) : Prop :=
  ∀ b ∈ k.scope.bindings.builtins, ∀ id, k.types.builtinId? b.node = some id →
    k.types.get? id = (Session.ofUnit u).types.get? id

theorem Consistent.insert (h : Consistent u l) {id : IrId} {ct : C.Ty}
    (hnew : (∃ t, (Session.ofUnit u).types.get? id = some t ∧ primitiveTy? t = some ct) ∨
      ∃ i ∈ u.program.items, ∃ d, i.kind = .struct d ∧ i.head.id.ir = id ∧ ct = .named d.name) :
    Consistent u { l with types := l.types.insert id ct } := by
  refine ⟨fun other ct' hother => ?_, h.numbered⟩
  rw [show _ = (l.types.insert id ct)[other]? from rfl, Std.TreeMap.getElem?_insert] at hother
  split at hother
  · rename_i heq
    cases hother
    obtain rfl := Std.compare_eq_iff_eq.1 heq
    exact hnew
  · exact h.entered other ct' hother

theorem Consistent.step (h : Consistent u l) (hk : KeepsPrimitives u k)
    (hs : Step k u.program l l') : Consistent u l' := by
  cases hs with
  | primitive hb hid ht hct => exact h.insert (.inl ⟨_, hk _ hb _ hid ▸ ht, hct⟩)
  | struct hi hd => exact h.insert (.inr ⟨_, hi, _, hd, rfl, rfl⟩)
  | wrap element n => exact ⟨h.entered, h.numbered.arrayType element (arrayLength n)⟩
  | other ht ha =>
    refine ⟨fun id ct hct => h.entered id ct (ht ▸ hct), ?_⟩
    unfold C.Program.Numbered
    rw [ha]
    exact h.numbered

theorem Consistent.steps (h : Consistent u l) (hk : KeepsPrimitives u k)
    (hs : Steps k u.program l l') : Consistent u l' := by
  induction hs with
  | refl => exact h
  | tail _ hlast ih => exact ih.step hk hlast

theorem steps_of_runs {α : Type} {p : Program} {m : Lower α} {a : α} (h : Stepwise k p m)
    (hr : Runs m l a l') : Steps k p l l' := by
  have hs := (h l .refl).1
  rwa [show m.run.run l = (.ok a, l') from hr] at hs

section

variable (hroom : (Session.ofUnit u).HasRoom)
include hroom

/-- Identities of primitive types are not those of items. -/
theorem head_ne_known {i : Item} (hi : i ∈ u.program.items) {t : Ty} :
    (Session.ofUnit u).types.get? i.head.id.ir ≠ some t := by
  intro hknown
  have hnode : i.head.id.ir ∈ u.program.ids :=
    Program.mem_ids_of_item hi (i.signatureIds_subset i.head_mem_signatureIds)
  exact Session.fresh_of_known hroom hknown hnode

end

end Lower

namespace Session

variable {u : CompilationUnit}

theorem keepsPrimitives (hroom : (ofUnit u).HasRoom) (n : Nat) :
    Lower.KeepsPrimitives u ((ofUnit u).checks n).checked := by
  have hgrown := rooted_checks hroom n
  intro b hb id hid
  have hb : b ∈ (ofUnit u).scope.bindings.builtins := checks_scope (ofUnit u) n ▸ hb
  have hid : ((ofUnit u).checks n).types.builtinId? b.node = some id := hid
  rw [TypeTable.builtinId?, hgrown.builtinIds] at hid
  obtain ⟨r, hr, hget⟩ := (based hroom).listed b hb
  cases hr.symm.trans hid
  exact hgrown.kept id (fresh_of_known hroom hget)

end Session

end MiddleEnd
