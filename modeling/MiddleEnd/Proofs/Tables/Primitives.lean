/-
  What is known before the first check: every declared primitive type has an identity at which its
  type is recorded, and apart from these types there is only unit (`Session.based`). The
  declarations have surface identities of their own, and so has unit.
-/
import MiddleEnd.Proofs.Tables.Fresh

namespace MiddleEnd

open Std

/-! ## Names of primitive types -/

namespace Primitive

theorem name_ne_unitName : ∀ {q : Primitive}, q.name ≠ Ty.unitName := by
  intro q
  have hall : ∀ q ∈ all, q.name ≠ Ty.unitName := by decide +kernel
  exact hall q q.mem_all

theorem name_injective {p q : Primitive} (h : p.name = q.name) : p = q := by
  have hall : ∀ p ∈ all, ∀ q ∈ all, p.name = q.name → p = q := by decide +kernel
  exact hall p p.mem_all q q.mem_all h

end Primitive

/-! ## Declarations -/

theorem Registry.toNat_freshSurface {r : Registry} (h : r.nextSurface < 2 ^ 32) :
    r.freshSurface.1.val.toNat = r.nextSurface :=
  UInt32.toNat_ofNat_of_lt' h

namespace Bindings

theorem declare_primitives (ps : List Primitive) :
    ∀ r : Registry, (declare r ps).1.map (·.primitive) = ps := by
  induction ps with
  | nil => exact fun r => rfl
  | cons p ps ih => exact fun r => congrArg (p :: ·) (ih _)

theorem nextSurface_le_declare (ps : List Primitive) :
    ∀ r : Registry, r.nextSurface ≤ (declare r ps).2.nextSurface := by
  induction ps with
  | nil => exact fun r => Nat.le_refl _
  | cons p ps ih => exact fun r => Nat.le_trans (Nat.le_succ _) (ih r.freshSurface.2)

/-- The declarations get the numbers from the next free one on. -/
theorem declare_node {b : Builtin} (ps : List Primitive) :
    ∀ r : Registry, (declare r ps).2.nextSurface < 2 ^ 32 → b ∈ (declare r ps).1 →
      r.nextSurface ≤ b.node.val.toNat ∧ b.node.val.toNat < (declare r ps).2.nextSurface := by
  induction ps with
  | nil => exact fun r _ h => absurd h List.not_mem_nil
  | cons p ps ih =>
    intro r hroom h
    have hle := nextSurface_le_declare ps r.freshSurface.2
    have hlt : r.nextSurface < (declare r (p :: ps)).2.nextSurface := hle
    rcases List.mem_cons.1 h with rfl | h
    · have hnode := Registry.toNat_freshSurface (Nat.lt_trans hlt hroom)
      exact ⟨Nat.le_of_eq hnode.symm, Nat.lt_of_le_of_lt (Nat.le_of_eq hnode) hlt⟩
    · obtain ⟨hlow, hhigh⟩ := ih r.freshSurface.2 hroom h
      exact ⟨Nat.le_of_succ_le hlow, hhigh⟩

theorem declare_nodup (ps : List Primitive) :
    ∀ r : Registry, (declare r ps).2.nextSurface < 2 ^ 32 →
      ((declare r ps).1.map (·.node)).Nodup := by
  induction ps with
  | nil => exact fun r _ => List.nodup_nil
  | cons p ps ih =>
    intro r hroom
    refine List.nodup_cons.2 ⟨?_, ih r.freshSurface.2 hroom⟩
    intro hm
    obtain ⟨b, hb, he⟩ := List.mem_map.1 hm
    have hle := nextSurface_le_declare ps r.freshSurface.2
    have hlt : r.nextSurface < 2 ^ 32 := Nat.lt_of_le_of_lt (Nat.le_of_succ_le hle) hroom
    have hlow := (declare_node ps r.freshSurface.2 hroom hb).1
    have hnode : b.node.val.toNat = r.nextSurface :=
      (congrArg (·.val.toNat) he).trans (Registry.toNat_freshSurface hlt)
    rw [hnode] at hlow
    exact Nat.lt_irrefl _ hlow

end Bindings

/-! ## Tables -/

namespace TypeTable

/-- The table has an entry for every declaration, and else nothing but unit. -/
structure Based (bs : List Builtin) (t : TypeTable) : Prop where
  listed : ∀ b ∈ bs, ∃ r, t.builtinId? b.node = some r ∧
    t.get? r = some (.ofPrimitive r b.primitive)
  named : ∀ {name ty}, t.builtin? name = some ty → name = Ty.unitName ∧ ty.isUnit = true ∨
    ∃ b ∈ bs, name = b.name ∧ ∃ r, t.builtinId? b.node = some r ∧ ty = .ofPrimitive r b.primitive
  known : ∀ {id ty}, t.get? id = some ty → ty.isUnit = true ∨
    ∃ b ∈ bs, t.builtinId? b.node = some id ∧ ty = .ofPrimitive id b.primitive
  returns : t.returns = []

variable {t : TypeTable} {bs : List Builtin}

/-- What goes by the name of a primitive type is its entry. -/
theorem Based.primitive (h : t.Based bs) {q : Primitive} {ty : Ty}
    (hty : t.builtin? q.name = some ty) : ∃ b ∈ bs, ∃ r, t.builtinId? b.node = some r ∧
      ty = .ofPrimitive r q ∧ t.get? r = some ty := by
  rcases h.named hty with ⟨hname, _⟩ | ⟨b, hb, hname, r, hr, rfl⟩
  · exact absurd hname Primitive.name_ne_unitName
  · obtain ⟨r', hr', hget⟩ := h.listed b hb
    cases hr.symm.trans hr'
    rw [Primitive.name_injective hname]
    exact ⟨b, hb, r, hr, rfl, hget⟩

theorem based_empty : Based [] empty where
  listed _ hb := absurd hb List.not_mem_nil
  named h := by cases h
  known h := by cases h
  returns := rfl

theorem builtinId?_addBuiltin (t : TypeTable) (node other : SurfaceId) (name : String) (ty : Ty) :
    (t.addBuiltin node name ty).builtinId? other =
      if other = node then some ty.ref else t.builtinId? other := by
  simp only [builtinId?, addBuiltin, TreeMap.getElem?_insert, Std.compare_eq_iff_eq]
  simp [eq_comm]

theorem builtin?_addBuiltin {node : SurfaceId} {name other : String} {ty x : Ty}
    (h : (t.addBuiltin node name ty).builtin? other = some x) :
    t.builtin? other = some x ∨ other = name ∧ x = ty := by
  unfold builtin? addBuiltin at h
  rw [List.find?_append, Option.map_or] at h
  rcases Option.or_eq_some_iff.1 h with h | ⟨_, h⟩
  · exact .inl h
  · obtain ⟨p, hp, rfl⟩ := Option.map_eq_some_iff.1 h
    have hm := List.mem_of_find?_eq_some hp
    have he := List.find?_some hp
    rw [List.mem_singleton.1 hm] at he ⊢
    exact .inr ⟨(beq_iff_eq.1 he).symm, rfl⟩

/-- Entries at other identities stay. -/
theorem Based.kept (h : Based bs t) {node : SurfaceId} (name : String) {ty : Ty}
    (hnode : ∀ b ∈ bs, b.node ≠ node) (hfresh : t.get? ty.ref = none) {b : Builtin} (hb : b ∈ bs) :
    ∃ r, (t.addBuiltin node name ty).builtinId? b.node = some r ∧ t.builtinId? b.node = some r ∧
      (t.addBuiltin node name ty).get? r = some (.ofPrimitive r b.primitive) := by
  obtain ⟨r, hr, hget⟩ := h.listed b hb
  refine ⟨r, ?_, hr, ?_⟩
  · rw [builtinId?_addBuiltin, if_neg (hnode b hb)]
    exact hr
  · rw [get?_addBuiltin, if_neg]
    · exact hget
    · rintro rfl
      rw [hfresh] at hget
      cases hget

theorem Based.addPrimitive (h : Based bs t) {b : Builtin} {r : IrId}
    (hnode : ∀ c ∈ bs, c.node ≠ b.node) (hfresh : t.get? r = none) :
    Based (bs ++ [b]) (t.addBuiltin b.node b.name (.ofPrimitive r b.primitive)) := by
  have hfresh' : t.get? (Ty.ofPrimitive r b.primitive).ref = none := by
    rw [ref_ofPrimitive]
    exact hfresh
  have hself : (t.addBuiltin b.node b.name (.ofPrimitive r b.primitive)).builtinId? b.node =
      some r := by
    rw [builtinId?_addBuiltin, if_pos rfl, ref_ofPrimitive]
  have hkept : ∀ {c x}, c ∈ bs → t.builtinId? c.node = some x →
      (t.addBuiltin b.node b.name (.ofPrimitive r b.primitive)).builtinId? c.node = some x :=
    fun hc hx => by rw [builtinId?_addBuiltin, if_neg (hnode _ hc)]; exact hx
  refine ⟨?_, ?_, ?_, h.returns⟩
  · intro c hc
    rcases List.mem_append.1 hc with hc | hc
    · obtain ⟨x, hx, _, hget⟩ := h.kept b.name hnode hfresh' hc
      exact ⟨x, hx, hget⟩
    · rw [List.mem_singleton.1 hc]
      refine ⟨r, hself, ?_⟩
      rw [get?_addBuiltin, if_pos (ref_ofPrimitive ..).symm]
  · intro name ty hn
    rcases builtin?_addBuiltin hn with hn | ⟨hname, hty⟩
    · refine (h.named hn).imp_right ?_
      rintro ⟨c, hc, hname, x, hx, hty⟩
      exact ⟨c, List.mem_append_left _ hc, hname, x, hkept hc hx, hty⟩
    · exact .inr ⟨b, List.mem_append_right _ (List.mem_singleton_self _), hname, r, hself, hty⟩
  · intro id ty hget
    rw [get?_addBuiltin, ref_ofPrimitive] at hget
    split at hget
    · rename_i he
      cases hget
      rw [he]
      exact .inr ⟨b, List.mem_append_right _ (List.mem_singleton_self _), hself, rfl⟩
    · refine (h.known hget).imp_right ?_
      rintro ⟨c, hc, hx, hty⟩
      exact ⟨c, List.mem_append_left _ hc, hkept hc hx, hty⟩

/-- Unit has no declaration. -/
theorem Based.addUnit (h : Based bs t) {node : SurfaceId} {r : IrId}
    (hnode : ∀ b ∈ bs, b.node ≠ node) (hfresh : t.get? r = none) :
    Based bs (t.addBuiltin node Ty.unitName (.unit r)) := by
  have hkept : ∀ {b x}, b ∈ bs → t.builtinId? b.node = some x →
      (t.addBuiltin node Ty.unitName (.unit r)).builtinId? b.node = some x :=
    fun hb hx => by rw [builtinId?_addBuiltin, if_neg (hnode _ hb)]; exact hx
  refine ⟨?_, ?_, ?_, h.returns⟩
  · intro b hb
    have hfresh' : t.get? (Ty.unit r).ref = none := hfresh
    obtain ⟨x, hx, _, hget⟩ := h.kept Ty.unitName hnode hfresh' hb
    exact ⟨x, hx, hget⟩
  · intro name ty hn
    rcases builtin?_addBuiltin hn with hn | ⟨hname, rfl⟩
    · refine (h.named hn).imp_right ?_
      rintro ⟨b, hb, hname, x, hx, hty⟩
      exact ⟨b, hb, hname, x, hkept hb hx, hty⟩
    · exact .inl ⟨hname, rfl⟩
  · intro id ty hget
    rw [get?_addBuiltin] at hget
    split at hget
    · cases hget
      exact .inl rfl
    · refine (h.known hget).imp_right ?_
      rintro ⟨b, hb, hx, hty⟩
      exact ⟨b, hb, hkept hb hx, hty⟩

theorem nextSurface_addBuiltins (bs : List Builtin) :
    ∀ (t : TypeTable) (r : Registry), (addBuiltins t r bs).2.nextSurface = r.nextSurface := by
  induction bs with
  | nil => exact fun t r => rfl
  | cons b bs ih => exact fun t r => ih _ r.freshIr.2

/-- Nothing has a type at an identity that is not given out yet. -/
def Below (t : TypeTable) (n : Nat) : Prop := ∀ id, n ≤ id.val.toNat → t.get? id = none

theorem Below.addFresh {r : Registry} (h : t.Below r.nextIr) (hroom : r.nextIr < 2 ^ 32)
    (node : SurfaceId) (name : String) {ty : Ty} (hty : ty.ref = r.freshIr.1) :
    (t.addBuiltin node name ty).Below r.freshIr.2.nextIr := by
  intro id hid
  rw [get?_addBuiltin, if_neg]
  · exact h id (Nat.le_of_succ_le hid)
  · rintro rfl
    rw [hty, toNat_freshIr hroom] at hid
    exact Nat.not_succ_le_self _ hid

theorem based_addBuiltins : ∀ (rest : List Builtin) {bs : List Builtin} {t : TypeTable}
    {r : Registry}, Based bs t → t.Below r.nextIr → ((bs ++ rest).map (·.node)).Nodup →
    (addBuiltins t r rest).2.nextIr < 2 ^ 32 →
    Based (bs ++ rest) (addBuiltins t r rest).1 ∧
      (addBuiltins t r rest).1.Below (addBuiltins t r rest).2.nextIr
  | [], bs, t, r, h, hbelow, _, _ => by
    rw [List.append_nil]
    exact ⟨h, hbelow⟩
  | b :: rest, bs, t, r, h, hbelow, hn, hroom => by
    have hlt : r.nextIr < 2 ^ 32 := Nat.lt_of_le_of_lt (nextIr_le_addBuiltins (b :: rest) t r) hroom
    have hnode : ∀ c ∈ bs, c.node ≠ b.node := by
      intro c hc he
      rw [List.map_append, List.map_cons] at hn
      exact (List.nodup_append.1 hn).2.2 _ (List.mem_map_of_mem hc) _ (List.mem_cons_self ..) he
    have hfresh : t.get? r.freshIr.1 = none := hbelow _ (Nat.le_of_eq (toNat_freshIr hlt).symm)
    rw [List.append_cons] at hn ⊢
    exact based_addBuiltins rest (h.addPrimitive hnode hfresh)
      (hbelow.addFresh hlt _ _ (ref_ofPrimitive ..)) hn hroom

end TypeTable

/-! ## Sessions -/

namespace Bindings

theorem builtins_foldl {α : Type} {f : Bindings → α → Bindings}
    (h : ∀ b a, (f b a).builtins = b.builtins) :
    ∀ (l : List α) (b : Bindings), (l.foldl f b).builtins = b.builtins
  | [], _ => rfl
  | a :: l, b => (builtins_foldl h l (f b a)).trans (h b a)

/-- A unit declares no primitive types. -/
theorem builtins_ofUnit (b : Bindings) (u : CompilationUnit) :
    (b.ofUnit u).builtins = b.builtins := by
  have hpaths : ∀ b : Bindings, (b.addTypePaths u.program).builtins = b.builtins := by
    refine builtins_foldl ?_ _
    intro b a
    dsimp only
    split
    · rfl
    · split <;> rfl
  have hitems : ∀ b : Bindings, (b.addItems u.program.items).builtins = b.builtins := by
    refine builtins_foldl ?_ _
    intro b i
    dsimp only
    split <;> rfl
  have hunit : (b.addUnit u).builtins = b.builtins := by
    refine (builtins_foldl (f := define) (fun _ _ => rfl) _ _).trans ?_
    refine (builtins_foldl (f := fun b (n : Binding) => b.bindType n.use n.decl)
      (fun _ _ => rfl) _ _).trans ?_
    exact builtins_foldl (f := fun b (n : Binding) => b.bindName n.use n.decl) (fun _ _ => rfl) _ _
  exact (hpaths _).trans ((hitems _).trans hunit)

end Bindings

namespace Session

variable {u : CompilationUnit}

theorem bindings_builtins (u : CompilationUnit) :
    (bindings u).builtins = (Bindings.declare (entered u) Primitive.all).1 :=
  Bindings.builtins_ofUnit _ u

/-- Before the first check the table has the declared primitive types and unit. -/
theorem based (hroom : (ofUnit u).HasRoom) :
    (ofUnit u).types.Based (ofUnit u).scope.bindings.builtins := by
  show TypeTable.Based (bindings u).builtins
    (TypeTable.withBuiltins (bindings u).builtins (declared u)).1
  have hbs := bindings_builtins u
  have hdecl : (Bindings.declare (entered u) Primitive.all).2 = declared u := rfl
  have hkeep := TypeTable.nextSurface_addBuiltins (bindings u).builtins .empty (declared u)
  have hsurface :
      (TypeTable.addBuiltins .empty (declared u) (bindings u).builtins).2.nextSurface < 2 ^ 32 :=
    Nat.lt_of_succ_lt hroom.1
  have hir : (TypeTable.addBuiltins .empty (declared u) (bindings u).builtins).2.nextIr < 2 ^ 32 :=
    Nat.lt_of_succ_lt hroom.2
  have hdeclared : (Bindings.declare (entered u) Primitive.all).2.nextSurface < 2 ^ 32 := by
    rw [hdecl, ← hkeep]
    exact hsurface
  have hnodup : ((bindings u).builtins.map (·.node)).Nodup := by
    rw [hbs]
    exact Bindings.declare_nodup _ _ hdeclared
  obtain ⟨hall, hbelow⟩ := TypeTable.based_addBuiltins (bindings u).builtins
    (r := declared u) TypeTable.based_empty (fun _ _ => rfl) hnodup hir
  refine hall.addUnit ?_ (hbelow _ (Nat.le_of_eq (TypeTable.toNat_freshIr hir).symm))
  intro b hb he
  rw [List.nil_append, hbs] at hb
  have hlt := (Bindings.declare_node _ _ hdeclared hb).2
  have hnode := (congrArg (·.val.toNat) he).trans (Registry.toNat_freshSurface hsurface)
  rw [hnode, hkeep, hdecl] at hlt
  exact Nat.lt_irrefl _ hlt

end Session

end MiddleEnd
