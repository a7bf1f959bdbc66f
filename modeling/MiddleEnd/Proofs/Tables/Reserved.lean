/-
  The identities that a session reserves for the primitive types and for unit. They are numbered one
  after the other, from the first number on that no node of the program has: 14 of either kind. So
  where 15 more numbers fit behind those of the program, all of them differ, no counter runs over,
  and none is the identity of anything that stands in the program (`Session.reserves`).
-/
import MiddleEnd.Proofs.Syntax.Carried
import MiddleEnd.Proofs.Syntax.Samples
import MiddleEnd.Proofs.Tables.Numbering

namespace MiddleEnd

/-! ## Numbers given out -/

theorem Bindings.declare_numbers (ps : List Primitive) :
    ∀ r : Registry, (declare r ps).2.nextSurface < 2 ^ 32 →
      (declare r ps).1.map (·.node.val.toNat) = List.range' r.nextSurface ps.length := by
  induction ps with
  | nil => exact fun _ _ => rfl
  | cons p ps ih =>
    intro r hroom
    have hlt : r.nextSurface < 2 ^ 32 := by
      rw [nextSurface_declare, List.length_cons] at hroom
      omega
    exact List.cons_eq_cons.2 ⟨Registry.toNat_freshSurface hlt, ih r.freshSurface.2 hroom⟩

namespace TypeTable

theorem addBuiltins_numbers (bs : List Builtin) :
    ∀ (t : TypeTable) (r : Registry), (addBuiltins t r bs).2.nextIr < 2 ^ 32 →
      (addBuiltins t r bs).1.builtinRefs.map (·.val.toNat) =
        t.builtinRefs.map (·.val.toNat) ++ List.range' r.nextIr bs.length := by
  induction bs with
  | nil => exact fun t _ _ => (List.append_nil _).symm
  | cons b bs ih =>
    intro t r hroom
    have hlt : r.nextIr < 2 ^ 32 := by
      rw [nextIr_addBuiltins, List.length_cons] at hroom
      omega
    refine (ih _ r.freshIr.2 hroom).trans ?_
    rw [builtinRefs_addBuiltin, ref_ofPrimitive, List.map_append, List.append_assoc,
      List.length_cons, List.range'_succ]
    exact congrArg (_ ++ ·) (List.cons_eq_cons.2 ⟨toNat_freshIr hlt, rfl⟩)

theorem names_addBuiltins (bs : List Builtin) : ∀ (t : TypeTable) (r : Registry),
    (addBuiltins t r bs).1.builtins.map (·.1) = t.builtins.map (·.1) ++ bs.map (·.name) := by
  induction bs with
  | nil => exact fun t _ => (List.append_nil _).symm
  | cons b bs ih =>
    intro t r
    refine (ih _ r.freshIr.2).trans ?_
    rw [addBuiltin, List.map_append, List.append_assoc]
    rfl

theorem returns_addBuiltins (bs : List Builtin) :
    ∀ (t : TypeTable) (r : Registry), (addBuiltins t r bs).1.returns = t.returns := by
  induction bs with
  | nil => exact fun _ _ => rfl
  | cons b bs ih => exact fun t r => ih _ r.freshIr.2

theorem builtinId?_addBuiltins_of_not_mem {node : SurfaceId} (bs : List Builtin) :
    ∀ (t : TypeTable) (r : Registry), node ∉ bs.map (·.node) →
      (addBuiltins t r bs).1.builtinId? node = t.builtinId? node := by
  induction bs with
  | nil => exact fun _ _ _ => rfl
  | cons b bs ih =>
    intro t r h
    rw [List.map_cons, List.mem_cons, not_or] at h
    refine (ih _ r.freshIr.2 h.2).trans ?_
    rw [builtinId?_addBuiltin, if_neg h.1]

/-- The identities are found at the declarations, in their order. -/
theorem builtinId?_addBuiltins_eq (bs : List Builtin) :
    ∀ (t : TypeTable) (r : Registry), (bs.map (·.node)).Nodup →
      (addBuiltins t r bs).1.builtinRefs.map some = t.builtinRefs.map some ++
        (bs.map (·.node)).map (addBuiltins t r bs).1.builtinId? := by
  induction bs with
  | nil => exact fun t _ _ => (List.append_nil _).symm
  | cons b bs ih =>
    intro t r h
    obtain ⟨hb, hbs⟩ := List.nodup_cons.1 h
    have hhere : (addBuiltins t r (b :: bs)).1.builtinId? b.node = some r.freshIr.1 := by
      refine (builtinId?_addBuiltins_of_not_mem bs _ r.freshIr.2 hb).trans ?_
      rw [builtinId?_addBuiltin, if_pos rfl, ref_ofPrimitive]
      rfl
    rw [List.map_cons, List.map_cons, hhere]
    refine (ih _ r.freshIr.2 hbs).trans ?_
    rw [builtinRefs_addBuiltin, ref_ofPrimitive, List.map_append, List.append_assoc]
    rfl

end TypeTable

namespace Registry

/-- The counters stay below a bound that all nodes stay below. -/
theorem enterAll_le {n : Nat} (ns : List (Identity × Location)) :
    ∀ r : Registry, r.nextSurface ≤ n → r.nextIr ≤ n →
      (∀ m ∈ ns, m.1.surface.val.toNat < n ∧ m.1.ir.val.toNat < n) →
      (r.enterAll ns).nextSurface ≤ n ∧ (r.enterAll ns).nextIr ≤ n := by
  induction ns with
  | nil => exact fun r hsurface hir _ => ⟨hsurface, hir⟩
  | cons m ns ih =>
    intro r hsurface hir h
    obtain ⟨hm, hns⟩ := List.forall_mem_cons.1 h
    exact ih _ (Nat.max_le.2 ⟨hsurface, hm.1⟩) (Nat.max_le.2 ⟨hir, hm.2⟩) hns

end Registry

/-! ## Sessions -/

namespace Session

/-- The surface identity that unit gets. -/
def unitNode (u : CompilationUnit) : SurfaceId :=
  (TypeTable.addBuiltins .empty (declared u) (bindings u).builtins).2.freshSurface.1

/-- The surface identities of the primitive types and of unit. -/
def reservedSurfaces (u : CompilationUnit) : List SurfaceId :=
  (ofUnit u).scope.bindings.builtins.map (·.node) ++ [unitNode u]

/-- What a session reserves for the thirteen primitive types and for unit. -/
structure Reserves (u : CompilationUnit) : Prop where
  /-- No counter ran over. -/
  room : (ofUnit u).HasRoom
  names : (ofUnit u).types.builtins.map (·.1) = Primitive.all.map (·.name) ++ [Ty.unitName]
  /-- The table finds the identity of each type at its surface identity. -/
  paired : (reservedSurfaces u).map (ofUnit u).types.builtinId? =
    (ofUnit u).types.builtinRefs.map some
  surfaces_nodup : (reservedSurfaces u).Nodup
  refs_nodup : (ofUnit u).types.builtinRefs.Nodup
  surfaces_apart : ∀ i, u.program.Carries i → i.surface ∉ reservedSurfaces u
  refs_apart : ∀ i, u.program.Carries i → i.ir ∉ (ofUnit u).types.builtinRefs

variable {u : CompilationUnit}

theorem builtinRefs_ofUnit (u : CompilationUnit) : (ofUnit u).types.builtinRefs =
    (TypeTable.addBuiltins .empty (declared u) (bindings u).builtins).1.builtinRefs ++
      [(TypeTable.addBuiltins .empty (declared u) (bindings u).builtins).2.freshIr.1] :=
  TypeTable.builtinRefs_addBuiltin ..

/-- The surface identities reserved are the next 14 numbers. -/
theorem reservedSurfaces_numbers (hroom : (ofUnit u).HasRoom) :
    (reservedSurfaces u).map (·.val.toNat) = List.range' (entered u).nextSurface 14 := by
  have hnext : (declared u).nextSurface = (entered u).nextSurface + 13 :=
    Bindings.nextSurface_declare Primitive.all (entered u)
  have hlt := (room_of_hasRoom hroom).1
  have hbuiltins : (ofUnit u).scope.bindings.builtins.map (·.node.val.toNat) =
      List.range' (entered u).nextSurface 13 := by
    show (bindings u).builtins.map _ = _
    rw [bindings_builtins]
    exact Bindings.declare_numbers Primitive.all (entered u)
      (show (declared u).nextSurface < 2 ^ 32 by omega)
  have hunit : (unitNode u).val.toNat = (entered u).nextSurface + 13 := by
    rw [unitNode, Registry.toNat_freshSurface] <;>
      rw [TypeTable.nextSurface_addBuiltins, hnext]
    omega
  rw [reservedSurfaces, List.map_append, List.map_map, List.map_singleton, hunit,
    List.range'_concat]
  exact congrArg₂ (· ++ ·) hbuiltins rfl

/-- The identities of the checked tree that are reserved are the next 14 numbers. -/
theorem builtinRefs_numbers (hroom : (ofUnit u).HasRoom) :
    (ofUnit u).types.builtinRefs.map (·.val.toNat) = List.range' (entered u).nextIr 14 := by
  have hnext : (TypeTable.addBuiltins .empty (declared u) (bindings u).builtins).2.nextIr =
      (entered u).nextIr + 13 := by
    rw [TypeTable.nextIr_addBuiltins, length_builtins, (declared_nodes u).2]
  have hlt := (room_of_hasRoom hroom).2
  rw [builtinRefs_ofUnit, List.map_append, List.map_singleton,
    TypeTable.addBuiltins_numbers _ _ _ (by omega), TypeTable.toNat_freshIr (by omega), hnext,
    length_builtins, (declared_nodes u).2, List.range'_concat]
  rfl

theorem surface_mem_of_carries {i : Identity} (h : u.program.Carries i) :
    i.surface ∈ u.program.surfaces := by
  obtain ⟨l, hl⟩ := Program.mem_nodes_iff_carries.2 h
  exact List.mem_map_of_mem hl

theorem ir_mem_of_carries {i : Identity} (h : u.program.Carries i) : i.ir ∈ u.program.ids := by
  obtain ⟨l, hl⟩ := Program.mem_nodes_iff_carries.2 h
  exact Program.mem_ids.2 ⟨_, hl, rfl⟩

theorem hasRoom_of_carries (h : ∀ i, u.program.Carries i →
    i.surface.val.toNat + 15 < 2 ^ 32 ∧ i.ir.val.toNat + 15 < 2 ^ 32) : (ofUnit u).HasRoom := by
  have hentered : (entered u).nextSurface ≤ 2 ^ 32 - 15 ∧ (entered u).nextIr ≤ 2 ^ 32 - 15 := by
    refine Registry.enterAll_le _ _ (by decide) (by decide) fun m hm => ?_
    have hm := h m.1 (Program.mem_nodes_iff_carries.1 ⟨m.2, hm⟩)
    omega
  have hdeclared : (declared u).nextSurface = (entered u).nextSurface + 13 :=
    Bindings.nextSurface_declare Primitive.all (entered u)
  show (TypeTable.addBuiltins .empty (declared u) (bindings u).builtins).2.nextSurface + 1
      < 2 ^ 32 ∧
    (TypeTable.addBuiltins .empty (declared u) (bindings u).builtins).2.nextIr + 1 < 2 ^ 32
  rw [TypeTable.nextSurface_addBuiltins, TypeTable.nextIr_addBuiltins, length_builtins,
    (declared_nodes u).2, hdeclared]
  omega

theorem paired_of_nodup (h : (reservedSurfaces u).Nodup) :
    (reservedSurfaces u).map (ofUnit u).types.builtinId? =
      (ofUnit u).types.builtinRefs.map some := by
  obtain ⟨hdistinct, _, hunit⟩ := List.nodup_append.1 h
  have hnodes : ((bindings u).builtins.map (·.node)).Nodup := hdistinct
  have hid : ∀ n, (ofUnit u).types.builtinId? n = if n = unitNode u then
      some (TypeTable.addBuiltins .empty (declared u) (bindings u).builtins).2.freshIr.1 else
      (TypeTable.addBuiltins .empty (declared u) (bindings u).builtins).1.builtinId? n :=
    fun n => TypeTable.builtinId?_addBuiltin ..
  rw [builtinRefs_ofUnit, List.map_append, TypeTable.builtinId?_addBuiltins_eq _ _ _ hnodes,
    reservedSurfaces, List.map_append, List.map_singleton, hid, if_pos rfl]
  refine congrArg (· ++ [some _]) (List.map_congr_left fun n hn => ?_)
  rw [hid, if_neg (hunit n hn _ (List.mem_singleton_self _))]

/-- The table has a type for every primitive type, and one for unit. -/
theorem builtins_names (u : CompilationUnit) : (ofUnit u).types.builtins.map (·.1) =
    Primitive.all.map (·.name) ++ [Ty.unitName] := by
  refine (List.map_append ..).trans (congrArg (· ++ _) ?_)
  refine (TypeTable.names_addBuiltins (bindings u).builtins .empty (declared u)).trans ?_
  rw [bindings_builtins, ← Bindings.declare_primitives Primitive.all (entered u), List.map_map]
  rfl

/-- No function is being checked yet. -/
theorem returns_ofUnit (u : CompilationUnit) : (ofUnit u).types.returns = [] :=
  TypeTable.returns_addBuiltins (bindings u).builtins .empty (declared u)

/-- Where 15 more numbers of either kind fit behind all identities that stand in the program, what
is reserved for primitive types and unit is kept apart from them and from each other. -/
theorem reserves (u : CompilationUnit) (h : ∀ i, u.program.Carries i →
    i.surface.val.toNat + 15 < 2 ^ 32 ∧ i.ir.val.toNat + 15 < 2 ^ 32) : Reserves u := by
  have hroom := hasRoom_of_carries h
  have hsurfaces := reservedSurfaces_numbers hroom
  have hrefs := builtinRefs_numbers hroom
  have hnodup : (reservedSurfaces u).Nodup := by
    refine List.Nodup.of_map (·.val.toNat) ?_
    rw [hsurfaces]
    exact List.nodup_range'
  refine ⟨hroom, builtins_names u, paired_of_nodup hnodup, hnodup, ?_, ?_, ?_⟩
  · refine List.Nodup.of_map (·.val.toNat) ?_
    rw [hrefs]
    exact List.nodup_range'
  · intro i hi hm
    have hlt := lt_nextSurface (surface_mem_of_carries hi)
    have hnum := List.mem_map_of_mem (f := fun n : SurfaceId => n.val.toNat) hm
    rw [hsurfaces, List.mem_range'_1] at hnum
    omega
  · intro i hi hm
    have hlt := lt_nextIr (ir_mem_of_carries hi)
    have hnum := List.mem_map_of_mem (f := fun n : IrId => n.val.toNat) hm
    rw [hrefs, List.mem_range'_1] at hnum
    omega

open Samples in
/-- The greatest number in `topmost` is 4294967280, behind which 15 more fit into 32 bits. -/
theorem reserves_topmost : (∀ i, topmost.program.Carries i →
    i.surface.val.toNat + 15 < 2 ^ 32 ∧ i.ir.val.toNat + 15 < 2 ^ 32) ∧ Reserves topmost := by
  have hnodes : ∀ n ∈ topmost.program.nodes,
      n.1.surface.val.toNat + 15 < 2 ^ 32 ∧ n.1.ir.val.toNat + 15 < 2 ^ 32 := by decide +kernel
  have hcarries : ∀ i, topmost.program.Carries i →
      i.surface.val.toNat + 15 < 2 ^ 32 ∧ i.ir.val.toNat + 15 < 2 ^ 32 := by
    intro i hi
    obtain ⟨l, hl⟩ := Program.mem_nodes_iff_carries.2 hi
    exact hnodes _ hl
  exact ⟨hcarries, reserves topmost hcarries⟩

open Samples in
/-- With one number less behind those of the program, a counter runs over. -/
example : ¬ (ofUnit (unit [function 4294967281 1 "f" none [] none] [] [])).HasRoom := by
  decide +kernel

end Session

end MiddleEnd
