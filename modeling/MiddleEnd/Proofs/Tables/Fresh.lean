/-
  The identities given out for primitive types and for unit. As long as 32 bits hold them all
  (`Registry.HasRoom`), none of them is the identity of a node of the program
  (`Session.fresh_of_get?`); nodes that a session looks up always are
  (`Session.mem_ids_of_node?`).
-/
import Mathlib.Algebra.Group.Nat.Defs
import MiddleEnd.Session
import MiddleEnd.Proofs.Syntax.Ids

namespace MiddleEnd

open Std

/-- All identities given out so far fit into 32 bits. Counting beyond them is an overflow, so a unit
whose registry has no room has no session. -/
def Registry.HasRoom (r : Registry) : Prop := r.nextSurface < 2 ^ 32 ∧ r.nextIr < 2 ^ 32

instance (r : Registry) : Decidable r.HasRoom := inferInstanceAs (Decidable (_ ∧ _))

/-! ## Entering nodes -/

namespace Registry

theorem node?_setNode (r : Registry) (site other : Site) (id : IrId) :
    (r.setNode site id).node? other = if other = site then some id else r.node? other := by
  simp only [node?, setNode, TreeMap.getElem?_insert, Std.compare_eq_iff_eq]
  simp [eq_comm]

theorem node?_enter (r : Registry) (i : Identity) (l : Location) (site : Site) :
    (r.enter i l).node? site = if site = i.site then some i.ir else r.node? site :=
  node?_setNode r i.site site i.ir

theorem enterAll_cons (r : Registry) (n : Identity × Location) (ns : List (Identity × Location)) :
    r.enterAll (n :: ns) = (r.enter n.1 n.2).enterAll ns := rfl

theorem node?_enterAll {site : Site} {id : IrId} (ns : List (Identity × Location)) :
    ∀ r : Registry, (r.enterAll ns).node? site = some id →
      r.node? site = some id ∨ ∃ n ∈ ns, n.1.site = site ∧ n.1.ir = id := by
  induction ns with
  | nil => exact fun r h => .inl h
  | cons n ns ih =>
    intro r h
    rw [enterAll_cons] at h
    rcases ih _ h with h | ⟨m, hm, he⟩
    · rw [node?_enter] at h
      split at h
      · exact .inr ⟨n, List.mem_cons_self .., Eq.symm (by assumption), Option.some.inj h⟩
      · exact .inl h
    · exact .inr ⟨m, List.mem_cons_of_mem _ hm, he⟩

theorem nextIr_le_enter (r : Registry) (i : Identity) (l : Location) :
    r.nextIr ≤ (r.enter i l).nextIr :=
  Nat.le_max_left ..

theorem lt_nextIr_enter (r : Registry) (i : Identity) (l : Location) :
    i.ir.val.toNat < (r.enter i l).nextIr :=
  Nat.lt_of_lt_of_le (Nat.lt_succ_self _) (Nat.le_max_right ..)

theorem nextIr_le_enterAll (ns : List (Identity × Location)) :
    ∀ r : Registry, r.nextIr ≤ (r.enterAll ns).nextIr := by
  induction ns with
  | nil => exact fun r => Nat.le_refl _
  | cons n ns ih => exact fun r => Nat.le_trans (nextIr_le_enter r n.1 n.2) (ih _)

/-- What is given out later lies above all nodes entered. -/
theorem lt_nextIr_enterAll {n : Identity × Location} (ns : List (Identity × Location)) :
    ∀ r : Registry, n ∈ ns → n.1.ir.val.toNat < (r.enterAll ns).nextIr := by
  induction ns with
  | nil => exact fun r h => absurd h (List.not_mem_nil)
  | cons m ns ih =>
    intro r h
    rw [enterAll_cons]
    rcases List.mem_cons.1 h with rfl | h
    · exact Nat.lt_of_lt_of_le (lt_nextIr_enter r n.1 n.2) (nextIr_le_enterAll ns _)
    · exact ih _ h

end Registry

/-! ## Primitive types -/

theorem Bindings.declare_nodes (ps : List Primitive) :
    ∀ r : Registry, (declare r ps).2.nodes = r.nodes ∧ (declare r ps).2.nextIr = r.nextIr := by
  induction ps with
  | nil => exact fun r => ⟨rfl, rfl⟩
  | cons p ps ih => exact fun r => ih r.freshSurface.2

namespace TypeTable

/-- Where the types of the primitive types and of unit are recorded. -/
def builtinRefs (t : TypeTable) : List IrId := t.builtins.map fun b => b.2.ref

theorem builtinRefs_addBuiltin (t : TypeTable) (node : SurfaceId) (name : String) (ty : Ty) :
    (t.addBuiltin node name ty).builtinRefs = t.builtinRefs ++ [ty.ref] :=
  List.map_append ..

theorem get?_addBuiltin (t : TypeTable) (node : SurfaceId) (name : String) (ty : Ty)
    (other : IrId) : (t.addBuiltin node name ty).get? other =
      if other = ty.ref then some ty else t.get? other := by
  simp only [get?, addBuiltin, TreeMap.getElem?_insert, Std.compare_eq_iff_eq]
  simp [eq_comm]

theorem addBuiltins_nodes (bs : List Builtin) :
    ∀ (t : TypeTable) (r : Registry), (addBuiltins t r bs).2.nodes = r.nodes := by
  induction bs with
  | nil => exact fun t r => rfl
  | cons b bs ih => exact fun t r => ih _ r.freshIr.2

theorem nextIr_le_addBuiltins (bs : List Builtin) :
    ∀ (t : TypeTable) (r : Registry), r.nextIr ≤ (addBuiltins t r bs).2.nextIr := by
  induction bs with
  | nil => exact fun t r => Nat.le_refl _
  | cons b bs ih => exact fun t r => Nat.le_trans (Nat.le_succ _) (ih _ r.freshIr.2)

/-- An identity given out while there is room is the number that was next. -/
theorem toNat_freshIr {r : Registry} (h : r.nextIr < 2 ^ 32) :
    r.freshIr.1.val.toNat = r.nextIr :=
  UInt32.toNat_ofNat_of_lt' h

theorem ref_ofPrimitive (id : IrId) (p : Primitive) : (Ty.ofPrimitive id p).ref = id := by
  cases p <;> rfl

theorem get?_addBuiltins {id : IrId} (bs : List Builtin) :
    ∀ (t : TypeTable) (r : Registry), (addBuiltins t r bs).2.nextIr < 2 ^ 32 →
      (addBuiltins t r bs).1.get? id ≠ none → t.get? id ≠ none ∨ r.nextIr ≤ id.val.toNat := by
  induction bs with
  | nil => exact fun t r _ h => .inl h
  | cons b bs ih =>
    intro t r hroom h
    have hlt : r.nextIr < 2 ^ 32 := Nat.lt_of_le_of_lt (nextIr_le_addBuiltins (b :: bs) t r) hroom
    rcases ih _ _ hroom h with h | h
    · rw [get?_addBuiltin] at h
      split at h
      · rename_i he
        refine .inr (Nat.le_of_eq ?_)
        rw [he, ref_ofPrimitive]
        exact (toNat_freshIr hlt).symm
      · exact .inl h
    · exact .inr (Nat.le_trans (Nat.le_succ _) h)

end TypeTable

/-! ## Sessions -/

namespace Session

/-- There was room for the identities of the primitive types of a unit. -/
def HasRoom (s : Session) : Prop := s.scope.registry.HasRoom

instance (s : Session) : Decidable s.HasRoom := inferInstanceAs (Decidable (Registry.HasRoom _))

variable (u : CompilationUnit)

/-- The registry once all nodes of the program are entered. -/
def entered : Registry := Registry.empty.enterAll u.program.nodes

/-- The registry once the primitive types are declared as well. -/
def declared : Registry := (Bindings.withBuiltins (entered u)).2

theorem declared_nodes : (declared u).nodes = (entered u).nodes ∧
    (declared u).nextIr = (entered u).nextIr :=
  Bindings.declare_nodes Primitive.all (entered u)

/-- The bindings of the unit, with all primitive types declared. -/
def bindings : Bindings := (Bindings.withBuiltins (entered u)).1.ofUnit u

theorem ofUnit_types :
    (ofUnit u).types = (TypeTable.withBuiltins (bindings u).builtins (declared u)).1 := rfl

theorem ofUnit_registry : (ofUnit u).scope.registry =
    (TypeTable.withBuiltins (bindings u).builtins (declared u)).2 := rfl

theorem ofUnit_program : (ofUnit u).program = u.program := rfl

variable {u}

theorem node?_ofUnit (site : Site) :
    (ofUnit u).scope.registry.node? site = (entered u).node? site := by
  have hnodes : (ofUnit u).scope.registry.nodes = (entered u).nodes :=
    (TypeTable.addBuiltins_nodes _ _ _).trans (declared_nodes u).1
  unfold Registry.node?
  rw [hnodes]

/-- What is found at a site is a node of the program that stands there. -/
theorem mem_nodes_of_node? {site : Site} {id : IrId}
    (h : (ofUnit u).scope.registry.node? site = some id) :
    ∃ n ∈ u.program.nodes, n.1.site = site ∧ n.1.ir = id := by
  rw [node?_ofUnit] at h
  rcases Registry.node?_enterAll _ Registry.empty h with h | h
  · cases h
  · exact h

/-- Nodes that surface nodes stand for are nodes of the program. -/
theorem mem_ids_of_node? {site : Site} {id : IrId}
    (h : (ofUnit u).scope.registry.node? site = some id) : id ∈ u.program.ids := by
  obtain ⟨n, hn, -, rfl⟩ := mem_nodes_of_node? h
  exact Program.mem_ids.2 ⟨n, hn, rfl⟩

/-- What has a type before any check is no node of the program. -/
theorem fresh_of_get? (hroom : (ofUnit u).HasRoom) {id : IrId}
    (h : (ofUnit u).types.get? id ≠ none) : id ∉ u.program.ids := by
  intro hid
  obtain ⟨n, hn, rfl⟩ := Program.mem_ids.1 hid
  have hlt : n.1.ir.val.toNat < (entered u).nextIr :=
    Registry.lt_nextIr_enterAll _ Registry.empty hn
  rw [← (declared_nodes u).2] at hlt
  have hroom : (TypeTable.addBuiltins .empty (declared u) (bindings u).builtins).2.nextIr + 1
      < 2 ^ 32 := hroom.2
  have hle := TypeTable.nextIr_le_addBuiltins (bindings u).builtins .empty (declared u)
  rw [ofUnit_types, TypeTable.withBuiltins, TypeTable.get?_addBuiltin] at h
  split at h
  · rename_i he
    have hunit : n.1.ir.val.toNat =
        (TypeTable.addBuiltins .empty (declared u) (bindings u).builtins).2.nextIr := by
      rw [he]
      exact TypeTable.toNat_freshIr (Nat.lt_of_succ_lt hroom)
    omega
  · rcases TypeTable.get?_addBuiltins _ _ _ (Nat.lt_of_succ_lt hroom) h with h | h
    · exact h rfl
    · omega

/-- No node of the program has a type before any check. -/
theorem get?_eq_none_of_mem_ids (hroom : (ofUnit u).HasRoom) {id : IrId} (h : id ∈ u.program.ids) :
    (ofUnit u).types.get? id = none :=
  Classical.byContradiction fun hne => fresh_of_get? hroom hne h

end Session

end MiddleEnd
