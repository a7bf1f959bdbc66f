/-
  Renumberings that keep the nodes of one program apart. Such a renumbering may map other
  identities anyhow. It agrees on the program with one that keeps all identities apart and maps the
  identities given out after the program's own to those given out after the renumbered program's
  (`CompilationUnit.exists_faithful`).
-/
import Mathlib.Data.Fintype.Sum
import MiddleEnd.Proofs.Tables.Renumber

namespace MiddleEnd

/-! ## Numbers -/

instance finite_uint32 : Finite UInt32 := .of_injective UInt32.toFin fun _ _ => UInt32.toFin_inj.1

/-- The map on the numbers below `n`, and the numbers from `n` on moved to those from `n'` on. -/
def moveAbove (f : UInt32 → UInt32) (n n' : Nat) (x : UInt32) : UInt32 :=
  if x.toNat < n then f x else .ofNat (n' + (x.toNat - n))

section

variable {f : UInt32 → UInt32} {s : Set UInt32} {n n' k : Nat}

theorem toNat_ofNat_of_room {i : Nat} (hroom : n + k ≤ 2 ^ 32) (hi : i < k) :
    (UInt32.ofNat (n + i)).toNat = n + i :=
  UInt32.toNat_ofNat_of_lt' (Nat.lt_of_lt_of_le (Nat.add_lt_add_left hi n) hroom)

theorem toNat_moveAbove {x : UInt32} (hx : n ≤ x.toNat) (hk : x.toNat < n + k)
    (hroom : n' + k ≤ 2 ^ 32) : (moveAbove f n n' x).toNat = n' + (x.toNat - n) := by
  unfold moveAbove
  rw [if_neg (by omega)]
  exact toNat_ofNat_of_room hroom (by omega)

theorem moveAbove_injOn (hf : Set.InjOn f s) (hs : ∀ x ∈ s, x.toNat < n)
    (hs' : ∀ x ∈ s, (f x).toNat < n') (hroom : n' + k ≤ 2 ^ 32) :
    Set.InjOn (moveAbove f n n') (s ∪ {x | n ≤ x.toNat ∧ x.toNat < n + k}) := by
  have hbelow : ∀ x ∈ s, moveAbove f n n' x = f x := fun x hx => if_pos (hs x hx)
  rintro x (hx | ⟨hx, hxk⟩) y (hy | ⟨hy, hyk⟩) h
  · rw [hbelow x hx, hbelow y hy] at h
    exact hf hx hy h
  · have hlt := hs' x hx
    have hge := toNat_moveAbove (f := f) hy hyk hroom
    rw [← h, hbelow x hx] at hge
    omega
  · have hlt := hs' y hy
    have hge := toNat_moveAbove (f := f) hx hxk hroom
    rw [h, hbelow y hy] at hge
    omega
  · have hx' := toNat_moveAbove (f := f) hx hxk hroom
    have hy' := toNat_moveAbove (f := f) hy hyk hroom
    rw [h] at hx'
    exact UInt32.toNat_inj.1 (by omega)

/-- A map of numbers below `n` to numbers below `n'` extends to all numbers, keeping them apart,
such that the `k` numbers from `n` on go to the `k` numbers from `n'` on. -/
theorem exists_extension (hf : Set.InjOn f s) (hs : ∀ x ∈ s, x.toNat < n)
    (hs' : ∀ x ∈ s, (f x).toNat < n') (hroom : n + k ≤ 2 ^ 32) (hroom' : n' + k ≤ 2 ^ 32) :
    ∃ g : UInt32 → UInt32, Function.Injective g ∧ (∀ x ∈ s, f x = g x) ∧
      ∀ i < k, g (.ofNat (n + i)) = .ofNat (n' + i) := by
  have := Fintype.ofFinite UInt32
  obtain ⟨g, hg⟩ := Set.MapsTo.exists_equiv_extend_of_card_eq (t := Finset.univ)
    Finset.card_univ.symm (fun _ _ => Finset.mem_coe.2 (Finset.mem_univ _))
    (moveAbove_injOn hf hs hs' hroom')
  refine ⟨fun x => g x, fun x y h => g.injective (Subtype.ext h), ?_, ?_⟩
  · intro x hx
    exact ((hg x (.inl hx)).trans (if_pos (hs x hx))).symm
  · intro i hi
    have hx := toNat_ofNat_of_room hroom hi
    refine (hg _ (.inr (by rw [Set.mem_ofPred_eq, hx]; omega))).trans ?_
    rw [← UInt32.toNat_inj, toNat_moveAbove (by omega) (by omega) hroom', hx,
      toNat_ofNat_of_room hroom' hi]
    omega

/-- The same for identities that wrap a number. -/
theorem exists_extension_of_equiv {α : Type} (e : α ≃ UInt32) {f : α → α} {s : Set α}
    (hf : Set.InjOn f s) (hs : ∀ a ∈ s, (e a).toNat < n) (hs' : ∀ a ∈ s, (e (f a)).toNat < n')
    (hroom : n + k ≤ 2 ^ 32) (hroom' : n' + k ≤ 2 ^ 32) :
    ∃ g : α → α, Function.Injective g ∧ (∀ a ∈ s, f a = g a) ∧
      ∀ i < k, g (e.symm (.ofNat (n + i))) = e.symm (.ofNat (n' + i)) := by
  have hinj : Set.InjOn (fun x => e (f (e.symm x))) (Set.preimage e.symm s) := by
    intro x hx y hy h
    exact e.symm.injective (hf hx hy (e.injective h))
  have hbelow : ∀ x ∈ Set.preimage e.symm s, x.toNat < n := by
    intro x hx
    have hlt := hs _ hx
    rwa [e.apply_symm_apply] at hlt
  obtain ⟨g, hg, hsame, hnew⟩ :=
    exists_extension hinj hbelow (fun x hx => hs' (e.symm x) hx) hroom hroom'
  refine ⟨fun a => e.symm (g (e a)), ?_, ?_, ?_⟩
  · exact e.symm.injective.comp (hg.comp e.injective)
  · intro a ha
    have h := hsame (e a) (by rwa [Set.mem_preimage, e.symm_apply_apply])
    rw [e.symm_apply_apply] at h
    dsimp only
    rw [← h, e.symm_apply_apply]
  · intro i hi
    dsimp only
    rw [e.apply_symm_apply, hnew i hi]

end

/-! ## Counters -/

theorem Bindings.nextSurface_declare (ps : List Primitive) :
    ∀ r : Registry, (declare r ps).2.nextSurface = r.nextSurface + ps.length := by
  induction ps with
  | nil => exact fun r => rfl
  | cons p ps ih =>
    intro r
    exact (ih r.freshSurface.2).trans (Nat.add_right_comm r.nextSurface 1 ps.length)

theorem TypeTable.nextIr_addBuiltins (bs : List Builtin) :
    ∀ (t : TypeTable) (r : Registry), (addBuiltins t r bs).2.nextIr = r.nextIr + bs.length := by
  induction bs with
  | nil => exact fun t r => rfl
  | cons b bs ih =>
    intro t r
    exact (ih _ r.freshIr.2).trans (Nat.add_right_comm r.nextIr 1 bs.length)

namespace Registry

theorem nextSurface_le_enterAll (ns : List (Identity × Location)) :
    ∀ r : Registry, r.nextSurface ≤ (r.enterAll ns).nextSurface := by
  induction ns with
  | nil => exact fun r => Nat.le_refl _
  | cons n ns ih => exact fun r => Nat.le_trans (Nat.le_max_left ..) (ih (r.enter n.1 n.2))

/-- What is given out later lies above the surface identities of all nodes entered. -/
theorem lt_nextSurface_enterAll {n : Identity × Location} (ns : List (Identity × Location)) :
    ∀ r : Registry, n ∈ ns → n.1.surface.val.toNat < (r.enterAll ns).nextSurface := by
  induction ns with
  | nil => exact fun r h => absurd h List.not_mem_nil
  | cons m ns ih =>
    intro r h
    rw [enterAll_cons]
    rcases List.mem_cons.1 h with rfl | h
    · have hlt : n.1.surface.val.toNat < (r.enter n.1 n.2).nextSurface :=
        Nat.lt_of_lt_of_le (Nat.lt_succ_self _) (Nat.le_max_right ..)
      exact Nat.lt_of_lt_of_le hlt (nextSurface_le_enterAll ns _)
    · exact ih _ h

end Registry

namespace Session

variable {u : CompilationUnit}

/-- 14 identities of either kind are given out after those of the program. -/
theorem room_of_hasRoom (h : (ofUnit u).HasRoom) :
    (entered u).nextSurface + 14 ≤ 2 ^ 32 ∧ (entered u).nextIr + 14 ≤ 2 ^ 32 := by
  have hsurface : (TypeTable.addBuiltins .empty (declared u) (bindings u).builtins).2.nextSurface
      + 1 < 2 ^ 32 := h.1
  have hir : (TypeTable.addBuiltins .empty (declared u) (bindings u).builtins).2.nextIr + 1
      < 2 ^ 32 := h.2
  have hdeclared : (declared u).nextSurface = (entered u).nextSurface + 13 :=
    Bindings.nextSurface_declare Primitive.all (entered u)
  rw [TypeTable.nextSurface_addBuiltins, hdeclared] at hsurface
  rw [TypeTable.nextIr_addBuiltins, length_builtins, (declared_nodes u).2] at hir
  omega

theorem lt_nextSurface {n : SurfaceId} (h : n ∈ u.program.surfaces) :
    n.val.toNat < (entered u).nextSurface := by
  obtain ⟨m, hm, rfl⟩ := List.mem_map.1 h
  exact Registry.lt_nextSurface_enterAll _ Registry.empty hm

theorem lt_nextIr {id : IrId} (h : id ∈ u.program.ids) : id.val.toNat < (entered u).nextIr := by
  obtain ⟨m, hm, rfl⟩ := Program.mem_ids.1 h
  exact Registry.lt_nextIr_enterAll _ Registry.empty hm

end Session

/-! ## Extending a renumbering -/

/-- Surface identities are numbers. -/
def SurfaceId.equiv : SurfaceId ≃ UInt32 := ⟨val, mk, fun _ => rfl, fun _ => rfl⟩

instance : Finite SurfaceId := .of_equiv UInt32 SurfaceId.equiv.symm

/-- Identities of the checked tree are numbers. -/
def IrId.equiv : IrId ≃ UInt32 := ⟨val, mk, fun _ => rfl, fun _ => rfl⟩

namespace CompilationUnit

variable {ρ : Renumbering} {u : CompilationUnit}

/-- The renumbering keeps the nodes of the program apart, in both ways to number them. -/
def Separates (ρ : Renumbering) (u : CompilationUnit) : Prop :=
  (∀ m ∈ u.program.surfaces, ∀ n ∈ u.program.surfaces, ρ.surface m = ρ.surface n → m = n) ∧
    ∀ i ∈ u.program.ids, ∀ j ∈ u.program.ids, ρ.ir i = ρ.ir j → i = j

instance (ρ : Renumbering) (u : CompilationUnit) : Decidable (Separates ρ u) :=
  inferInstanceAs (Decidable (_ ∧ _))

/-- A renumbering that keeps the nodes of a program apart may as well keep all identities apart and
map what is given out in the session of the unit to what is given out in the renumbered one. -/
theorem exists_faithful (hu : u.Grounded) (hρ : Separates ρ u)
    (hroom : (Session.ofUnit u).HasRoom) (hroom' : (Session.ofUnit (u.renumber ρ)).HasRoom) :
    ∃ τ : Renumbering, τ.Injective ∧ (∀ id ∈ u.program.ids, ρ.ir id = τ.ir id) ∧
      u.renumber ρ = u.renumber τ ∧
      (Session.entered u).Follows τ 14 14 (Session.entered (u.renumber τ)) := by
  obtain ⟨hsroom, hiroom⟩ := Session.room_of_hasRoom hroom
  obtain ⟨hsroom', hiroom'⟩ := Session.room_of_hasRoom hroom'
  have hsinj : Set.InjOn ρ.surface {n | n ∈ u.program.surfaces} := fun m hm n hn => hρ.1 m hm n hn
  have hiinj : Set.InjOn ρ.ir {i | i ∈ u.program.ids} := fun i hi j hj => hρ.2 i hi j hj
  obtain ⟨surface, hs, hsame, hsnew⟩ := exists_extension_of_equiv SurfaceId.equiv hsinj
    (fun _ hn => Session.lt_nextSurface hn)
    (fun _ hn => Session.lt_nextSurface (u.program.mem_surfaces_renumber ρ hn)) hsroom hsroom'
  obtain ⟨ir, hi, hsame', hinew⟩ := exists_extension_of_equiv IrId.equiv hiinj
    (fun _ hid => Session.lt_nextIr hid)
    (fun _ hid => Session.lt_nextIr (u.program.mem_ids_renumber ρ hid)) hiroom hiroom'
  have hτ : Renumbering.Injective ⟨surface, ir⟩ := ⟨hs, hi⟩
  have hcongr : u.renumber ρ = u.renumber ⟨surface, ir⟩ := renumber_congr hu hsame hsame'
  rw [hcongr] at hsnew hinew
  exact ⟨⟨surface, ir⟩, hτ, hsame', hcongr, Session.entered_renumbers hτ, hsnew, hinew⟩

end CompilationUnit

end MiddleEnd
