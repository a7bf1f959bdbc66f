/-
  The identities a node carries: the number of its crate, its identity in the surface syntax tree
  and its identity in the tree that is checked and lowered. All tables of the library are keyed by
  one of them, so each has a total order.
-/
import Std.Data.TreeMap
import MiddleEnd.Location

namespace MiddleEnd

open Std

/-- The number of a crate. -/
structure CrateNumber where
  val : UInt32
  deriving DecidableEq, Repr

/-- The identity of a node in the surface syntax tree. -/
structure SurfaceId where
  val : UInt32
  deriving DecidableEq, Repr

/-- The identity of a node in the tree that is checked and lowered. -/
structure IrId where
  val : UInt32
  deriving DecidableEq, Repr

/-- The three identities of one node. -/
structure Identity where
  crate : CrateNumber
  surface : SurfaceId
  ir : IrId
  deriving DecidableEq, Repr

/-- A surface node as other nodes refer to it: by crate and identity. -/
structure Site where
  crate : CrateNumber
  surface : SurfaceId
  deriving DecidableEq, Repr

/-- Where `i` stands in the surface syntax. -/
def Identity.site (i : Identity) : Site := ⟨i.crate, i.surface⟩

/-- The identity as messages show it. -/
def SurfaceId.text (n : SurfaceId) : String := s!"node#{n.val.toNat}"

/-- The identity as messages show it. -/
def IrId.text (n : IrId) : String := s!"hir#{n.val.toNat}"

/-! ## Order -/

instance : Ord SurfaceId := ⟨compareOn SurfaceId.val⟩

instance : TransOrd SurfaceId := inferInstanceAs (TransCmp (compareOn SurfaceId.val))

instance : LawfulEqOrd SurfaceId where
  eq_of_compare {a b} h := by
    have h : compare a.val b.val = .eq := h
    cases a; cases b; simpa using h

instance : Ord IrId := ⟨compareOn IrId.val⟩

instance : TransOrd IrId := inferInstanceAs (TransCmp (compareOn IrId.val))

instance : LawfulEqOrd IrId where
  eq_of_compare {a b} h := by
    have h : compare a.val b.val = .eq := h
    cases a; cases b; simpa using h

/-- Sites are ordered by crate, then by surface identity. -/
instance : Ord Site := ⟨compareLex (compareOn (·.crate.val)) (compareOn (·.surface.val))⟩

instance : TransOrd Site :=
  inferInstanceAs (TransCmp (compareLex (compareOn fun s : Site => s.crate.val)
    (compareOn fun s : Site => s.surface.val)))

instance : LawfulEqOrd Site where
  eq_of_compare {a b} h := by
    have h : (compare a.crate.val b.crate.val).then (compare a.surface.val b.surface.val) = .eq := h
    rw [Ordering.then_eq_eq] at h
    obtain ⟨⟨_⟩, ⟨_⟩⟩ := a
    obtain ⟨⟨_⟩, ⟨_⟩⟩ := b
    simpa using h

end MiddleEnd
