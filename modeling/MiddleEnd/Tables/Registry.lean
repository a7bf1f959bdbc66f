/-
  The identities of a program's nodes: which node of the checked tree stands for which node of the
  surface syntax, where each node is, and which identities are still free.

  Identities given out here lie above all that were entered before, so they collide with none.
-/
import MiddleEnd.Syntax.Visit

namespace MiddleEnd

open Std

structure Registry where
  /-- The next free surface identity. -/
  nextSurface : Nat
  /-- The next free identity of the checked tree. -/
  nextIr : Nat
  nodes : TreeMap Site IrId
  locations : TreeMap IrId Location

namespace Registry

/-- No nodes yet; identity 0 is never given out. -/
def empty : Registry := ⟨1, 1, {}, {}⟩

def freshSurface (r : Registry) : SurfaceId × Registry :=
  (⟨UInt32.ofNat r.nextSurface⟩, { r with nextSurface := r.nextSurface + 1 })

def freshIr (r : Registry) : IrId × Registry :=
  (⟨UInt32.ofNat r.nextIr⟩, { r with nextIr := r.nextIr + 1 })

def setNode (r : Registry) (site : Site) (id : IrId) : Registry :=
  { r with nodes := r.nodes.insert site id }

/-- The node of the checked tree that stands for a surface node. -/
def node? (r : Registry) (site : Site) : Option IrId := r.nodes[site]?

def setLocation (r : Registry) (id : IrId) (l : Location) : Registry :=
  { r with locations := r.locations.insert id l }

/-- Where a node is; unknown for nodes that were never entered. -/
def location (r : Registry) (id : IrId) : Location := (r.locations[id]?).getD .unknown

/-- Enter the identities of a node, and keep what is given out later clear of them. -/
def enter (r : Registry) (id : Identity) (l : Location) : Registry :=
  let r := (r.setNode id.site id.ir).setLocation id.ir l
  { r with
    nextSurface := max r.nextSurface (id.surface.val.toNat + 1)
    nextIr := max r.nextIr (id.ir.val.toNat + 1) }

/-- Enter nodes one after the other. -/
def enterAll (r : Registry) (nodes : List (Identity × Location)) : Registry :=
  nodes.foldl (fun r (id, l) => r.enter id l) r

/-- Give out and enter the identities of a new node. -/
def create (r : Registry) (crate : CrateNumber) (l : Location) : Identity × Registry :=
  let (surface, r) := r.freshSurface
  let (ir, r) := r.freshIr
  (⟨crate, surface, ir⟩, r.enter ⟨crate, surface, ir⟩ l)

end Registry

end MiddleEnd
