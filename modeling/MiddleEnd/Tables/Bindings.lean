/-
  What name resolution found out: which declaration each use of a name means, for values and for
  types apart, and which node owns the type of each declaration. Primitive types are declared by
  surface identities of their own, which belong to no node of the program.
-/
import MiddleEnd.Tables.Registry
import MiddleEnd.Ty.Basic

namespace MiddleEnd

open Std

/-- A primitive type and the surface identity that declares it. -/
structure Builtin where
  primitive : Primitive
  node : SurfaceId
  deriving DecidableEq, Repr

def Builtin.name (b : Builtin) : String := b.primitive.name

structure Bindings where
  names : TreeMap SurfaceId SurfaceId
  types : TreeMap SurfaceId SurfaceId
  definitions : TreeMap SurfaceId Definition
  builtins : List Builtin

namespace Bindings

def empty : Bindings := ⟨{}, {}, {}, []⟩

/-- Declarations for primitive types, with identities given out one after the other. -/
def declare (r : Registry) : List Primitive → List Builtin × Registry
  | [] => ([], r)
  | p :: rest =>
    let (node, r) := r.freshSurface
    let (builtins, r) := declare r rest
    (⟨p, node⟩ :: builtins, r)

/-- No bindings yet, and all primitive types declared. -/
def withBuiltins (r : Registry) : Bindings × Registry :=
  let (builtins, r) := declare r Primitive.all
  ({ empty with builtins := builtins }, r)

/-- The declaration of the primitive type of that name. -/
def builtin? (b : Bindings) (name : String) : Option SurfaceId :=
  (b.builtins.find? (·.name == name)).map (·.node)

/-- Let the name at `use` mean the value declared at `decl`. -/
def bindName (b : Bindings) (use decl : SurfaceId) : Bindings :=
  { b with names := b.names.insert use decl }

def name? (b : Bindings) (use : SurfaceId) : Option SurfaceId := b.names[use]?

/-- Let the name at `use` mean the type declared at `decl`. -/
def bindType (b : Bindings) (use decl : SurfaceId) : Bindings :=
  { b with types := b.types.insert use decl }

def type? (b : Bindings) (use : SurfaceId) : Option SurfaceId := b.types[use]?

def define (b : Bindings) (d : Definition) : Bindings :=
  { b with definitions := b.definitions.insert d.node d }

def definition? (b : Bindings) (node : SurfaceId) : Option Definition := b.definitions[node]?

end Bindings

end MiddleEnd
