/-
  The types of a program's nodes, with those of the primitive types and of unit entered beforehand,
  and the return types of the functions being checked, innermost first.
-/
import MiddleEnd.Tables.Bindings

namespace MiddleEnd

open Std

structure TypeTable where
  /-- The primitive types and unit, by name. -/
  builtins : List (String × Ty)
  /-- Where the types of the primitive types and of unit are recorded. -/
  builtinIds : TreeMap SurfaceId IrId
  recorded : TreeMap IrId Ty
  returns : List Ty

namespace TypeTable

def empty : TypeTable := ⟨[], {}, {}, []⟩

def addBuiltin (t : TypeTable) (node : SurfaceId) (name : String) (type : Ty) : TypeTable :=
  { t with
    builtins := t.builtins ++ [(name, type)]
    builtinIds := t.builtinIds.insert node type.ref
    recorded := t.recorded.insert type.ref type }

/-- Enter a type for every declared primitive type, with identities given out one after the
other. -/
def addBuiltins (t : TypeTable) (r : Registry) : List Builtin → TypeTable × Registry
  | [] => (t, r)
  | b :: rest =>
    let (id, r) := r.freshIr
    addBuiltins (t.addBuiltin b.node b.name (Ty.ofPrimitive id b.primitive)) r rest

/-- A table with the primitive types, and unit after them. -/
def withBuiltins (builtins : List Builtin) (r : Registry) : TypeTable × Registry :=
  let (t, r) := addBuiltins empty r builtins
  let (node, r) := r.freshSurface
  let (id, r) := r.freshIr
  (t.addBuiltin node Ty.unitName (.unit id), r)

/-- The primitive or unit type of that name. -/
def builtin? (t : TypeTable) (name : String) : Option Ty :=
  (t.builtins.find? (·.1 == name)).map (·.2)

/-- Where the type declared at a surface identity of its own is recorded. -/
def builtinId? (t : TypeTable) (node : SurfaceId) : Option IrId := t.builtinIds[node]?

/-- Record the type of a node, in place of any recorded before. -/
def record (t : TypeTable) (id : IrId) (type : Ty) : TypeTable :=
  { t with recorded := t.recorded.insert id type }

def get? (t : TypeTable) (id : IrId) : Option Ty := t.recorded[id]?

/-- How many nodes have a type. -/
def size (t : TypeTable) : Nat := t.recorded.size

def isEmpty (t : TypeTable) : Bool := t.recorded.isEmpty

def pushReturn (t : TypeTable) (type : Ty) : TypeTable :=
  { t with returns := type :: t.returns }

def popReturn (t : TypeTable) : Option Ty × TypeTable :=
  (t.returns.head?, { t with returns := t.returns.tail })

/-- The return type of the innermost function being checked. -/
def return? (t : TypeTable) : Option Ty := t.returns.head?

theorem get?_record (t : TypeTable) (id other : IrId) (type : Ty) :
    (t.record id type).get? other = if other = id then some type else t.get? other := by
  simp only [get?, record, TreeMap.getElem?_insert, Std.compare_eq_iff_eq]
  simp [eq_comm]

@[simp] theorem returns_record (t : TypeTable) (id : IrId) (type : Ty) :
    (t.record id type).returns = t.returns := rfl

end TypeTable

end MiddleEnd
