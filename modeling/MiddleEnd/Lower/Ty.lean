/-
  The C types of types. Primitive types are entered once at the start and struct types with their
  items, under the identities that the types carry; arrays are built from their elements. No other
  type has a C type.
-/
import MiddleEnd.Lower.Monad

namespace MiddleEnd.Lower

/-- The C type of a primitive type. -/
def primitiveTy? : Ty → Option C.Ty
  | .bool _ => some .bool
  | .int _ w => some (.integer false w.bits)
  | .uint _ w => some (.integer true w.bits)
  | .float _ w => some (.floating w.bits)
  | _ => none

/-- The C type of a primitive type; a defect for others. -/
def primitive (t : Ty) : Lower C.Ty := require (.notABuiltin t) (primitiveTy? t)

/-- The C type that was entered for a type. -/
def entered (t : Ty) : Lower C.Ty := do
  require (.neverCompiled t) (← get).types[t.ref]?

/-- The length of an array, as C writes it. -/
def arrayLength (capacity : Nat) : C.Expr := .int (.integer false 32) capacity

/-- The C type of a type. -/
def type : Ty → Lower C.Ty
  | .bool r => entered (.bool r)
  | .int r w => entered (.int r w)
  | .uint r w => entered (.uint r w)
  | .float r w => entered (.float r w)
  | .struct r name fields => entered (.struct r name fields)
  | .array _ element capacity => do
    let e ← type element
    build (·.arrayType e (arrayLength capacity))
  | t => defect (.notCompilable t)

/-- The C types of members, one after the other. -/
def types : Members → Lower (List (String × C.Ty))
  | .nil => return []
  | .cons name t rest => do
    let first ← type t
    return (name, first) :: (← types rest)

/-- The C type of a function's result; none for unit. -/
def resultType (t : Ty) : Lower (Option C.Ty) := do
  if t.isUnit then return none
  return some (← type t)

/-- Enter the C types of all primitive types. -/
def enterPrimitives (k : Checked) : Lower Unit :=
  k.scope.bindings.builtins.forM fun b => do
    let id ← require (.builtinWithoutId b.name) (k.types.builtinId? b.node)
    let t ← require (.builtinWithoutType b.name) (k.types.get? id)
    setType id (← primitive t)

end MiddleEnd.Lower
