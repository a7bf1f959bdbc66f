/-
  Values and operators, the same for programs and for the C programs they are lowered to. What
  literals stand for, what operators make of their operands and which values count as true is left
  open (`Operators`). Only the value of the unit type is fixed, and operators have no use for it.
-/
import MiddleEnd.Proofs.Check.Regular
import MiddleEnd.Proofs.Lower.Laziness

namespace MiddleEnd

/-- What an expression comes to: the value of the unit type, or data. -/
inductive Value (V : Type)
  | unit
  | data (v : V)
  deriving DecidableEq

/-- The data that a value is, unless it is that of the unit type. -/
def Value.data? {V : Type} : Value V → Option V
  | .unit => none
  | .data v => some v

def BinaryOp.isLazy : BinaryOp → Bool
  | .lazy _ => true
  | _ => false

/-- What programs compute with. -/
structure Operators (V : Type) where
  bool : Bool → V
  int : C.Ty → Int → V
  float : C.Ty → Binary.Value → V
  truth : V → Bool
  /-- The operators that need both operands. They may be undefined, as division by zero is. -/
  strict : BinaryOp → V → V → Option V
  index : V → V → Option V
  array : List V → V
  /-- A struct of these values, in the order of the declaration. -/
  struct : List V → V

namespace Operators

variable {V : Type} (O : Operators V)

/-- An operator on its left operand and on its right operand, if that has a value. `&&` and `||` do
not ask for it where the left one decides. -/
def binary? (op : BinaryOp) (a : V) (b : Option V) : Option V :=
  match op with
  | .lazy op =>
    if O.truth a = op.decisive then some (O.bool op.decisive)
    else b.map fun b => O.bool (O.truth b)
  | op => b.bind (O.strict op a)

variable {O} {a : V}

theorem binary?_of_not_lazy {op : BinaryOp} (h : op.isLazy = false) (a b : V) :
    O.binary? op a (some b) = O.strict op a b := by
  cases op with
  | lazy op => cases h
  | _ => rfl

theorem binary?_decided {op : LazyOp} (h : O.truth a = op.decisive) (b : Option V) :
    O.binary? (.lazy op) a b = some (O.bool op.decisive) :=
  if_pos h

theorem binary?_undecided {op : LazyOp} (h : O.truth a ≠ op.decisive) (b : V) :
    O.binary? (.lazy op) a (some b) = some (O.bool (O.truth b)) :=
  if_neg h

end Operators

/-! ## Literals -/

/-- The type that a machine has for a primitive type. -/
def Primitive.machine : Primitive → C.Ty
  | .int w => .integer false w.bits
  | .uint w => .integer true w.bits
  | .float w => .floating w.bits
  | .bool => .bool

namespace Literal

variable {V : Type} (O : Operators V) (lit : Literal)

/-- What the literal stands for at its primitive type, if it can be read. -/
def value? : Option V :=
  let spelled := Lower.plainSpelling lit.spelling
  if lit.kind = .bool then (Lower.bool? spelled).map O.bool
  else if lit.isFloat then
    (Binary.binary64.ofText? spelled).map (O.float lit.primitive.machine)
  else (Lower.int? spelled).map (O.int lit.primitive.machine)

end Literal

end MiddleEnd
