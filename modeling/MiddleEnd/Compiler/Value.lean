/-
  The values that are known before a program runs: integers of so many bits, with or without a sign,
  and binary floating-point numbers. Integers wrap around at the ends of their range.
-/
import MiddleEnd.Compiler.Literal

namespace MiddleEnd.Compiler

/-! ## Integers -/

/-- How integers of a type are stored. -/
structure IntForm where
  bits : Nat
  isSigned : Bool
  /-- Whether the program gave the type a name. Values are stored alike, but a value is converted
  between the type and what it is a name for. -/
  isNamed : Bool
  deriving DecidableEq, Repr

namespace IntForm

/-- The form of a type of the language itself. -/
def plain (bits : Nat) (isSigned : Bool) : IntForm := ⟨bits, isSigned, false⟩

/-- The form of truth values. -/
def bool : IntForm := plain 1 false

/-- The form of what comparisons yield. -/
def int : IntForm := plain 32 true

/-- The form of addresses that are taken for numbers. -/
def address : IntForm := plain 64 false

/-- The form of the same width without a sign. -/
def unsigned (f : IntForm) : IntForm := plain f.bits false

/-- The form of the same width with a sign. -/
def signed (f : IntForm) : IntForm := plain f.bits true

/-- Whether values of two forms are stored alike. -/
def isLike (f g : IntForm) : Bool := f.bits = g.bits && f.isSigned = g.isSigned

def least (f : IntForm) : Int := if f.isSigned then -(Nat.pow 2 (f.bits - 1) : Int) else 0

def greatest (f : IntForm) : Int :=
  if f.isSigned then (Nat.pow 2 (f.bits - 1) : Int) - 1 else (Nat.pow 2 f.bits : Int) - 1

/-- Whether a number is a value of the form. -/
def holds (f : IntForm) (n : Int) : Bool := f.least ≤ n && n ≤ f.greatest

/-- The value of the form that has the same last bits. -/
def wrap (f : IntForm) (n : Int) : Int :=
  let size : Int := Nat.pow 2 f.bits
  let m := n.emod size
  if f.isSigned && size ≤ 2 * m then m - size else m

/-- Whether every value of another form is one of this form. -/
def includes (f g : IntForm) : Bool := f.least ≤ g.least && g.greatest ≤ f.greatest

/-- A value as the number its bits spell. -/
def bitsOf (f : IntForm) (n : Int) : Nat := (n.emod (Nat.pow 2 f.bits)).toNat

end IntForm

/-- Operators on numbers. -/
inductive Arith
  | add
  | sub
  | mul
  | div
  | rem
  | and
  | or
  | xor
  | shl
  | shr
  deriving DecidableEq, Repr

namespace Arith

def isCommutative : Arith → Bool
  | add | mul | and | or | xor => true
  | _ => false

def isShift : Arith → Bool
  | shl | shr => true
  | _ => false

def isBitwise : Arith → Bool
  | and | or | xor => true
  | _ => false

/-- The value of an operator; none for a division by zero and for a shift by a negative amount. -/
def value? (f : IntForm) (op : Arith) (a b : Int) : Option Int :=
  let bits (g : Nat → Nat → Nat) : Option Int := some (f.wrap (g (f.bitsOf a) (f.bitsOf b)))
  match op with
  | add => some (f.wrap (a + b))
  | sub => some (f.wrap (a - b))
  | mul => some (f.wrap (a * b))
  | div => if b = 0 then none else some (f.wrap (a.tdiv b))
  | rem => if b = 0 then none else some (f.wrap (a.tmod b))
  | and => bits Nat.land
  | or => bits Nat.lor
  | xor => bits Nat.xor
  | shl => if b < 0 then none else some (f.wrap (a * Nat.pow 2 (min b f.bits).toNat))
  | shr => if b < 0 then none else some (a.fdiv (Nat.pow 2 (min b f.bits).toNat))

end Arith

inductive Relation
  | eq
  | ne
  | lt
  | le
  | gt
  | ge
  deriving DecidableEq, Repr

namespace Relation

/-- The relation of the second operand to the first. -/
def swap : Relation → Relation
  | eq => eq
  | ne => ne
  | lt => gt
  | le => ge
  | gt => lt
  | ge => le

/-- The relation that holds where this one does not. -/
def opposite : Relation → Relation
  | eq => ne
  | ne => eq
  | lt => ge
  | le => gt
  | gt => le
  | ge => lt

def ofOrdering : Relation → Ordering → Bool
  | eq, o => o == .eq
  | ne, o => o != .eq
  | lt, o => o == .lt
  | le, o => o != .gt
  | gt, o => o == .gt
  | ge, o => o != .lt

/-- Whether a value is related to itself. -/
def isReflexive (r : Relation) : Bool := r.ofOrdering .eq

/-- Whether it only tells equal values from others. -/
def isEquality : Relation → Bool
  | eq | ne => true
  | _ => false

def holds (r : Relation) (a b : Int) : Bool := r.ofOrdering (compare a b)

end Relation

/-- A truth value as a number. -/
def truth (b : Bool) : Int := if b then 1 else 0

/-! ## Floating-point numbers -/

namespace Real

open Binary (Value Quotient Format)

/-- A finite value as a signed number of units, each a power of two, over a common exponent. -/
def units (negative : Bool) (mantissa : Nat) (exponent least : Int) : Int :=
  let n : Int := mantissa * Nat.pow 2 (exponent - least).toNat
  if negative then -n else n

/-- The nearest value to a number of units. -/
def ofUnits (f : Format) (n : Int) (exponent : Int) : Value :=
  f.round (n < 0) ((⟨n.natAbs, 1⟩ : Quotient).scale 2 exponent)

def isNegative : Value → Bool
  | .nan => false
  | .infinite negative | .finite negative _ _ => negative

def isZero : Value → Bool
  | .finite _ m _ => m = 0
  | _ => false

def negate : Value → Value
  | .nan => .nan
  | .infinite negative => .infinite (!negative)
  | .finite negative m e => .finite (!negative) m e

def add (f : Format) : Value → Value → Value
  | .nan, _ | _, .nan => .nan
  | .infinite s, .infinite t => if s = t then .infinite s else .nan
  | .infinite s, _ | _, .infinite s => .infinite s
  | .finite s m e, .finite t n d =>
    let least := min e d
    let sum := units s m e least + units t n d least
    if sum = 0 then Binary.zero (s && t) else ofUnits f sum least

def mul (f : Format) : Value → Value → Value
  | .nan, _ | _, .nan => .nan
  | .infinite s, v | v, .infinite s => if isZero v then .nan else .infinite (s != isNegative v)
  | .finite s m e, .finite t n d =>
    f.round (s != t) ((⟨m * n, 1⟩ : Quotient).scale 2 (e + d))

def div (f : Format) : Value → Value → Value
  | .nan, _ | _, .nan => .nan
  | .infinite _, .infinite _ => .nan
  | .infinite s, v => .infinite (s != isNegative v)
  | v, .infinite s => Binary.zero (isNegative v != s)
  | .finite s m e, .finite t n d =>
    if n = 0 then if m = 0 then .nan else .infinite (s != t)
    else f.round (s != t) ((⟨m, n⟩ : Quotient).scale 2 (e - d))

/-- The order of two values, unless one is no number. -/
def compare? : Value → Value → Option Ordering
  | .nan, _ | _, .nan => none
  | .infinite s, .infinite t => some (if s = t then .eq else if s then .lt else .gt)
  | .infinite s, _ => some (if s then .lt else .gt)
  | _, .infinite s => some (if s then .gt else .lt)
  | .finite s m e, .finite t n d =>
    let least := min e d
    some (compare (units s m e least) (units t n d least))

def holds (r : Relation) (a b : Value) : Bool :=
  match compare? a b with
  | some o => r.ofOrdering o
  | none => r = .ne

/-- The integer part of a finite value. -/
def truncate? : Value → Option Int
  | .finite negative m e =>
    let n : Int := if 0 ≤ e then m * Nat.pow 2 e.toNat else m / Nat.pow 2 (-e).toNat
    some (if negative then -n else n)
  | _ => none

/-- The integer that a value is converted to: without its fraction, and the nearest in range. -/
def toInt (f : IntForm) : Value → Int
  | .nan => 0
  | .infinite negative => if negative then f.least else f.greatest
  | v =>
    match truncate? v with
    | some n => max f.least (min f.greatest n)
    | none => 0

def ofInt (f : Format) (n : Int) : Value :=
  f.round (n < 0) ⟨n.natAbs, 1⟩

/-- The value of an operator on values of a format. -/
def operate? (f : Format) : Arith → Value → Value → Option Value
  | .add, a, b => some (add f a b)
  | .sub, a, b => some (add f a (negate b))
  | .mul, a, b => some (mul f a b)
  | .div, a, b => some (div f a b)
  | _, _, _ => none

end Real

end MiddleEnd.Compiler
