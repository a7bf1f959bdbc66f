/-
  Binary floating-point values, in exact arithmetic on natural numbers: a mantissa times a power of
  two. A format says how many bits a mantissa has and which powers there are; rounding takes any
  positive quotient to the nearest value of a format, ties to the even mantissa.
-/

namespace MiddleEnd.Binary

/-- A format: the bits of a mantissa, and the exponents of the last bit from least to greatest. -/
structure Format where
  precision : Nat
  minExp : Int
  maxExp : Int
  deriving DecidableEq, Repr

def binary32 : Format := ⟨24, -149, 104⟩

def binary64 : Format := ⟨53, -1074, 971⟩

inductive Value
  | nan
  | infinite (negative : Bool)
  /-- The mantissa times two to the exponent. -/
  | finite (negative : Bool) (mantissa : Nat) (exponent : Int)
  deriving DecidableEq, Repr

def zero (negative : Bool) : Value := .finite negative 0 0

/-- A positive quotient. -/
structure Quotient where
  num : Nat
  den : Nat
  deriving DecidableEq, Repr

namespace Quotient

/-- The quotient times a power of `base`. -/
def scale (q : Quotient) (base : Nat) : Int → Quotient
  | .ofNat e => ⟨q.num * Nat.pow base e, q.den⟩
  | .negSucc e => ⟨q.num, q.den * Nat.pow base (e + 1)⟩

/-- The nearest natural number; of two equally near ones the even one. -/
def nearest (q : Quotient) : Nat :=
  let floor := q.num / q.den
  let rest := q.num % q.den
  if 2 * rest < q.den then floor
  else if q.den < 2 * rest then floor + 1
  else if floor % 2 = 0 then floor
  else floor + 1

end Quotient

namespace Format

/-- An exponent at which the quotient has the bits of a full mantissa, or the least exponent. -/
def exponentFor (f : Format) (q : Quotient) : Int :=
  let e : Int := (q.num.log2 : Int) - (q.den.log2 : Int) - (f.precision : Int)
  let s := q.scale 2 (-e)
  let e := if s.num < s.den * Nat.pow 2 f.precision then e else e + 1
  max e f.minExp

/-- The value of the format nearest to a quotient, with the given sign. -/
def round (f : Format) (negative : Bool) (q : Quotient) : Value :=
  if q.num = 0 then zero negative
  else
    let e := f.exponentFor q
    let m := (q.scale 2 (-e)).nearest
    let (m, e) := if m = Nat.pow 2 f.precision then (Nat.pow 2 (f.precision - 1), e + 1) else (m, e)
    if f.maxExp < e then .infinite negative
    else if m = 0 then zero negative
    else .finite negative m e

/-- The value of the format nearest to a value of another format. -/
def convert (f : Format) : Value → Value
  | .nan => .nan
  | .infinite negative => .infinite negative
  | .finite negative m e => f.round negative ((⟨m, 1⟩ : Quotient).scale 2 e)

end Format

end MiddleEnd.Binary
