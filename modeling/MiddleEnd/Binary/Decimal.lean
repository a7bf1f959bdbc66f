/-
  Binary values as decimal text. Reading rounds a decimal number of any length to the nearest value
  of a format. Writing gives the fewest digits that read back as the same value, and of those the
  nearest to it.
-/
import MiddleEnd.Binary.Format

namespace MiddleEnd.Binary

/-! ## Reading -/

/-- A number as it is spelled in decimal: digits, times ten to the exponent. -/
structure Spelled where
  digits : Nat
  exponent : Int
  deriving DecidableEq, Repr

def isDigit (c : Char) : Bool := '0' ≤ c && c ≤ '9'

/-- The number that digits spell. -/
def ofDigits (cs : List Char) : Nat :=
  cs.foldl (fun n c => n * 10 + (c.toNat - '0'.toNat)) 0

/-- The number of decimal digits of a positive number. -/
def digitCount (n : Nat) : Nat := (Nat.toDigits 10 n).length

/-- A run of digits with an optional sign. -/
def signedDigits? (cs : List Char) : Option Int :=
  let (negative, ds) :=
    match cs with
    | '-' :: rest => (true, rest)
    | '+' :: rest => (false, rest)
    | rest => (false, rest)
  if ds.isEmpty || !ds.all isDigit then none
  else some (if negative then -(ofDigits ds : Int) else ofDigits ds)

/-- What stands after the digits of a number: nothing, or an exponent. -/
def exponentPart? : List Char → Option Int
  | [] => some 0
  | c :: rest => if c = 'e' ∨ c = 'E' then signedDigits? rest else none

/-- Digits, with at most one point somewhere among them, and an exponent if there is one. -/
def spelled? (cs : List Char) : Option Spelled :=
  let whole := cs.takeWhile isDigit
  let rest := cs.dropWhile isDigit
  let (fraction, rest) :=
    match rest with
    | '.' :: rest => (rest.takeWhile isDigit, rest.dropWhile isDigit)
    | rest => ([], rest)
  if whole.isEmpty && fraction.isEmpty then none
  else
    (exponentPart? rest).map fun e =>
      ⟨ofDigits (whole ++ fraction), e - (fraction.length : Int)⟩

/-- Numbers from ten to this power on are beyond every format. -/
def greatestPower : Int := 400

/-- The value nearest to a spelled number. Powers of ten far outside the range of every format are
decided without computing them. -/
def Format.roundSpelled (f : Format) (negative : Bool) (s : Spelled) : Value :=
  if s.digits = 0 then zero negative
  else
    let power := (digitCount s.digits : Int) + s.exponent
    if greatestPower < power then .infinite negative
    else if power < -greatestPower then zero negative
    else f.round negative ((⟨s.digits, 1⟩ : Quotient).scale 10 s.exponent)

/-- The names of values that are no numbers, in any case. -/
def named? (negative : Bool) (cs : List Char) : Option Value :=
  let name := String.ofList (cs.map Char.toLower)
  if name = "inf" ∨ name = "infinity" then some (.infinite negative)
  else if name = "nan" then some .nan
  else none

/-- The value a text spells: a sign if any, then a number or a name. -/
def Format.ofText? (f : Format) (s : String) : Option Value :=
  let (negative, cs) :=
    match s.toList with
    | '-' :: rest => (true, rest)
    | '+' :: rest => (false, rest)
    | rest => (false, rest)
  match named? negative cs with
  | some v => some v
  | none => (spelled? cs).map (f.roundSpelled negative)

/-! ## Shortest digits -/

/-- The numbers that round to a value lie between `low` and `high`, all over one denominator. The
ends belong to them where the mantissa is even. -/
structure Interval where
  low : Nat
  mid : Nat
  high : Nat
  den : Nat
  closed : Bool
  deriving DecidableEq, Repr

/-- Half-way to the neighbours on either side. Below a power of two the neighbours lie closer. -/
def Format.interval (f : Format) (m : Nat) (e : Int) : Interval :=
  let (low, mid, high, e) :=
    if m = Nat.pow 2 (f.precision - 1) then (4 * m - 1, 4 * m, 4 * m + 2, e - 2)
    else (2 * m - 1, 2 * m, 2 * m + 1, e - 1)
  let unit := (⟨1, 1⟩ : Quotient).scale 2 e
  ⟨low * unit.num, mid * unit.num, high * unit.num, unit.den, m % 2 = 0⟩

/-- The power of ten just above a quotient. -/
def magnitude (q : Quotient) : Int :=
  if q.den ≤ q.num then digitCount (q.num / q.den)
  else
    let inverse := (q.den + q.num - 1) / q.num
    if inverse ≤ 1 then 1 else 1 - (digitCount (inverse - 1) : Int)

/-- Whether `c` times ten to the exponent lies in the interval. -/
def Interval.contains (i : Interval) (c : Nat) (exponent : Int) : Bool :=
  let q := (⟨c, 1⟩ : Quotient).scale 10 exponent
  let x := q.num * i.den
  if i.closed then i.low * q.den ≤ x && x ≤ i.high * q.den
  else i.low * q.den < x && x < i.high * q.den

/-- The number nearest to the value among those of the interval on the grid of ten to the exponent;
upwards if two are equally near. -/
def Interval.onGrid (i : Interval) (exponent : Int) : Option Nat :=
  let q := (⟨i.mid, i.den⟩ : Quotient).scale 10 (-exponent)
  let floor := q.num / q.den
  let rest := q.num % q.den
  let below := i.contains floor exponent
  let above := rest ≠ 0 && i.contains (floor + 1) exponent
  if below && above then some (if 2 * rest < q.den then floor else floor + 1)
  else if below then some floor
  else if above then some (floor + 1)
  else none

/-- The first grid that meets the interval, from coarse to fine, with `left` grids to try. -/
def Interval.search (i : Interval) (exponent : Int) : Nat → Spelled
  | 0 => ⟨i.mid / i.den, 0⟩
  | left + 1 =>
    match i.onGrid exponent with
    | some c => ⟨c, exponent⟩
    | none => i.search (exponent - 1) left

/-- This many digits tell any two values of a format apart. -/
def Format.enoughDigits (f : Format) : Nat := f.precision / 3 + 2

/-- The fewest digits that round to a finite value other than zero. -/
def Format.shortest (f : Format) (m : Nat) (e : Int) : Spelled :=
  let i := f.interval m e
  i.search (magnitude ⟨i.mid, i.den⟩ - 1) f.enoughDigits

/-! ## Writing -/

/-- Where the point of a written number may stand among its digits; beyond that, an exponent is
written. Both ends are powers of ten just above the number. -/
structure Style where
  leastPower : Int
  greatestPower : Int
  deriving DecidableEq, Repr

/-- Digits without the zeros at their end. -/
def significant (n : Nat) : List Char :=
  ((Nat.toDigits 10 n).reverse.dropWhile (· == '0')).reverse

def zeros (n : Nat) : List Char := List.replicate n '0'

/-- Digits with a point after the first `power` of them, and at least one digit on either side. -/
def positional (ds : List Char) (power : Int) : List Char :=
  if power ≤ 0 then '0' :: '.' :: (zeros (-power).toNat ++ ds)
  else if (ds.length : Int) ≤ power then ds ++ zeros (power.toNat - ds.length) ++ ['.', '0']
  else ds.take power.toNat ++ '.' :: ds.drop power.toNat

/-- Digits with a point after the first, and an exponent. -/
def scientific (ds : List Char) (power : Int) : List Char :=
  let mantissa :=
    match ds with
    | [] => []
    | [d] => [d]
    | d :: rest => d :: '.' :: rest
  mantissa ++ 'e' :: (toString (power - 1)).toList

/-- A spelled number other than zero. -/
def Style.write (style : Style) (s : Spelled) : List Char :=
  let ds := significant s.digits
  let power := (digitCount s.digits : Int) + s.exponent
  if style.leastPower ≤ power ∧ power ≤ style.greatestPower then positional ds power
  else scientific ds power

/-- A value with the fewest digits that read back as the same value. -/
def Style.text (style : Style) (f : Format) : Value → String
  | .nan => "NaN"
  | .infinite negative => if negative then "-inf" else "inf"
  | .finite negative m e =>
    let number := if m = 0 then ['0', '.', '0'] else style.write (f.shortest m e)
    String.ofList (if negative then '-' :: number else number)

end MiddleEnd.Binary
