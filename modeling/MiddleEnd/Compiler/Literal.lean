/-
  Constants as they are spelled: integers, floating-point numbers and characters, with what their
  suffixes say about their types.
-/
import MiddleEnd.Binary.Decimal
import MiddleEnd.Compiler.Token

namespace MiddleEnd.Compiler

/-! ## Integers -/

structure IntLiteral where
  value : Nat
  /-- Whether it is spelled in decimal, which decides how wide its type may be. -/
  decimal : Bool
  isUnsigned : Bool
  /-- How often the suffix says `long`. -/
  longs : Nat
  deriving DecidableEq, Repr

/-- Integer constants have so many bits at most; the others are dropped. -/
def literalBits : Nat := 64

/-- The suffixes of integers: whether unsigned, and how often `long`. -/
def intSuffix? (s : List Char) : Option (Bool × Nat) :=
  match String.ofList s with
  | "" => some (false, 0)
  | "u" | "U" => some (true, 0)
  | "l" | "L" => some (false, 1)
  | "ll" | "LL" => some (false, 2)
  | "ul" | "uL" | "Ul" | "UL" | "lu" | "lU" | "Lu" | "LU" => some (true, 1)
  | "ull" | "uLL" | "Ull" | "ULL" | "llu" | "llU" | "LLu" | "LLU" => some (true, 2)
  | _ => none

/-- The digits of a base at the start of a text, as a number, with what follows them. -/
def digitsOf (base : Nat) (cs : List Char) : Nat × List Char :=
  let isDigitHere (c : Char) : Bool := (hexValue? c).any fun d => decide (d < base)
  let ds := cs.takeWhile isDigitHere
  (ds.foldl (fun n c => base * n + (hexValue? c).getD 0) 0, cs.dropWhile isDigitHere)

def intOfBase? (base : Nat) (cs : List Char) : Option IntLiteral := do
  let (value, rest) := digitsOf base cs
  if rest.length = cs.length then none
  let (isUnsigned, longs) ← intSuffix? rest
  return ⟨value % Nat.pow 2 literalBits, base = 10, isUnsigned, longs⟩

/-- The integer that a text spells. -/
def intLiteral? (s : String) : Option IntLiteral :=
  match s.toList with
  | '0' :: 'x' :: rest | '0' :: 'X' :: rest => intOfBase? 16 rest
  | '0' :: 'b' :: rest | '0' :: 'B' :: rest => intOfBase? 2 rest
  | '0' :: rest => intOfBase? 8 ('0' :: rest)
  | cs => intOfBase? 10 cs

/-! ## Floating-point numbers -/

inductive RealKind
  | float
  | double
  | longDouble
  /-- Any other format, by its name. -/
  | other (name : String)
  deriving DecidableEq, Repr

structure RealLiteral where
  kind : RealKind
  value : Binary.Value
  deriving DecidableEq, Repr

/-- The formats whose values are known; the others are wider. -/
def RealKind.format? : RealKind → Option Binary.Format
  | .float => some Binary.binary32
  | .double => some Binary.binary64
  | _ => none

def realSuffix? (s : List Char) : Option RealKind :=
  match String.ofList s with
  | "" => some .double
  | "f" | "F" => some .float
  | "l" | "L" => some .longDouble
  | "d" | "D" => some .double
  | "q" | "Q" | "f128" | "F128" => some (.other "_Float128")
  | "w" | "W" => some (.other "__float80")
  | "f16" | "F16" => some (.other "_Float16")
  | "f32" | "F32" => some (.other "_Float32")
  | "f64" | "F64" => some (.other "_Float64")
  | "f32x" | "F32x" => some (.other "_Float32x")
  | "f64x" | "F64x" => some (.other "_Float64x")
  | "df" | "DF" => some (.other "_Decimal32")
  | "dd" | "DD" => some (.other "_Decimal64")
  | "dl" | "DL" => some (.other "_Decimal128")
  | _ => none

/-- A sign and digits, with what follows; none without digits. -/
def exponent? (cs : List Char) : Option (Int × List Char) :=
  let (negative, ds) :=
    match cs with
    | '-' :: rest => (true, rest)
    | '+' :: rest => (false, rest)
    | rest => (false, rest)
  let (n, rest) := digitsOf 10 ds
  if rest.length = ds.length then none else some (if negative then -(n : Int) else n, rest)

/-- A value of a kind: the nearest one, if the format is known. -/
def RealKind.nearest (k : RealKind) (digits : Nat) (base : Nat) (exponent : Int) : Binary.Value :=
  let format := k.format?.getD Binary.binary64
  if base = 10 then format.roundSpelled false ⟨digits, exponent⟩
  else if exponent.natAbs ≤ 5000 then format.round false ((⟨digits, 1⟩ : Binary.Quotient).scale 2 exponent)
  else if digits = 0 || exponent < 0 then Binary.zero false
  else .infinite false

/-- A number with a point or an exponent. In base 16 the exponent is one of two and must be there.
-/
def realOfBase? (base : Nat) (cs : List Char) : Option RealLiteral := do
  let (whole, rest) := digitsOf base cs
  let wholeLength := cs.length - rest.length
  let (hasPoint, fraction, fractionLength, rest) :=
    match rest with
    | '.' :: behind =>
      let (_, rest') := digitsOf base behind
      let n := behind.length - rest'.length
      (true, (digitsOf base (cs.take wholeLength ++ behind.take n)).1, n, rest')
    | _ => (false, whole, 0, rest)
  if wholeLength + fractionLength = 0 then none
  let marks := if base = 10 then ['e', 'E'] else ['p', 'P']
  match rest with
  | c :: behind =>
    if marks.contains c then
      let (e, suffix) ← exponent? behind
      let kind ← realSuffix? suffix
      let shift : Int := if base = 10 then fractionLength else 4 * fractionLength
      return ⟨kind, kind.nearest fraction base (e - shift)⟩
    else if hasPoint && base = 10 then
      let kind ← realSuffix? rest
      return ⟨kind, kind.nearest fraction base (-(fractionLength : Int))⟩
    else none
  | [] =>
    if hasPoint && base = 10 then
      return ⟨.double, RealKind.double.nearest fraction base (-(fractionLength : Int))⟩
    else none

def realLiteral? (s : String) : Option RealLiteral :=
  match s.toList with
  | '0' :: 'x' :: rest | '0' :: 'X' :: rest => realOfBase? 16 rest
  | cs => realOfBase? 10 cs

/-! ## Characters -/

/-- What follows an escaped character, and its value. -/
def escape? : List Char → Option (Nat × List Char)
  | 'x' :: rest =>
    let (n, behind) := digitsOf 16 rest
    if behind.length = rest.length then none else some (n, behind)
  | 'u' :: rest => do
    if rest.length < 4 then none
    let c ← charNumbered? (rest.take 4)
    return (c.toNat, rest.drop 4)
  | 'U' :: rest => do
    if rest.length < 8 then none
    let c ← charNumbered? (rest.take 8)
    return (c.toNat, rest.drop 8)
  | c :: rest =>
    if '0' ≤ c && c ≤ '7' then
      let n := ((c :: rest).take 3).takeWhile fun d => '0' ≤ d && d ≤ '7'
      some ((digitsOf 8 n).1, (c :: rest).drop n.length)
    else
      let named := [('n', 10), ('t', 9), ('r', 13), ('a', 7), ('b', 8), ('f', 12), ('v', 11), ('e', 27)]
      some ((named.lookup c).getD c.toNat, rest)
  | [] => none

/-- The values of the characters of a quoted text; none if an escape has no meaning. -/
def charValues? : (fuel : Nat) → List Char → Option (List Nat)
  | 0, _ | _, [] => some []
  | fuel + 1, '\\' :: rest => do
    let (n, behind) ← escape? rest
    let ns ← charValues? fuel behind
    return n :: ns
  | fuel + 1, c :: rest => do
    let ns ← charValues? fuel rest
    return c.toNat :: ns

/-- The value of a character constant. Of more than one character only the last ones count, one
byte for each. -/
def charLiteral? (s : String) : Option Int := do
  let cs := (s.toList.dropWhile (· ≠ '\x27')).drop 1
  let inner := cs.take (cs.length - 1)
  let ns ← charValues? inner.length inner
  if ns.isEmpty then none
  let n := (ns.foldl (fun v n => 256 * v + n) 0) % Nat.pow 2 32
  match ns with
  | [n] => return if n < 128 then (n : Int) else if n < 256 then (n : Int) - 256 else n
  | _ => return if n < Nat.pow 2 31 then (n : Int) else (n : Int) - Nat.pow 2 32

end MiddleEnd.Compiler
