/-
  The conditions of conditional directives: constant expressions over integers of the widest
  standard types, in which a name that is no macro counts as zero.
-/
import MiddleEnd.Compiler.Literal
import MiddleEnd.Compiler.Macro

namespace MiddleEnd.Compiler.Condition

/-- A number in a condition. -/
structure Number where
  value : Int
  isUnsigned : Bool
  deriving DecidableEq, Repr

namespace Number

/-- A number of one of the two types, brought into its range. -/
def ofInt (isUnsigned : Bool) (n : Int) : Number :=
  let size : Int := Nat.pow 2 64
  let m := n.emod size
  ⟨if isUnsigned || 2 * m < size then m else m - size, isUnsigned⟩

def ofBool (b : Bool) : Number := ⟨if b then 1 else 0, false⟩

def holds (n : Number) : Bool := n.value ≠ 0

end Number

/-- The operators, from those that bind least. -/
def levels : List (List String) :=
  [["||"], ["&&"], ["|"], ["^"], ["&"], ["==", "!="], ["<", ">", "<=", ">="], ["<<", ">>"],
    ["+", "-"], ["*", "/", "%"]]

/-- An operator on bits, in the widest type. -/
def bitwise (f : BitVec 64 → BitVec 64 → BitVec 64) (a b : Int) : Int :=
  (f (.ofInt 64 a) (.ofInt 64 b)).toInt

def shift (a : Number) (left : Bool) (n : Int) : Int :=
  let k := min n.natAbs 64
  if left = (0 ≤ n : Bool) then a.value * Nat.pow 2 k else a.value.fdiv (Nat.pow 2 k)

/-- The value of an operator. Nothing is divided by zero, except where the value does not matter. -/
def operate (matters : Bool) (op : String) (a b : Number) : Option Number :=
  let both := a.isUnsigned || b.isUnsigned
  let x := (Number.ofInt both a.value).value
  let y := (Number.ofInt both b.value).value
  let number (n : Int) : Option Number := some (.ofInt both n)
  let truth (b : Bool) : Option Number := some (.ofBool b)
  match op with
  | "||" => truth (a.holds || b.holds)
  | "&&" => truth (a.holds && b.holds)
  | "|" => number (bitwise (· ||| ·) x y)
  | "^" => number (bitwise (· ^^^ ·) x y)
  | "&" => number (bitwise (· &&& ·) x y)
  | "==" => truth (x = y)
  | "!=" => truth (x ≠ y)
  | "<" => truth (x < y)
  | ">" => truth (y < x)
  | "<=" => truth (x ≤ y)
  | ">=" => truth (y ≤ x)
  | "<<" => some (.ofInt a.isUnsigned (shift a true b.value))
  | ">>" => some (.ofInt a.isUnsigned (shift a false b.value))
  | "+" => number (x + y)
  | "-" => number (x - y)
  | "*" => number (x * y)
  | "/" => if y = 0 then if matters then none else number 0 else number (x.tdiv y)
  | "%" => if y = 0 then if matters then none else number 0 else number (x.tmod y)
  | _ => none

/-- A number with what follows it. -/
abbrev Read := Option (Number × List Token)

/-- The operator at the start of a text, if it is one of these. -/
def operatorAmong? (ops : List String) : List Token → Option (String × List Token)
  | .mark m :: rest => if ops.contains m then some (m, rest) else none
  | _ => none

/-- Read operands of a level and the operators between them. `operand` reads one; what stands
behind `||` or `&&` does not matter where the first operand decides. -/
def chain (ops : List String) (operand : Bool → List Token → Read) (matters : Bool) :
    (fuel : Nat) → Number → List Token → Read
  | 0, _, _ => none
  | fuel + 1, left, ts =>
    match operatorAmong? ops ts with
    | none => some (left, ts)
    | some (op, rest) => do
      let decided := (op = "||" && left.holds) || (op = "&&" && !left.holds)
      let (right, rest) ← operand (matters && !decided) rest
      let v ← operate matters op left right
      chain ops operand matters fuel v rest

/-- Read operators of these levels. -/
def levelsFrom (unary : Bool → List Token → Read) (fuel : Nat) :
    List (List String) → Bool → List Token → Read
  | [], matters, ts => unary matters ts
  | ops :: tighter, matters, ts => do
    let (left, rest) ← levelsFrom unary fuel tighter matters ts
    chain ops (levelsFrom unary fuel tighter) matters fuel left rest

mutual

/-- Read a number with the operators before it. -/
def unary : (fuel : Nat) → Bool → List Token → Read
  | 0, _, _ => none
  | fuel + 1, matters, ts =>
    match ts with
    | .mark "+" :: rest => unary fuel matters rest
    | .mark "-" :: rest => do
      let (n, rest) ← unary fuel matters rest
      return (.ofInt n.isUnsigned (-n.value), rest)
    | .mark "~" :: rest => do
      let (n, rest) ← unary fuel matters rest
      return (.ofInt n.isUnsigned (-n.value - 1), rest)
    | .mark "!" :: rest => do
      let (n, rest) ← unary fuel matters rest
      return (.ofBool (!n.holds), rest)
    | .mark "(" :: rest => do
      let (n, rest) ← choice fuel matters rest
      match rest with
      | .mark ")" :: rest => return (n, rest)
      | _ => none
    | .number s :: rest => do
      let l ← intLiteral? s
      return (.ofInt (l.isUnsigned || (Nat.pow 2 63 ≤ l.value : Bool)) l.value, rest)
    | .character s :: rest => do
      let n ← charLiteral? s
      return (.ofInt false n, rest)
    | .word _ :: rest => some (⟨0, false⟩, rest)
    | _ => none

/-- Read a whole expression, with a choice between two others if there is one. -/
def choice : (fuel : Nat) → Bool → List Token → Read
  | 0, _, _ => none
  | fuel + 1, matters, ts => do
    let (c, rest) ← levelsFrom (unary fuel) (ts.length + 1) levels matters ts
    match rest with
    | .mark "?" :: rest =>
      let (a, rest) ← choice fuel (matters && c.holds) rest
      match rest with
      | .mark ":" :: rest =>
        let (b, rest) ← choice fuel (matters && !c.holds) rest
        let both := a.isUnsigned || b.isUnsigned
        return (.ofInt both (if c.holds then a.value else b.value), rest)
      | _ => none
    | _ => return (c, rest)

end

/-- Whether the tokens of a condition say that it holds; none if they make no condition. -/
def holds? (ts : List Token) : Option Bool :=
  match choice (ts.length + 1) true ts with
  | some (n, []) => some n.holds
  | _ => none

end MiddleEnd.Compiler.Condition
