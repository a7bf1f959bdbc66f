/-
  Rules for comparisons of integers: what the form of the values decides, constants that are moved
  from one side to the other, and operators that both sides share. Then the rules for truth values
  and choices, and for operators that are pushed into choices.
-/
import MiddleEnd.Compiler.Algebra.Bits

namespace MiddleEnd.Compiler

open Tree

/-! ## Comparisons with a constant -/

/-- Whether values between two bounds are all related to a constant in the same way. -/
def decided? (r : Relation) (least greatest c : Int) : Option Bool :=
  match r with
  | .eq => if c < least || greatest < c then some false else none
  | .ne => if c < least || greatest < c then some true else none
  | .lt => if greatest < c then some true else if c ≤ least then some false else none
  | .le => if greatest ≤ c then some true else if c < least then some false else none
  | .gt => if greatest ≤ c then some false else if c < least then some true else none
  | .ge => if greatest < c then some false else if c ≤ least then some true else none

/-- A comparison with a constant at, or next to, an end of the range of a form. -/
def atRangeEnd? (b : Builder) (r : Relation) (F : Form) (f : IntForm) (x : Tree) (c : Int) :
    Option Tree :=
  let isEqualTo (n : Int) : Option Tree := some (b.relation .eq F x (.int f n))
  let differsFrom (n : Int) : Option Tree := some (b.relation .ne F x (.int f n))
  if c = f.greatest then
    match r with
    | .ge => isEqualTo c
    | .lt => differsFrom c
    | _ => none
  else if c = f.least then
    match r with
    | .le => isEqualTo c
    | .gt => differsFrom c
    | _ => none
  else if c = f.greatest - 1 then
    match r with
    | .gt => isEqualTo f.greatest
    | .le => differsFrom f.greatest
    | _ => none
  else if c = f.least + 1 then
    match r with
    | .ge => differsFrom f.least
    | .lt => isEqualTo f.least
    | _ => none
  else none

/-- A comparison with the constant next to it, which is nearer to zero. -/
def towardsZero? (b : Builder) (r : Relation) (F : Form) (f : IntForm) (x : Tree) (c : Int) :
    Option Tree :=
  let with_ (r : Relation) (n : Int) : Option Tree := some (b.relation r F x (.int f n))
  match r with
  | .lt => if 0 < c then with_ .le (c - 1) else none
  | .ge => if 0 < c then with_ .gt (c - 1) else none
  | .le => if c < 0 then with_ .lt (c + 1) else none
  | .gt => if c < 0 then with_ .ge (c + 1) else none
  | _ => none

/-- The values whose quotient by a constant is some constant: those between two bounds. -/
def quotientBounds (f : IntForm) (d c : Int) : Int × Int :=
  let product := d * c
  if !f.isSigned then (product, product + (d - 1))
  else if 0 ≤ d then
    if c = 0 then (-(d - 1), d - 1)
    else if c < 0 then (product - (d - 1), product)
    else (product, product + (d - 1))
  else
    if c = 0 then (d + 1, -(d + 1))
    else if c < 0 then (product, product - (d + 1))
    else (product + (d + 1), product)

/-- A comparison of a quotient by a constant with a constant, as one of what is divided. -/
def quotientBound? (b : Builder) (r : Relation) (F : Form) (f : IntForm) (x : Tree) (d c : Int) :
    Option Tree :=
  if d = 0 then none
  else
    let (low, high) := quotientBounds f d c
    let (low, high, r) :=
      if 0 ≤ d then (low, high, r)
      else
        -- a negative divisor turns the order round
        (low, high, if r.isEquality then r else r.swap)
    let known (v : Bool) : Option Tree := some (ofTruth F v)
    let against (r : Relation) (n : Int) : Option Tree := some (b.relation r F x (.int f n))
    let hasLow := f.holds low
    let hasHigh := f.holds high
    match r with
    | .lt | .ge =>
      if hasLow then against r low else known ((r = .lt) == (f.greatest < low : Bool))
    | .le | .gt =>
      if hasHigh then against r high else known ((r = .le) == (f.greatest < high : Bool))
    | .eq | .ne =>
      if !hasLow && !hasHigh then known (r = .ne)
      else if !hasHigh then against (if r = .eq then .ge else .lt) low
      else if !hasLow then against (if r = .eq then .le else .gt) high
      else none

/-- Relations of an operator with one constant operand to a constant. -/
def constantOperand? (b : Builder) (r : Relation) (F : Form) (f : IntForm) (x : Tree) (c : Int) :
    Option Tree :=
  let known (v : Bool) : Option Tree := some (ofTruth F v)
  let against (r : Relation) (x : Tree) (n : Int) : Option Tree :=
    some (b.relation r F x (ofInt f n))
  /- where numbers do not overflow, a constant that does leaves no doubt -/
  let moved (x : Tree) (n : Int) : Option Tree :=
    if r.isEquality then
      if f.isSigned && !f.holds n then known (r = .ne) else against r x n
    else if !f.isSigned then none
    else if f.holds n then against r x n
    else known ((r = .lt || r = .le) == (f.greatest < n : Bool))
  let quotient (x y : Tree) : Option Tree :=
    if c = 0 && r.isEquality && !f.isSigned then
      some (b.relation (if r = .eq then .lt else .ge) F x y)
    else none
  match x with
  | .arith .add _ x (.int _ d) => moved x (c - d)
  | .arith .sub _ x (.int _ d) => moved x (c + d)
  | .arith .sub _ x y => if c = 0 && r.isEquality then some (b.relation r F x y) else none
  | .arith .mul _ x (.int _ d) =>
    if d = 0 then none
    else if f.isSigned && c = 0 then against (if d < 0 then r.swap else r) x 0
    else if !r.isEquality then none
    else if f.isSigned then if c.tmod d = 0 then against r x (c.tdiv d) else known (r = .ne)
    else none
  | .arith .div _ x y =>
    match y with
    | .int _ d => quotient x y <|> quotientBound? b r F f x d c
    | y => quotient x y
  | .arith .xor _ x (.int _ d) =>
    if r.isEquality then against r x (onBits f Nat.xor c d) else none
  | .arith .xor _ x y =>
    if r.isEquality && c = 0 then some (b.relation r F x y) else none
  | .arith .and _ _ (.int _ d) =>
    if r.isEquality && onBits f Nat.land d c ≠ c then known (r = .ne)
    else if 0 ≤ d && c = d && (r = .le || r = .gt) then known (r = .le)
    else none
  | .arith .or _ _ (.int _ d) =>
    if r.isEquality && onBits f Nat.land d c ≠ d then known (r = .ne) else none
  | .arith .shl _ (.int _ d) _ =>
    if !r.isEquality || d = 0 then none
    else if c = 0 then none
    else
      let n := (trailingZeros f c : Int) - trailingZeros f d
      if n < 0 || f.wrap (d * Nat.pow 2 n.toNat) ≠ c then known (r = .ne) else none
  | .negate _ x =>
    if r.isEquality || (f.isSigned && c ≠ f.least) then against r.swap x (-c) else none
  | .complement _ x => against r.swap x (-c - 1)
  | _ => none

/-! ## Converted values -/

/-- A comparison of a converted value, as one of the value itself. -/
def narrowed? (b : Builder) (r : Relation) (F : Form) (f : IntForm) (x y : Tree) : Option Tree :=
  match x with
  | .convert _ e =>
    match e.form with
    | .int g =>
      if g.bits = f.bits then
        match y with
        | .int _ c =>
          if g.isSigned = f.isSigned || r.isEquality then some (b.relation r F e (ofInt g c)) else none
        | .convert _ z =>
          if g.isSigned = f.isSigned || r.isEquality then
            some (b.relation r F e (b.convert (.int g) z))
          else none
        | _ => none
      else if f.bits < g.bits then none
      else if !(r.isEquality || f.isSigned = g.isSigned || (f.isSigned && !g.isSigned)) then none
      else
        match y with
        | .int _ c =>
          if g.holds c then some (b.relation r F e (.int g c))
          else (decided? r g.least g.greatest c).map (ofTruth F)
        | .convert _ z =>
          match z.form with
          | .int h =>
            if h = g || (h.bits ≤ g.bits && h.isSigned = g.isSigned) then
              some (b.relation r F e (b.convert (.int g) z))
            else none
          | _ => none
        | z =>
          match z.form with
          | .int h => if h = g then some (b.relation r F e z) else none
          | _ => none
    | _ => none
  | _ => none

/-! ## Any values -/

/-- Relations between an operator and one of its operands. -/
def ownOperand? (b : Builder) (r : Relation) (F : Form) (f : IntForm) (x y : Tree) : Option Tree :=
  let known (v : Bool) : Option Tree := some (ofTruth F v)
  let zero := Tree.int f 0
  let cancels := f.isSigned || r.isEquality
  (if cancels then (x.without? .add y).map fun z => b.relation r F z zero else none)
  <|> (match x with
    | .arith .sub _ p q =>
      if cancels && p.same y then some (b.relation r.swap F q zero)
      else if r.isEquality && q.same y then
        match p with
        | .int _ c => if c % 2 = 1 then known (r = .ne) else none
        | _ => none
      else none
    | _ => none)
  <|> (if r.isEquality then (x.without? .xor y).map fun z => b.relation r F z zero else none)
  <|> (if f.isSigned then none
    else
      match r, x with
      | .ge, .arith .rem _ _ q | .lt, .arith .rem _ _ q =>
        if q.same y then known (r = .lt) else none
      | _, _ => none)

/-- Relations between operators of the same kind. -/
def sameOperator? (b : Builder) (r : Relation) (F : Form) (f : IntForm) (x y : Tree) :
    Option Tree :=
  let cancels := f.isSigned || r.isEquality
  match x, y with
  | .negate _ p, .negate _ q => if cancels then some (b.relation r F q p) else none
  | .complement _ p, .complement _ q => some (b.relation r F q p)
  | .arith .add .., .arith .add .. =>
    if cancels then (shared? .add .add x y).map fun (_, p, q) => b.relation r F p q else none
  | .arith .sub _ p q, .arith .sub _ p' q' =>
    if !cancels then none
    else if q.same q' then some (b.relation r F p p')
    else if p.same p' then some (b.relation r F q' q)
    else none
  | .arith .xor .., .arith .xor .. =>
    if r.isEquality then (shared? .xor .xor x y).map fun (_, p, q) => b.relation r F p q else none
  | _, _ => none

def relationPattern? (b : Builder) (r : Relation) (F : Form) (f : IntForm) (x y : Tree) :
    Option Tree :=
  if x.same y then some (ofTruth F r.isReflexive)
  else
    (match y with
      | .int _ c =>
        ((decided? r f.least f.greatest c).map (ofTruth F))
        <|> towardsZero? b r F f x c
        <|> atRangeEnd? b r F f x c
      | _ => none)
    <|> (if r.isEquality && (complementary x y || isInverse x y) then some (ofTruth F (r = .ne))
      else none)
    <|> narrowed? b r F f x y
    <|> (match y with
      | .int _ c => constantOperand? b r F f x c
      | _ => none)
    <|> sameOperator? b r F f x y
    <|> ownOperand? b r F f x y
    <|> ownOperand? b r.swap F f y x

/-! ## Comparisons of comparisons -/

/-- The two values that are all that an expression compares, and constants aside all that it is made
of. -/
def comparedValues? : Tree → Option (List Tree)
  | .int .. => some []
  | .relation _ _ p q => if p.same q then none else some [p, q]
  | .convert _ e | .negate _ e | .complement _ e | .not _ e => comparedValues? e
  | .arith _ _ x y | .both _ x y | .either _ x y => do
    return (← comparedValues? x) ++ (← comparedValues? y)
  | .choose _ c x y => do
    return (← comparedValues? c) ++ (← comparedValues? x) ++ (← comparedValues? y)
  | _ => none

/-- An expression with two compared values replaced by others. -/
def substitute (b : Builder) (v w : Tree) (m n : Tree) : Tree → Tree
  | .relation r F p q =>
    let instead (t : Tree) : Tree := if t.same v then m else if t.same w then n else t
    b.relation r F (instead p) (instead q)
  | .convert F e => b.reduce (.convert F (substitute b v w m n e))
  | .negate F e => b.reduce (.negate F (substitute b v w m n e))
  | .complement F e => b.reduce (.complement F (substitute b v w m n e))
  | .not F e => b.reduce (.not F (substitute b v w m n e))
  | .arith op F x y => b.reduce (.arith op F (substitute b v w m n x) (substitute b v w m n y))
  | .both F x y => b.reduce (.both F (substitute b v w m n x) (substitute b v w m n y))
  | .either F x y => b.reduce (.either F (substitute b v w m n x) (substitute b v w m n y))
  | .choose F c x y =>
    b.reduce (.choose F (substitute b v w m n c) (substitute b v w m n x) (substitute b v w m n y))
  | t => t

/-- An expression that is made of comparisons of two values only depends on which is greater: it is
tried for each of the three cases. -/
def threeCases? (b : Builder) (r : Relation) (F : Form) (x : Tree) (c : Int) : Option Tree := do
  let vs ← comparedValues? x
  let v ← vs.head?
  let w ← vs.find? fun t => !t.same v
  if vs.any fun t => !(t.same v || t.same w) then none
  let .int g := v.form | none
  if w.form ≠ .int g || (v.isConstant && w.isConstant) then none
  let .int h := x.form | none
  let high := Tree.int g g.greatest
  let low := Tree.int g g.least
  let outcome (m n : Tree) : Option Bool :=
    match b.relation r F (substitute b v w m n x) (.int h c) with
    | .int _ k => some (k = 1)
    | _ => none
  let greater ← outcome high low
  let equal ← outcome high high
  let less ← outcome low high
  match greater, equal, less with
  | false, false, false => some (ofTruth F false)
  | false, false, true => some (b.relation .lt F v w)
  | false, true, false => some (b.relation .eq F v w)
  | false, true, true => some (b.relation .le F v w)
  | true, false, false => some (b.relation .gt F v w)
  | true, false, true => some (b.relation .ne F v w)
  | true, true, false => some (b.relation .ge F v w)
  | true, true, true => some (ofTruth F true)

/-- A sum with a constant, compared as one with a constant that is nearer to zero. -/
def smallerStep? (b : Builder) (r : Relation) (F : Form) (f : IntForm) (x y : Tree) :
    Option Tree :=
  if !f.isSigned then none
  else
    match x with
    | .arith op _ z (.int _ c) =>
      let step : Int := if op = .sub then -c else c
      if (op ≠ .add && op ≠ .sub) || c = 0 then none
      else
        let r'? : Option Relation :=
          match r with
          | .lt => if step < 0 then some .le else none
          | .gt => if 0 < step then some .ge else none
          | .le => if 0 < step then some .lt else none
          | .ge => if step < 0 then some .gt else none
          | _ => none
        r'?.map fun r' =>
          let c := if c < 0 then c + 1 else c - 1
          b.relation r' F (b.arith op f z (.int f c)) y
    | _ => none

/-- Whether values are equal does not depend on conversions that keep every bit. -/
def bareOperands? (b : Builder) (r : Relation) (F : Form) (x y : Tree) : Option Tree :=
  let p := x.bare
  let q := y.bare
  if !r.isEquality || (p = x && q = y) then none
  else
    match p.form with
    | .int g =>
      ownOperand? b r F g p q
      <|> ownOperand? b r F g q p
      <|> (match p, q with
        | .arith .xor .., .arith .xor .. => sameOperator? b r F g p q
        | _, _ => none)
    | _ => none

/-- Rules for any comparison. -/
def relationRule? (b : Builder) (r : Relation) (F : Form) (f : IntForm) (x y : Tree) :
    Option Tree :=
  let known (v : Bool) : Option Tree := some (ofTruth F v)
  bareOperands? b r F x y
  <|> smallerStep? b r F f x y
  <|> ((smallerStep? b r.swap F f y x))
  <|> (match y with
    | .int _ c => if x.isInt then none else threeCases? b r F x c
    | _ => none)
  <|> (if f = .bool && ((r = .eq && y.isZero) || (r = .ne && y.isOne)) then
      some (b.convert F (b.reduce (.not (.int .bool) x)))
    else none)
  <|> (if !y.isZero then none
    else
      match r with
      | .ge => if x.isNonnegative then known true else none
      | .lt => if x.isNonnegative then known false else none
      | .ne => if x.isNonzero then known true else none
      | .eq => if x.isNonzero then known false else none
      | _ => none)

/-! ## Truth values and choices -/

/-- The truth value that holds where another does not. -/
def oppositeTruth (b : Builder) (t : Tree) : Tree :=
  match t with
  | .int f v => .int f (truth (v = 0))
  | .relation r F x y =>
    match x.form with
    | .real _ => b.relation .eq F t (.int .int 0)
    | _ => b.relation r.opposite F x y
  | t => .relation .eq t.form t (.int .int 0)

def bothRule? (F : Form) (x y : Tree) : Option Tree :=
  if x.isZero || (y.isZero && x.isPure) then some (ofTruth F false)
  else if x.isInt then some (y.withForm F)
  else if y.isInt then some (x.withForm F)
  else none

def eitherRule? (F : Form) (x y : Tree) : Option Tree :=
  if x.isInt && !x.isZero then some (ofTruth F true)
  else if x.isZero then some (y.withForm F)
  else if y.isZero then some (x.withForm F)
  else if y.isInt && x.isPure then some (ofTruth F true)
  else none

def chooseRule? (b : Builder) (F : Form) (c x y : Tree) : Option Tree :=
  match c with
  | .int _ v => some (if v ≠ 0 then x else y)
  | c =>
    if x.same y && c.isPure then some x
    else if x.isOne && y.isZero && c.isTruth then some (c.withForm F)
    else if x.isZero && y.isOne && c.isTruth then some ((oppositeTruth b c).withForm F)
    else none

/-! ## Operators on truth values -/

/-- Whether one is a truth value by its shape, and the other one as well, or the last bit of
something. -/
def areTruths (x y : Tree) : Bool :=
  let isLastBit (t : Tree) : Bool := (t.operands? .and).any (·.2.isOne)
  (x.isTruth && (y.isTruth || isLastBit y)) || (y.isTruth && isLastBit x)

/-- Whether two truth values differ, if that is known. -/
def differ? (x y : Tree) : Option Bool :=
  if x.same y then some false
  else
    match x, y with
    | .relation r _ p q, .relation r' _ p' q' =>
      -- of a number and its sign
      if q.isZero && q'.isZero && p.same p' &&
          ((r = .lt && r' = .ge) || (r = .ge && r' = .lt)) then some true
      else none
    | _, _ => none

/-- An operator on the bits of two truth values, as one on truth values. -/
def truthBits? (b : Builder) (op : Arith) (f : IntForm) (x y : Tree) : Option Tree :=
  if !areTruths x y then none
  else
    let bool := Form.int .bool
    let x := b.convert bool x
    let y := b.convert bool y
    match op with
    | .and => some (b.convert (.int f) (b.reduce (.both bool x y)))
    | .or => some (b.convert (.int f) (b.reduce (.either bool x y)))
    | .xor => (differ? x y).map (ofTruth (.int f))
    | _ => none

/-! ## Pushing operators into choices -/

/-- Push an operator with one constant operand into a choice. A comparison is a choice between one
and zero. -/
def distribute? (b : Builder) (F : Form) (make : Tree → Tree → Tree) (x y : Tree) : Option Tree :=
  let arms (t : Tree) : Option (Tree × Tree × Tree) :=
    match t with
    | .relation _ G _ _ => some (t, ofTruth G true, ofTruth G false)
    | .choose _ c p q => some (c, p, q)
    | _ => none
  let build (c p q : Tree) (op : Tree → Tree) : Tree :=
    b.choose F c (b.reduce (op p)) (b.reduce (op q))
  (match arms x with
    | some (c, p, q) => if y.isConstant then some (build c p q (make · y)) else none
    | none => none)
  <|> (match arms y with
    | some (c, p, q) => if x.isConstant then some (build c p q (make x)) else none
    | none => none)

end MiddleEnd.Compiler
