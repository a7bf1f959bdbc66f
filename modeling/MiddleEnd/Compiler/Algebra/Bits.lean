/-
  Rules for operators on single bits, and, or, and exclusive or, and for shifts.
-/
import MiddleEnd.Compiler.Algebra.Arithmetic

namespace MiddleEnd.Compiler

open Tree

/-- An operator on the bits of two values of a form. -/
def onBits (f : IntForm) (op : Nat → Nat → Nat) (m n : Int) : Int :=
  f.wrap (op (f.bitsOf m) (f.bitsOf n))

/-- How many of the last bits are zero. -/
def trailingZeros (f : IntForm) (n : Int) : Nat :=
  ((List.range f.bits).find? fun i => (f.bitsOf n).testBit i).getD f.bits

/-! ## Truth values -/

/-- Whether a value is nothing but zero or one. -/
def isTruthValue (t : Tree) : Bool :=
  t.isTruth ||
    match t.form with
    | .int f => f.bits = 1
    | _ => false

/-- Whether a value is one exactly where another is zero. -/
def isInverseOf (t x : Tree) : Bool :=
  match t with
  | .relation .eq _ y z => z.isZero && y.sameForm x
  | .relation .ne _ y z => z.isOne && isTruthValue y && y.sameForm x
  | .complement _ y | .not _ y => isTruthValue y && y.sameForm x
  | .arith .xor _ y z => z.isOne && isTruthValue y && y.sameForm x
  | _ => false

/-- Whether one of two truth values holds exactly where the other does not, by their shapes. -/
def isInverse (x y : Tree) : Bool :=
  (isInverseOf x y && isTruthValue y) || (isInverseOf y x && isTruthValue x)

/-! ## Two comparisons -/

/-- The outcomes of a comparison for which a relation holds: less, equal, greater. -/
def outcomes (r : Relation) : List Bool := [Ordering.lt, .eq, .gt].map r.ofOrdering

/-- The relation between two comparisons of the same values: what both say, or what either says, if
that is the same whatever the values are. -/
def bothRelations (r r' : Relation) : Option Bool :=
  let both := (outcomes r).zipWith (· && ·) (outcomes r')
  if both.all (!·) then some false else none

def eitherRelation (r r' : Relation) : Option Bool :=
  let either := (outcomes r).zipWith (· || ·) (outcomes r')
  if either.all id then some true else none

/-- Whether no integer, or every integer, is related to constants so. Only the constants themselves
and numbers beside them need to be tried. -/
def samples (m n : Int) : List Int := [m - 1, m, m + 1, n - 1, n, n + 1]

/-- What two comparisons joined by an operator come to, if that is the same whatever the values are.
-/
def comparisons? (op : Arith) (x y : Tree) : Option Bool :=
  match x, y with
  | .relation r _ p q, .relation r' _ p' q' =>
    match p.form with
    | .int _ =>
      if !p.sameForm p' then none
      else
        match q, q' with
        | .int _ m, .int _ n =>
          let related (k : Int) : Bool × Bool := (r.holds k m, r'.holds k n)
          match op with
          | .and => if (samples m n).all fun k => !((related k).1 && (related k).2) then some false else none
          | .or => if (samples m n).all fun k => (related k).1 || (related k).2 then some true else none
          | _ => none
        | q, q' =>
          if !q.sameForm q' then none
          else
            match op with
            | .and => bothRelations r r'
            | .or => eitherRelation r r'
            | _ => none
    | _ => none
  | _, _ => none

/-! ## Rules -/

/-- Rules that hold for more than one operator. -/
def bitPattern? (op : Arith) : Step := fun b f x y =>
  let F := Form.int f
  (match comparisons? op x y with
    | some v => some (ofTruth F v)
    | none => none)
  <|> (match op with
    | .and =>
      if isInverseOf x y || isInverseOf y x then some (.int f 0) else none
    | _ => if isInverse x y then some (ofTruth F true) else none)
  <|> (match x, y with
    | .complement _ p, .complement _ q =>
      match op with
      | .and => some (b.complement f (b.arith .or f p q))
      | .or => some (b.complement f (b.arith .and f p q))
      | _ => some (b.arith .xor f p q)
    | _, _ => none)
  <|> (match x, y with
    | .arith op' _ z (.int _ c), .int _ d =>
      if op = op' then
        let g : Nat → Nat → Nat :=
          match op with
          | .and => Nat.land
          | .or => Nat.lor
          | _ => Nat.xor
        some (b.arith op f z (.int f (onBits f g c d)))
      else none
    | _, _ => none)

/-- An operator on widened values, as one that is computed before they are widened. -/
def beforeWidening? (op : Arith) : Step := fun b f x y =>
  let F := Form.int f
  match x with
  | .convert _ e =>
    match e.form with
    | .int g =>
      let inside (z : Tree) : Option Tree := some (b.convert F (b.arith op g e z))
      if f.bits ≤ g.bits then none
      else
        match y with
        | .int _ c => if g.holds c then inside (.int g c) else none
        | .convert _ z =>
          match z.form with
          | .int h => if g.isLike h then inside (b.convert (.int g) z) else none
          | _ => none
        | _ => none
    | _ => none
  | _ => none

/-- What is left of one of two trees that share an operand. -/
def shared? (op op' : Arith) (x y : Tree) : Option (Tree × Tree × Tree) :=
  (x.orders op).firstM fun (p, q) =>
    (y.orders op').firstM fun (r, s) => if p.same r then some (p, q, s) else none

/-- Whether two operators have the same operands. -/
def sameOperands (op op' : Arith) (x y : Tree) : Bool :=
  match shared? op op' x y with
  | some (_, q, s) => q.same s
  | none => false

def andPattern? : Step := fun b f x y =>
  if y.isZero then some (.int f 0)
  else if y.isAllOnes || x.same y then some x
  else if (complementaryForm? x y).isSome then some (.int f 0)
  else
    bitPattern? .and b f x y
    <|> ((bothOrders x y).firstM fun (x, y) =>
      -- the whole is one of the parts
      ((y.without? .or x).map fun _ => x)
      <|> ((y.without? .and x).map fun _ => y)
      <|> ((y.orders .or).firstM fun (p, q) =>
        if complementary p x then some (b.arith .and f x q) else none)
      <|> (match y with
        | .complement _ z => (z.without? .and x).map fun w => b.arith .and f x (b.complement f w)
        | _ => none))
    <|> (match x, y with
      | .arith .or _ p (.int _ c), .int _ d =>
        some (b.arith .or f (b.arith .and f p y) (.int f (onBits f Nat.land c d)))
      | .arith .shl _ p (.int _ n), .int _ c =>
        if n < 0 || (f.bits : Int) ≤ n then none
        else
          let mask := Nat.pow 2 n.toNat - 1
          if Nat.land (f.bitsOf c) (Nat.pow 2 f.bits - 1 - mask) = 0 then some (.int f 0)
          else if f.bitsOf c + mask + 1 = Nat.pow 2 f.bits then some x
          else let _ := p; none
      | .arith .shl _ (.int _ c) _, .int _ d => if d = 1 && c % 2 = 0 then some (.int f 0) else none
      | _, _ => none)

def andRule? : Step := fun b f x y =>
  (match x, y with
    | .arith .mul _ _ (.int _ c), .int _ d =>
      let zeros := trailingZeros f c
      if 0 < zeros && Nat.land (f.bitsOf d) (Nat.pow 2 f.bits - Nat.pow 2 zeros) = 0 then
        some (.int f 0)
      else none
    | .convert _ e, .int _ d =>
      match e.form with
      | .int g =>
        let isMask := g.bitsOf d + 1 = Nat.pow 2 g.bits
        if !g.isSigned && 1 < g.bits && isMask then some x else none
      | _ => none
    | _, _ => none)
  <|> gather? b .and f (.split .and x) (.split .and y)

def orPattern? : Step := fun b f x y =>
  if y.isZero || x.same y then some x
  else if y.isAllOnes || complementary x y then some (ofInt f (-1))
  else
    bitPattern? .or b f x y
    <|> ((bothOrders x y).firstM fun (x, y) =>
      ((y.without? .and x).map fun _ => x)
      <|> ((y.without? .or x).map fun _ => y)
      <|> ((y.orders .and).firstM fun (p, q) =>
        if complementary p x then some (b.arith .or f x q) else none))
    <|> beforeWidening? .or b f x y

def orRule? : Step := fun b f x y =>
  (match x, y with
    | .arith .and _ p (.int _ c), .int _ d =>
      let union := onBits f Nat.lor c d
      if union = d then some y
      else if (Tree.int f union).isAllOnes then some (b.arith .or f p y)
      else none
    | _, _ => none)
  <|> gather? b .or f (.split .or x) (.split .or y)

def xorPattern? : Step := fun b f x y =>
  if y.isZero then some x
  else if x.same y then some (.int f 0)
  else if complementary x y then some (ofInt f (-1))
  else
    bitPattern? .xor b f x y
    <|> (if y.isAllOnes then some (b.complement f x) else none)
    <|> ((bothOrders x y).firstM fun (x, y) =>
      x.inverted?.map fun z => b.complement f (b.arith .xor f z y))
    <|> ((bothOrders x y).firstM fun (x, y) => y.without? .xor x)
    <|> (if sameOperands .and .or x y || sameOperands .or .and x y then
        (x.operands? .and <|> x.operands? .or).map fun (p, q) => b.arith .xor f p q
      else none)
    <|> beforeWidening? .xor b f x y

def xorRule? : Step := fun b f x y =>
  gather? b .xor f (.split .xor x) (.split .xor y)

/-! ## Inversion -/

/-- Rules for truth values that are inverted. -/
def notRule? (b : Builder) (F : Form) (x : Tree) : Option Tree :=
  match x with
  | .int _ v => some (ofTruth F (v = 0))
  | .not _ x => some (b.convert F x)
  | .relation r _ p q =>
    match p.form with
    | .int _ => some (b.relation r.opposite F p q)
    | _ => none
  | .both _ p q => some (b.reduce (.either F (inverse p) (inverse q)))
  | .either _ p q => some (b.reduce (.both F (inverse p) (inverse q)))
  | _ => none
where
  inverse (t : Tree) : Tree := b.reduce (.not F t)

/-- Rules for inverted bits. -/
def complementRule? (b : Builder) (f : IntForm) (x : Tree) : Option Tree :=
  match x with
  | .int _ v => some (ofInt f (-v - 1))
  | .complement _ x => some x
  | .negate _ x => some (b.arith .sub f x (.int f 1))
  | .arith .add _ x c => if c.isAllOnes then some (b.negate f x) else none
  | _ => none

/-! ## Shifts

A shift by as many bits as there are, or more, leaves nothing of a number that is not negative. -/

/-- Whether a number of bits is taken for a negative one: its first bit is set. -/
def isNegativeCount (g : IntForm) (n : Int) : Bool := g.signed.wrap n < 0

def shiftPattern? (op : Arith) : Step := fun b f x y =>
  let bits : Int := f.bits
  if y.isZero || x.isZero then some x
  else if op = .shr && f.isSigned && x.isAllOnes then some x
  else if op = .shr && x.same y then some (.int f 0)
  else
    match y with
    | .int g n =>
      if isNegativeCount g n then none
      else if bits ≤ n then
        if op = .shl || x.isNonnegative then some (.int f 0) else none
      else
        match x with
        | .arith op' _ z (.int h m) =>
          if op'.isBitwise then
            (op.value? f m n).map fun d => b.arith op' f (b.arith op f z y) (.int f d)
          else if op ≠ op' || isNegativeCount h m || bits ≤ m then none
          else if m + n < bits then some (b.arith op f z (.int h (m + n)))
          else if op = .shl || !f.isSigned then some (.int f 0)
          else some (b.arith op f z (.int h (bits - 1)))
        | _ => none
    | _ => none

end MiddleEnd.Compiler
