/-
  Rules for sums, differences, products, quotients and remainders of integers. In sums equal terms
  cancel, and constants are gathered. A number with a sign must not overflow where it did not
  before; one without a sign wraps around. Quotients are rounded towards zero, and a remainder has
  the sign of what is divided.
-/
import MiddleEnd.Compiler.Algebra.Builder

namespace MiddleEnd.Compiler

open Tree

/-! ## Opposites -/

/-- Whether a number has one bit set. -/
def hasOneBit (n : Nat) : Bool := n ≠ 0 && Nat.land n (n - 1) = 0

/-- Whether the opposite of a value is as easy to compute as the value. -/
def isEasyToNegate : Tree → Bool
  | .int f v => !f.isSigned || v ≠ f.least
  | .complement (.int f) _ => !f.isSigned
  | .negate .. => true
  | .arith .add (.int f) x y => !f.isSigned && (isEasyToNegate x || isEasyToNegate y)
  | .arith .sub (.int f) _ _ => !f.isSigned
  | .arith .mul (.int f) x y =>
    let isSafe : Tree → Bool
      | .int _ v => !hasOneBit v.natAbs
      | _ => false
    f.isSigned && (isSafe x || isSafe y) && (isEasyToNegate x || isEasyToNegate y)
  | .arith .div (.int f) x y =>
    f.isSigned && ((x.isInt && isEasyToNegate x) || (y.isInt && !y.isOne && isEasyToNegate y))
  | _ => false

/-- The opposite of a value. -/
def opposite (b : Builder) (f : IntForm) : Tree → Tree
  | .int _ v => ofInt f (-v)
  | .complement _ x => b.arith .add f x (.int f 1)
  | .negate _ x => x
  | .arith .add F x y =>
    if isEasyToNegate y then b.arith .sub f (opposite b f y) x
    else if isEasyToNegate x then b.arith .sub f (opposite b f x) y
    else .negate (.int f) (.arith .add F x y)
  | .arith .sub _ x y => b.arith .sub f y x
  | .arith .mul F x y =>
    if !f.isSigned then .negate (.int f) (.arith .mul F x y)
    else if isEasyToNegate y then b.arith .mul f x (opposite b f y)
    else if isEasyToNegate x then b.arith .mul f (opposite b f x) y
    else .negate (.int f) (.arith .mul F x y)
  | .arith .div F x y =>
    if !f.isSigned then .negate (.int f) (.arith .div F x y)
    else if x.isInt && isEasyToNegate x then b.arith .div f (opposite b f x) y
    else if y.isInt && !y.isOne && isEasyToNegate y then b.arith .div f x (opposite b f y)
    else .negate (.int f) (.arith .div F x y)
  | t => .negate (.int f) t

/-! ## Gathering -/

/-- A tree as a sum or product of an expression and a constant; each may have to be subtracted. -/
structure Parts where
  term : Option Tree
  minusTerm : Option Tree
  constant : Option Int
  minusConstant : Option Int

namespace Parts

def ofTerm (t : Tree) : Parts := ⟨some t, none, none, none⟩

/-- Split a tree at an operator. Differences count as sums. -/
def split (op : Arith) (t : Tree) : Parts :=
  match t with
  | .int _ v => ⟨none, none, some v, none⟩
  | .arith op' _ x y =>
    let isDifference := op = .add && op' = .sub
    if op' = op || isDifference then
      match x, y with
      | .int _ v, y => if isDifference then ⟨none, some y, some v, none⟩ else ⟨some y, none, some v, none⟩
      | x, .int _ v => if isDifference then ⟨some x, none, none, some v⟩ else ⟨some x, none, some v, none⟩
      | _, _ => ofTerm t
    else ofTerm t
  | .complement _ e => if op = .add then ⟨none, some e, some (-1), none⟩ else ofTerm t
  | _ => ofTerm t

def negate (p : Parts) : Parts := ⟨p.minusTerm, p.term, p.minusConstant, p.constant⟩

/-- The parts as values of another form. -/
def converted (b : Builder) (g : IntForm) (p : Parts) : Parts :=
  ⟨p.term.map (b.convert (.int g)), p.minusTerm.map (b.convert (.int g)), p.constant.map g.wrap,
    p.minusConstant.map g.wrap⟩

/-- How many parts there are. -/
def count (p : Parts) : Nat :=
  p.term.toList.length + p.minusTerm.toList.length + p.constant.toList.length +
    p.minusConstant.toList.length

end Parts

/-- Put two parts together. A part that has the same operator at its root is left as it is. -/
def join (b : Builder) (op : Arith) (f : IntForm) : Option Tree → Option Tree → Option Tree
  | none, y => y
  | x, none => x
  | some x, some y =>
    let isChain : Tree → Bool
      | .arith op' _ _ _ => op' = op || op' = .add || op' = .sub
      | _ => false
    if isChain x || isChain y then
      match op, x, y with
      | .add, .negate _ x, y => some (.arith .sub (.int f) y x)
      | .add, x, .negate _ y => some (.arith .sub (.int f) x y)
      | .add, x, y | .sub, x, y =>
        if y.isZero then some x else some (.arith op (.int f) x y)
      | op, x, y => some (.arith op (.int f) x y)
    else some (b.arith op f x y)

/-- Whether two terms cancel: one is the opposite of the other. -/
def cancels (x y : Tree) : Bool :=
  match x, y with
  | .negate .., .negate .. => false
  | .negate _ x, y | x, .negate _ y => x.same y
  | _, _ => false

/-- Gather the terms and the constants of two trees. Where numbers do not wrap around, only equal
terms may meet, and the constants must not overflow. -/
def gather? (b : Builder) (op : Arith) (f : IntForm) (p q : Parts) : Option Tree := do
  let isAllowed :=
    !f.isSigned ||
      match p.term, p.minusTerm, q.term, q.minusTerm with
      | some x, _, some y, _ => cancels x y
      | _, some x, _, some y => cancels x y
      | some x, _, _, some y | _, some x, some y, _ => x.same y
      | _, _, _, _ => true
  if !isAllowed || p.count + q.count ≤ 2 then none
  let exact (op : Arith) (m n : Int) : Option Int := do
    let v ← op.value? f m n
    let w : Int :=
      match op with
      | .add => m + n
      | .sub => m - n
      | .mul => m * n
      | _ => v
    if f.isSigned && v ≠ w then none else some v
  let meet (op : Arith) : Option Int → Option Int → Option (Option Int)
    | none, y => some y
    | x, none => some x
    | some x, some y => (exact op x y).map some
  let term := join b op f p.term q.term
  let minusTerm := join b op f p.minusTerm q.minusTerm
  let constant ← meet op p.constant q.constant
  let minusConstant ← meet op p.minusConstant q.minusConstant
  let (term, minusTerm) :=
    match term, minusTerm with
    | some x, some y => (join b .sub f (some x) (some y), none)
    | x, y => (x, y)
  let (constant, minusConstant) ←
    match constant, minusConstant with
    | some m, some n =>
      if m < n && term.isSome then do pure (none, some (← exact .sub n m))
      else do pure (some (← exact .sub m n), none)
    | m, n => pure (m, n)
  let literal (n : Option Int) : Option Tree := n.map (Tree.int f)
  let term :=
    match constant, minusConstant with
    | none, some n => join b .sub f term (some (.int f n))
    | _, _ => term
  let rest := (literal constant).bind fun c =>
    match minusTerm with
    | some y => join b .sub f (some c) (some y)
    | none => some c
  join b op f term rest

/-! ## Common factors -/

/-- Take a common factor out of two products; a tree that is none is a product with one. -/
def factorOut? (b : Builder) (isDifference : Bool) (f : IntForm) (x y : Tree) : Option Tree := do
  let one := Tree.int f 1
  let isProduct (t : Tree) : Bool := (t.operands? .mul).isSome
  if !(isProduct x || isProduct y) then none
  let split (t : Tree) : Tree × Tree :=
    match t with
    | .arith .mul _ p q => (p, q)
    | .int _ _ => (one, t)
    | t => (t, one)
  let (x₀, x₁) := split x
  let (y₀, y₁, isDifference) :=
    match y with
    | .int _ v =>
      if v < 0 && isEasyToNegate y && !isDifference then (one, ofInt f (-v), true)
      else (one, y, isDifference)
    | y => let (p, q) := split y; (p, q, isDifference)
  let (common, p, q) ←
    if x₀.same y₀ then some (x₀, x₁, y₁)
    else if x₁.same y₁ then some (x₁, x₀, y₀)
    else if x₀.same y₁ then some (x₀, x₁, y₀)
    else if x₁.same y₀ then some (x₁, x₀, y₁)
    else none
  let op : Arith := if isDifference then .sub else .add
  if !f.isSigned || common.isInt then some (b.arith .mul f (b.arith op f p q) common)
  else
    let unsigned := f.unsigned
    let inside := b.arith op unsigned (b.convert (.int unsigned) p) (b.convert (.int unsigned) q)
    match inside with
    | .int _ v =>
      if v = (Nat.pow 2 (f.bits - 1) : Int) then none
      else some (b.arith .mul f (ofInt f v) common)
    | _ => none

/-! ## Rules -/

/-- Gather the constants of a sum that is added to a constant, even if they overflow together. -/
def addConstant? (b : Builder) (f : IntForm) (x : Tree) (c : Int) : Option Tree :=
  match x with
  | .arith .add _ x (.int _ d) => shift x (d + c)
  | .arith .sub _ x (.int _ d) => shift x (c - d)
  | .arith .sub _ (.int _ d) x =>
    if !f.isSigned || f.holds (d + c) then some (b.arith .sub f (ofInt f (d + c)) x) else none
  | _ => none
where
  shift (x : Tree) (d : Int) : Option Tree :=
    if !f.isSigned || f.holds d then some (b.arith .add f x (ofInt f d))
    else
      let unsigned := f.unsigned
      some (b.convert (.int f)
        (b.arith .add unsigned (b.convert (.int unsigned) x) (ofInt unsigned d)))

/-- Rules for sums of certain shapes. -/
def sumPattern? : Step := fun b f x y =>
  if y.isZero then some x
  else if x.same y then some (b.arith .mul f x (.int f 2))
  else ((complementaryForm? x y).map fun g => ofInt f (g.wrap (-1)))
  <|> (bothOrders x y).firstM fun (x, y) =>
    (match y with
      | .negate _ z => some (b.arith .sub f x z)
      | _ => none)
    <|> (match x with
      | .arith .sub _ p q => if q.same y then some p else none
      | _ => none)
    <|> (match y with
      | .arith .sub _ r s =>
        -- what is subtracted on one side is added on the other
        ((x.without? .add s).map fun p => b.arith .add f r p)
        <|> (match x with
          | .arith .sub _ p q => if p.same s then some (b.arith .sub f r q) else none
          | _ => none)
      | _ => none)
    <|> (match x with
      | .complement _ p => if y.isOne then some (b.negate f p) else none
      | _ => none)
    <|> (match y with
      | .int _ c => addConstant? b f x c
      | _ => none)
    <|> (match x, y with
      | .arith .and _ p q, .arith .or _ r s =>
        if (p.same r && q.same s) || (p.same s && q.same r) then some (b.arith .add f p q) else none
      | .arith .and _ p q, .arith .xor _ r s =>
        if (p.same r && q.same s) || (p.same s && q.same r) then some (b.arith .or f p q) else none
      | _, _ => none)

/-- Gather the terms and the constants of a sum, or of a difference. Where one of the operands wraps
around, so may the whole. -/
def gatherTerms? (b : Builder) (f : IntForm) (x y : Tree) (asAdded : Parts → Parts) : Option Tree :=
  let isUnsigned (t : Tree) : Bool :=
    match t.form with
    | .int g => !g.isSigned
    | _ => false
  let p := Parts.split .add x
  let q := asAdded (Parts.split .add y)
  if f.isSigned && (isUnsigned x || isUnsigned y) then
    let g := f.unsigned
    (gather? b .add g (p.converted b g) (q.converted b g)).map (b.convert (.int f))
  else gather? b .add f p q

/-- Rules for any sum. -/
def sumRule? : Step := fun b f x y =>
  factorOut? b false f x y <|> gatherTerms? b f x y id

/-- Rules for differences of certain shapes. -/
def differencePattern? : Step := fun b f x y =>
  if y.isZero then some x
  else if x.same y then some (.int f 0)
  else if x.isZero then some (b.negate f y)
  else
    (match y with
      | .negate _ z => some (b.arith .add f x z)
      | _ => none)
    <|> x.without? .add y
    <|> (match x with
      | .arith .sub _ p q => if p.same y then some (b.negate f q) else none
      | _ => none)
    <|> ((y.without? .add x).map (b.negate f))
    <|> (match y with
      | .arith .sub _ p q => if p.same x then some q else none
      | _ => none)
    <|> (match y with
      | .arith .sub _ p q => (x.without? .add p).map fun z => b.arith .add f z q
      | _ => none)
    <|> (if x.isAllOnes then some (b.complement f y) else none)
    <|> (match x, y with
      | .negate _ p, y => if y.isOne then some (b.complement f p) else none
      | _, _ => none)
    <|> (match x, y with
      | x, .int _ c => if f.isSigned && c = f.least then none else addConstant? b f x (-c)
      | .int _ c, .arith .sub _ (.int _ d) z =>
        if !f.isSigned || f.holds (c - d) then some (b.arith .add f z (ofInt f (c - d))) else none
      | .int _ c, .arith .add _ z (.int _ d) =>
        if !f.isSigned || f.holds (c - d) then some (b.arith .sub f (ofInt f (c - d)) z) else none
      | _, _ => none)
    <|> (match x, y with
      | .arith .or _ p q, .arith op _ r s =>
        if (p.same r && q.same s) || (p.same s && q.same r) then
          match op with
          | .and => some (b.arith .xor f p q)
          | .xor => some (b.arith .and f p q)
          | _ => none
        else none
      | .complement _ p, .complement _ q => some (b.arith .sub f q p)
      | _, _ => none)

/-- Rules for any difference. -/
def differenceRule? : Step := fun b f x y =>
  (match x with
    | .negate _ p => if isEasyToNegate y then some (b.arith .sub f (opposite b f y) p) else none
    | _ => none)
  <|> ((y.without? .and x).map fun z => b.arith .and f (b.complement f z) x)
  <|> (if isEasyToNegate y then some (b.arith .add f x (opposite b f y)) else none)
  <|> factorOut? b true f x y
  <|> gatherTerms? b f x y Parts.negate

/-- Rules for opposites. -/
def negateRule? (b : Builder) (f : IntForm) (x : Tree) : Option Tree :=
  match x with
  | .int _ v => some (ofInt f (-v))
  | .negate _ x => some x
  | .complement _ x => some (b.arith .add f x (.int f 1))
  | .arith .sub _ x y => some (b.arith .sub f y x)
  | t => if isEasyToNegate t then some (opposite b f t) else none

/-! ## Products -/

def productPattern? : Step := fun b f x y =>
  if y.isZero then some (.int f 0)
  else if y.isOne then some x
  else if y.isAllOnes then some (b.negate f x)
  else (bothOrders x y).firstM fun (x, y) =>
    match y with
    | .arith .shl _ p q => if p.isOne then some (b.arith .shl f x q) else none
    | _ => none

/-- Multiply a constant into a product or quotient. -/
def productRule? : Step := fun b f x y =>
  (match y with
    | .int _ c =>
      if f.isSigned && c < 0 && c ≠ f.least && isEasyToNegate x then
        some (b.arith .mul f (opposite b f x) (ofInt f (-c)))
      else none
    | _ => none)
  <|> gather? b .mul f (.split .mul x) (.split .mul y)

/-! ## Quotients -/

def quotientPattern? : Step := fun b f x y =>
  if y.isZero then none
  else if y.isOne then some x
  else if f.isSigned && y.isAllOnes then some (b.negate f x)
  else if x.isZero then some (.int f 0)
  else if x.same y then some (.int f 1)
  else
    (match x, y with
      | .arith .div _ p (.int _ c), .int _ d =>
        let n := c * d
        if f.holds n then some (b.arith .div f p (.int f n))
        else if !f.isSigned || f.wrap n ≠ f.least then some (.int f 0)
        else none
      | _, _ => none)
    <|> (if x.isOne && !f.isSigned && 1 < f.bits then
        some (b.convert (.int f) (b.relation .eq (.int .bool) y (.int f 1)))
      else none)
    <|> (if f.isSigned then x.without? .mul y else none)
    <|> (match x, y with
      | .arith .mul _ p q, .int _ c =>
        if !f.isSigned && q.same y && y.isPowerOfTwo then
          some (b.arith .and f p (ofInt f (f.greatest / c)))
        else none
      | _, _ => none)
    <|> (match y with
      | .arith .shl _ p q => if p.isOne && x.isNonnegative then some (b.arith .shr f x q) else none
      | _ => none)

/-- Divide a product by a constant that divides its constant. -/
def quotientRule? : Step := fun b f x y =>
  match x, y with
  | .arith .mul _ p (.int _ c), .int _ d =>
    if f.isSigned && d ≠ 0 && c.tmod d = 0 then some (b.arith .mul f p (.int f (c.tdiv d))) else none
  | _, _ => none

/-! ## Remainders -/

def remainderPattern? : Step := fun b f x y =>
  if !y.isZero && (x.isZero || y.isOne || (f.isSigned && y.isAllOnes) || x.same y) then
    some (.int f 0)
  else
    (match x with
      | .arith .rem _ _ q => if q.same y then some x else none
      | _ => none)
    <|> (match x, y with
      | .arith .mul _ _ (.int _ c), .int _ d =>
        if f.isSigned && (d = 0 || c.tmod d = 0) then some (.int f 0) else none
      | _, .int _ d =>
        if f.isSigned && d < 0 && d ≠ f.least then some (b.arith .rem f x (.int f (-d))) else none
      | _, _ => none)
    <|> (match y with
      | .int _ d =>
        if 0 < d && y.isPowerOfTwo && x.isNonnegative then some (b.arith .and f x (.int f (d - 1)))
        else none
      | .arith .shl _ (.int _ d) _ =>
        if 0 < d && (Tree.int f d).isPowerOfTwo && x.isNonnegative then
          let unsigned := f.unsigned
          let mask := b.arith .sub unsigned (b.convert (.int unsigned) y) (.int unsigned 1)
          some (b.arith .and f x (b.convert (.int f) mask))
        else none
      | _ => none)

end MiddleEnd.Compiler
