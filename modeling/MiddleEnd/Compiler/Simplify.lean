/-
  What a compiler makes of an expression before the program runs. An expression that comes out as a
  constant is one, even if variables stand in it; so which rules there are decides which programs
  are accepted. Each rule keeps the value wherever the original expression has one.

  Of the rules for an operator those for certain shapes come first, then operators are pushed into
  choices, and rules for any operands come last.
-/
import MiddleEnd.Compiler.Algebra.Relation

namespace MiddleEnd.Compiler

open Tree

/-! ## Conversions between forms -/

/-- A conversion of a converted integer, as one conversion. -/
def twice? (b : Builder) (f g : IntForm) (x : Tree) : Option Tree :=
  match x.form with
  | .int h =>
    let once : Option Tree := some (b.convert (.int f) x)
    if f = h && f.bits ≤ g.bits then some x
    else if h.bits ≤ g.bits && g.isSigned = h.isSigned then once
    else if (h.bits < g.bits && g.bits < f.bits && !h.isSigned && g.isSigned) || f.bits = g.bits then
      once
    else if (h.bits ≤ g.bits || f.bits ≤ g.bits) &&
        !(g.isSigned != h.isSigned && g.bits < f.bits) &&
        ((!g.isSigned && h.bits < g.bits) == (!f.isSigned && g.bits < f.bits)) then once
    else none
  | _ => none

def convertRule? (b : Builder) (target : Form) (e : Tree) : Option Tree :=
  match target, e with
  | .int f, .int _ v => some (.int f (f.wrap v))
  | .int f, .real _ v => some (.int f (Real.toInt f v))
  | .real k, .int _ v => k.format?.map fun f => .real k (Real.ofInt f v)
  | .real k, .real l v =>
    match k.format? with
    | some f => some (.real k (f.convert v))
    | none => if k = l then some e else some (.real k v)
  | .pointer, .int f v => if v = 0 || f.bits = 64 then some (.int .address v) else none
  | .int f, .address l => if f.bits = 64 then some (.address l) else none
  | .pointer, .address l => some (.address l)
  | .int f, .relation .. => if f = .bool then some (e.withForm target) else none
  | .int f, .both .. | .int f, .either .. => if f = .bool then some (e.withForm target) else none
  | .int _, .choose _ c x y =>
    if x.isInt || y.isInt then some (b.choose target c (b.convert target x) (b.convert target y))
    else none
  | .int f, .convert (.int g) x => twice? b f g x
  | .int f, .arith .and (.int g) x (.int _ c) =>
    -- a mask without the sign can be laid on the converted value
    if f.bits ≠ 1 && (!g.isSigned || f.bits ≤ g.bits || 0 ≤ c) then
      some (b.arith .and f (b.convert target x) (ofInt f c))
    else none
  | .int f, .arith .shl (.int g) x (.int h n) =>
    if g.bits < f.bits || n ≤ 0 then none
    else if f.bits = g.bits || n < f.bits then
      some (b.arith .shl f (b.convert target x) (.int h n))
    else some (.int f 0)
  | .int f, .arith .mul (.int g) x y =>
    if f.bits < g.bits then
      let unsigned := f.unsigned
      some (b.convert target
        (b.arith .mul unsigned (b.convert (.int unsigned) x) (b.convert (.int unsigned) y)))
    else none
  | _, _ => none

/-! ## Order of operands -/

/-- Whether two operands that may be exchanged should be: constants stand last, and then variables.
-/
def shouldExchange (x y : Tree) : Bool :=
  if y.isConstant then false
  else if x.isConstant then true
  else
    match y.bare, x.bare with
    | .object .., _ => false
    | _, .object .. => true
    | _, _ => false

/-! ## Operators -/

/-- Rules for an operator on operands of certain shapes. -/
def pattern? (op : Arith) : Step :=
  match op with
  | .add => sumPattern?
  | .sub => differencePattern?
  | .mul => productPattern?
  | .div => quotientPattern?
  | .rem => remainderPattern?
  | .and => andPattern?
  | .or => orPattern?
  | .xor => xorPattern?
  | .shl | .shr => shiftPattern? op

/-- Rules for an operator on any operands. -/
def general? (op : Arith) : Step :=
  match op with
  | .add => sumRule?
  | .sub => differenceRule?
  | .mul => productRule?
  | .div => quotientRule?
  | .and => andRule?
  | .or => orRule?
  | .xor => xorRule?
  | .rem | .shl | .shr => fun _ _ _ _ => none

/-- Whether an operator may stop the program, so that it must not be computed in vain. -/
def mayStop (op : Arith) (divisor : Tree) : Bool :=
  match op with
  | .div | .rem =>
    match divisor with
    | .int _ v => v = 0
    | _ => true
  | _ => false

def arithRule? (b : Builder) (op : Arith) (f : IntForm) (x y : Tree) : Option Tree :=
  let F := Form.int f
  match x, y with
  | .int _ v, .int _ w =>
    -- of the number of bits only as many bits count as the shifted number has
    let w := if op.isShift then f.signed.wrap w else w
    if op.isShift && w < 0 then pattern? op b f x y
    else (op.value? f v w).map (.int f)
  | _, _ =>
    if op.isCommutative && shouldExchange x y then some (b.arith op f y x)
    else
      pattern? op b f x y
      <|> truthBits? b op f x y
      <|> (if mayStop op y then none else distribute? b F (.arith op F) x y)
      <|> general? op b f x.bare y.bare

def intRelation? (b : Builder) (r : Relation) (F : Form) (f : IntForm) (x y : Tree) : Option Tree :=
  if shouldExchange x y then some (b.relation r.swap F y x)
  else
    relationPattern? b r F f x y
    <|> (if r.isEquality && areTruths x y then
        (differ? x y).map fun d => ofTruth F (d == (r = .ne : Bool))
      else none)
    <|> distribute? b F (.relation r F) x y
    <|> relationRule? b r F f x y

/-! ## All rules -/

/-- Whether computing a real value would stop a program that is told of every exception. -/
def traps (op : Arith) (a b v : Binary.Value) : Bool :=
  match v with
  | .infinite _ =>
    match a, b with
    | .finite .., .finite .. => true
    | _, _ => false
  | .nan => op = .div && Real.isZero b
  | _ => false

/-- One step at the root of a tree whose parts are simplified already. `exact` says that exceptions
count. -/
def rule? (exact : Bool) (b : Builder) : Tree → Option Tree
  | .convert f e => if e.form = f then some e else convertRule? b f e
  | .negate (.int f) e => negateRule? b f e
  | .negate (.real k) e =>
    match e with
    | .real _ v => some (.real k (Real.negate v))
    | _ => none
  | .complement (.int f) e => complementRule? b f e
  | .not f e => notRule? b f e
  | .arith op (.int f) x y => arithRule? b op f x y
  | .arith op (.real k) (.real _ v) (.real _ w) => do
    let f ← k.format?
    let u ← Real.operate? f op v w
    if exact && traps op v w u then none else some (.real k u)
  | .relation r F x y =>
    match x, y with
    | .int _ v, .int _ w => some (ofTruth F (r.holds v w))
    | .real _ v, .real _ w => some (ofTruth F (Real.holds r v w))
    | .address _, .int _ v =>
      if v = 0 && r.isEquality then some (ofTruth F (r = .ne)) else none
    | _, _ =>
      match x.form with
      | .int f => intRelation? b r F f x y
      | .real _ => if x.same y && (r = .lt || r = .gt) then some (ofTruth F false) else none
      | _ => none
  | .both F x y => bothRule? F x y
  | .either F x y => eitherRule? F x y
  | .choose f c x y => chooseRule? b f c x y
  | _ => none

/-- Simplify at the root, with rules in rules down to a depth. -/
def simplifyRoot (exact : Bool) : (depth : Nat) → Tree → Tree
  | 0, t => t
  | depth + 1, t => (rule? exact ⟨simplifyRoot exact depth⟩ t).getD t

/-- Rules lead to others at most this often. -/
def deepest : Nat := 24

def Tree.reduced (exact : Bool) (t : Tree) : Tree := simplifyRoot exact deepest t

end MiddleEnd.Compiler
