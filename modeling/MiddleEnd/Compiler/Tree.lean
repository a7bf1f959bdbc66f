/-
  Expressions as far as their values may be known before the program runs: trees over constants and
  places in memory, with a stored form at every node.
-/
import MiddleEnd.Compiler.Value

namespace MiddleEnd.Compiler

/-- How values of a type are stored. -/
inductive Form
  | int (f : IntForm)
  | real (k : RealKind)
  | pointer
  /-- Records, arrays and all else. -/
  | other
  deriving DecidableEq, Repr

namespace Form

/-- Whether values of two forms are stored alike. -/
def isLike : Form → Form → Bool
  | int f, int g => f.isLike g
  | F, G => F = G

/-- Whether a conversion from another form keeps every bit. -/
def keepsBits : Form → Form → Bool
  | int f, int g => f.bits = g.bits
  | _, _ => false

end Form

inductive Tree
  | int (f : IntForm) (value : Int)
  | real (k : RealKind) (value : Binary.Value)
  /-- The address of something that is there for as long as the program runs. -/
  | address (label : Nat)
  /-- A variable, by its number. -/
  | object (f : Form) (id : Nat)
  | member (f : Form) (base : Tree) (position : Nat)
  | element (f : Form) (base index : Tree)
  /-- What a pointer points to. -/
  | target (f : Form) (pointer : Tree)
  | convert (f : Form) (e : Tree)
  | negate (f : Form) (e : Tree)
  /-- All bits inverted. -/
  | complement (f : Form) (e : Tree)
  /-- Whether a truth value does not hold. -/
  | not (f : Form) (e : Tree)
  | arith (op : Arith) (f : Form) (a b : Tree)
  /-- Whether two values are related, as a number. -/
  | relation (r : Relation) (f : Form) (a b : Tree)
  /-- Whether two truth values hold; the second counts only if the first holds. -/
  | both (f : Form) (a b : Tree)
  /-- Whether one of two truth values holds; the second counts only if the first does not. -/
  | either (f : Form) (a b : Tree)
  | choose (f : Form) (condition a b : Tree)
  /-- An expression that is made of constants alone, and yet has no value. -/
  | stuck (e : Tree)
  /-- Anything else: its value is known only when the program runs, and computing it may change
  something. -/
  | unknown (f : Form)
  deriving DecidableEq, Repr

namespace Tree

def form : Tree → Form
  | int f _ => .int f
  | real k _ => .real k
  | address _ => .pointer
  | object f _ | member f _ _ | element f _ _ | target f _ | convert f _ | negate f _
  | complement f _ | not f _ | arith _ f _ _ | relation _ f _ _ | both f _ _ | either f _ _
  | choose f _ _ _ | unknown f => f
  | stuck e => e.form

/-- The same tree with another form at the root. -/
def withForm (f : Form) : Tree → Tree
  | relation r _ a b => relation r f a b
  | both _ a b => both f a b
  | either _ a b => either f a b
  | t => t

/-- Whether computing a value changes nothing. -/
def isPure : Tree → Bool
  | int .. | real .. | address .. | object .. => true
  | member _ b _ => b.isPure
  | target _ e | convert _ e | negate _ e | complement _ e | not _ e | stuck e => e.isPure
  | element _ a b | arith _ _ a b | relation _ _ a b | both _ a b | either _ a b =>
    a.isPure && b.isPure
  | choose _ c a b => c.isPure && a.isPure && b.isPure
  | unknown _ => false

/-- An expression without the conversions around it that keep every bit. -/
def bare : Tree → Tree
  | convert f e => if f.keepsBits e.form then e.bare else convert f e
  | t => t

/-- Whether two trees are the same, but for conversions that keep every bit. The second one has none of
them at its root. -/
def agrees : Tree → Tree → Bool
  | convert f a, c =>
    if f.keepsBits a.form then agrees a c
    else
      match c with
      | convert g c => f.isLike g && a.form.isLike c.form && agrees a c.bare
      | _ => false
  | int f v, int g w => f.bits = g.bits && v = w
  | real k v, real l w => k = l && v = w
  | address l, address m => l = m
  | object _ i, object _ j => i = j
  | member _ a p, member _ b q => p = q && agrees a b.bare
  | element _ a i, element _ b j => agrees a b.bare && agrees i j.bare
  | target _ a, target _ b => agrees a b.bare
  | negate f a, negate g b | complement f a, complement g b | not f a, not g b =>
    f.isLike g && agrees a b.bare
  | arith op f a b, arith op' g c d =>
    let both (c d : Tree) : Bool :=
      a.form.isLike c.form && agrees a c.bare && b.form.isLike d.form && agrees b d.bare
    op = op' && f.isLike g && (both c d || (op.isCommutative && both d c))
  | relation r _ a b, relation r' _ c d =>
    let both (c d : Tree) : Bool :=
      a.form.isLike c.form && agrees a c.bare && b.form.isLike d.form && agrees b d.bare
    (r = r' && both c d) || (r = r'.swap && both d c)
  | both _ a b, both _ c d | either _ a b, either _ c d => agrees a c.bare && agrees b d.bare
  | choose _ c a b, choose _ c' a' b' => agrees c c'.bare && agrees a a'.bare && agrees b b'.bare
  | stuck a, stuck b => agrees a b.bare
  | _, _ => false

/-- Whether two trees have the same value wherever both are computed, as far as their shapes show.
-/
def same (a b : Tree) : Bool := a.form.isLike b.form && agrees a b.bare

/-- Whether a value is the same one whenever the program runs. -/
def isConstant : Tree → Bool
  | int .. | real .. | address .. => true
  | _ => false

/-! ## Shapes -/

def isInt : Tree → Bool
  | int .. => true
  | _ => false

def isZero : Tree → Bool
  | int _ v => v = 0
  | _ => false

def isOne : Tree → Bool
  | int _ v => v = 1
  | _ => false

/-- Whether it is the number with all bits set. -/
def isAllOnes : Tree → Bool
  | int f v => f.bitsOf v + 1 = Nat.pow 2 f.bits
  | _ => false

/-- Whether it is a power of two. -/
def isPowerOfTwo : Tree → Bool
  | int f v => let n := f.bitsOf v; n ≠ 0 && Nat.land n (n - 1) = 0
  | _ => false

/-- Whether it is one comparison. -/
def isRelation : Tree → Bool
  | relation .. => true
  | _ => false

/-- Whether it is a comparison, or made of truth values. -/
def isTruth : Tree → Bool
  | relation .. | both .. | either .. | not .. => true
  | _ => false

/-- The number of a form that has the same last bits. -/
def ofInt (f : IntForm) (n : Int) : Tree := .int f (f.wrap n)

/-- A truth value as a number of a form. -/
def ofTruth (f : Form) (b : Bool) : Tree :=
  match f with
  | .int g => .int g (Compiler.truth b)
  | _ => .int .int (Compiler.truth b)

/-- Whether two trees have the same value, stored in the same form. -/
def sameForm (a b : Tree) : Bool := a.same b

end Tree

end MiddleEnd.Compiler
