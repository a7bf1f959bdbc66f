/-
  How rules about expressions make new ones. What a rule makes may be simplified by other rules, so
  a rule gets the means to do that as an argument. Some rules ask what the shape of an expression
  says about its value: that it is not negative, or not zero.
-/
import MiddleEnd.Compiler.Tree

namespace MiddleEnd.Compiler

/-! ## Signs -/

namespace Tree

/-- The form of the value inside of a conversion from an integer without a sign. -/
def unsignedInside? : Tree → Option IntForm
  | convert _ e =>
    match e.form with
    | .int g => if g.isSigned || g.bits = 1 then none else some g
    | _ => none
  | _ => none

/-- Whether a value is not negative because of its shape. Numbers with a sign do not overflow. -/
def isNonnegative : Tree → Bool
  | int _ v => 0 ≤ v
  | relation .. | both .. | either .. => true
  | convert (.int f) e =>
    match e.form with
    | .int g => !f.isSigned || (g.bits < f.bits && !g.isSigned)
    | _ => !f.isSigned
  | arith op (.int f) a b =>
    !f.isSigned ||
      match op with
      | .add =>
        match unsignedInside? a, unsignedInside? b with
        | some g, some h => max g.bits h.bits + 1 < f.bits
        | _, _ => false
      | .mul => a.same b || (a.isNonnegative && b.isNonnegative)
      | .and => a.isNonnegative || b.isNonnegative
      | .or | .xor | .div => a.isNonnegative && b.isNonnegative
      | .rem => a.isNonnegative
      | .sub | .shl | .shr => false
  | choose _ _ a b => a.isNonnegative && b.isNonnegative
  | t =>
    match t.form with
    | .int f => !f.isSigned
    | _ => false

/-- Whether a value is not zero because of its shape. -/
def isNonzero : Tree → Bool
  | int _ v => v ≠ 0
  | address _ => true
  | convert f e =>
    match f, e.form with
    | .int f, .int g => g.bits ≤ f.bits && e.isNonzero
    | _, _ => false
  | negate _ e => e.isNonzero
  | arith op (.int f) a b =>
    match op with
    | .add =>
      f.isSigned && a.isNonnegative && b.isNonnegative && (a.isNonzero || b.isNonzero)
    | .mul => f.isSigned && a.isNonzero && b.isNonzero
    | .or => a.isNonzero || b.isNonzero
    | _ => false
  | choose _ _ a b => a.isNonzero && b.isNonzero
  | _ => false

end Tree

/-! ## New expressions -/

structure Builder where
  /-- Simplify a tree whose parts are simplified already. -/
  reduce : Tree → Tree

namespace Builder

def arith (b : Builder) (op : Arith) (f : IntForm) (x y : Tree) : Tree :=
  b.reduce (.arith op (.int f) x y)

def relation (b : Builder) (r : Relation) (F : Form) (x y : Tree) : Tree :=
  b.reduce (.relation r F x y)

def negate (b : Builder) (f : IntForm) (x : Tree) : Tree := b.reduce (.negate (.int f) x)

def complement (b : Builder) (f : IntForm) (x : Tree) : Tree := b.reduce (.complement (.int f) x)

def convert (b : Builder) (F : Form) (x : Tree) : Tree :=
  if x.form = F then x else b.reduce (.convert F x)

def choose (b : Builder) (F : Form) (c x y : Tree) : Tree := b.reduce (.choose F c x y)

end Builder

/-- What rules about an operator on two integers of a form make of it. -/
abbrev Step := Builder → IntForm → Tree → Tree → Option Tree

namespace Tree

/-- The operands of an operator. -/
def operands? (t : Tree) (op : Arith) : Option (Tree × Tree) :=
  match t with
  | arith op' _ a b => if op = op' then some (a, b) else none
  | _ => none

/-- Two trees in both orders. -/
def bothOrders (a b : Tree) : List (Tree × Tree) := [(a, b), (b, a)]

/-- The operands of an operator that may be exchanged, in both orders. -/
def orders (t : Tree) (op : Arith) : List (Tree × Tree) :=
  match t.operands? op with
  | some (a, b) => bothOrders a b
  | none => []

/-- What is left of a sum, product or the like when one of its operands is taken away. -/
def without? (t : Tree) (op : Arith) (x : Tree) : Option Tree :=
  ((t.orders op).find? fun (a, _) => a.same x).map (·.2)

/-- The operand whose bits are all inverted. -/
def inverted? : Tree → Option Tree
  | complement _ e => some e
  | _ => none

/-- Whether one tree is the other with all bits inverted. -/
def complementary (a b : Tree) : Bool :=
  a.inverted?.any (same b) || b.inverted?.any (same a)

/-- The form of two values, one of which is the other with all bits inverted, before both are
converted. -/
def complementaryForm? (a b : Tree) : Option IntForm :=
  match a, b with
  | convert _ p, convert _ q =>
    match p.form with
    | .int f => if complementary p q then some f else none
    | _ => none
  | a, b =>
    match a.form with
    | .int f => if complementary a b then some f else none
    | _ => none

end Tree

end MiddleEnd.Compiler
