/-
  The types of C, as a compiler for 64 bit machines knows them: which types are the same, which
  values are converted to which type, and how much room they take.
-/
import MiddleEnd.Compiler.Tree

namespace MiddleEnd.Compiler

/-! ## Types -/

/-- What a declaration adds to a type. -/
structure Quals where
  isConst : Bool
  isVolatile : Bool
  isRestrict : Bool
  isAtomic : Bool
  /-- Whether the program gave the type a name. It is the same type under that name. -/
  isNamed : Bool
  deriving DecidableEq, Repr

namespace Quals

def none : Quals := ⟨false, false, false, false, false⟩

def const : Quals := { none with isConst := true }

def volatile : Quals := { none with isVolatile := true }

def restrict : Quals := { none with isRestrict := true }

def atomic : Quals := { none with isAtomic := true }

def named : Quals := { none with isNamed := true }

def union (p q : Quals) : Quals :=
  ⟨p.isConst || q.isConst, p.isVolatile || q.isVolatile, p.isRestrict || q.isRestrict,
    p.isAtomic || q.isAtomic, p.isNamed || q.isNamed⟩

end Quals

/-- The widths of integers, from the least. -/
inductive Rank
  | char
  | short
  | int
  | long
  | longLong
  | int128
  deriving DecidableEq, Repr

namespace Rank

def bits : Rank → Nat
  | char => 8
  | short => 16
  | int => 32
  | long | longLong => 64
  | int128 => 128

/-- The place of a rank among all of them. -/
def position : Rank → Nat
  | char => 0
  | short => 1
  | int => 2
  | long => 3
  | longLong => 4
  | int128 => 5

end Rank

/-- How many elements an array has. -/
inductive Length
  | known (n : Nat)
  | unknown
  /-- A number that is known only when the program runs. -/
  | variable
  deriving DecidableEq, Repr

inductive Ty
  | void
  | bool
  /-- The type of characters, which is no other integer type. -/
  | char
  | int (rank : Rank) (isUnsigned : Bool)
  | real (k : RealKind)
  | complex (k : RealKind)
  | pointer (target : Ty)
  | array (element : Ty) (length : Length)
  | function (result : Ty) (params : List Ty) (isVariadic : Bool)
  /-- A function about whose parameters nothing is said. -/
  | oldFunction (result : Ty)
  /-- A struct or union, by its number. -/
  | record (id : Nat)
  | enum (id : Nat)
  /-- A type of the compiler's own. -/
  | builtin (name : String)
  | qualified (q : Quals) (t : Ty)
  deriving Repr

namespace Ty

def signedInt : Ty := .int .int false

/-- The type of sizes. -/
def size : Ty := .int .long true

def double : Ty := .real .double

/-- Add qualifiers to a type; those of an array are its elements'. -/
def qualify (q : Quals) : Ty → Ty
  | array e n => array (e.qualify q) n
  | qualified p t => qualified (p.union q) t
  | t => if q = .none then t else qualified q t

def unqualified : Ty → Ty
  | qualified _ t => t
  | t => t

def quals : Ty → Quals
  | qualified q _ => q
  | array e _ => e.quals
  | _ => .none

def isConst (t : Ty) : Bool := t.quals.isConst

/-- Whether the type has a name that the program gave it. -/
def isNamed : Ty → Bool
  | qualified q _ => q.isNamed
  | _ => false

/-- A type with a name of the program's own, or without one. -/
def withName (isNamed : Bool) (t : Ty) : Ty := if isNamed then t.qualify .named else t

/-! ## Classes -/

def isVoid (t : Ty) : Bool :=
  match t.unqualified with
  | void => true
  | _ => false

def isInteger (t : Ty) : Bool :=
  match t.unqualified with
  | bool | char | int .. | enum _ => true
  | _ => false

def isReal (t : Ty) : Bool :=
  match t.unqualified with
  | real _ => true
  | _ => false

def isComplex (t : Ty) : Bool :=
  match t.unqualified with
  | complex _ => true
  | _ => false

def isArithmetic (t : Ty) : Bool := t.isInteger || t.isReal || t.isComplex

def isPointer (t : Ty) : Bool :=
  match t.unqualified with
  | pointer _ => true
  | _ => false

def isScalar (t : Ty) : Bool := t.isArithmetic || t.isPointer

def isFunction (t : Ty) : Bool :=
  match t.unqualified with
  | function .. | oldFunction _ => true
  | _ => false

def isArray (t : Ty) : Bool :=
  match t.unqualified with
  | array .. => true
  | _ => false

def isRecord (t : Ty) : Bool :=
  match t.unqualified with
  | record _ => true
  | _ => false

def isBool (t : Ty) : Bool :=
  match t.unqualified with
  | bool => true
  | _ => false

/-- What a pointer points to. -/
def target? (t : Ty) : Option Ty :=
  match t.unqualified with
  | pointer t => some t
  | _ => none

/-- The result of a function. -/
def result? (t : Ty) : Option Ty :=
  match t.unqualified with
  | function r _ _ | oldFunction r => some r
  | _ => none

/-- Whether the type, or one that it is made of, depends on values of the running program. -/
def isVariable : Ty → Bool
  | array _ .variable => true
  | array e _ => e.isVariable
  | pointer t => t.isVariable
  | qualified _ t => t.isVariable
  | _ => false

/-- The type of a value: arrays and functions give their address. -/
def decayed (t : Ty) : Ty :=
  match t.unqualified with
  | array e _ => .pointer e
  | function .. | oldFunction _ => .pointer t
  | u => u.withName t.isNamed

/-! ## Stored forms -/

def intForm? (t : Ty) : Option IntForm :=
  match t.unqualified with
  | bool => some .bool
  | char => some (.plain 8 true)
  | int r u => some ⟨r.bits, !u, t.isNamed⟩
  | enum _ => some (.plain 32 false)
  | _ => none

def form (t : Ty) : Form :=
  match t.intForm?, t.unqualified with
  | some f, _ => .int f
  | none, real k => .real k
  | none, pointer _ => .pointer
  | none, _ => .other

/-! ## Conversions -/

/-- Integers narrower than `int` are widened to it wherever they are computed with. -/
def promoted (t : Ty) : Ty :=
  match t.unqualified with
  | bool | char => signedInt
  | int r u =>
    if r.position < Rank.int.position then signedInt else (int r u).withName t.isNamed
  | enum _ => .int .int true
  | u => u

/-- The place of a format among all of them. -/
def realPosition : RealKind → Nat
  | .float => 1
  | .double => 2
  | .longDouble => 4
  | .other name => if name = "_Float16" then 0 else if name = "_Float128" then 5 else 3

def widerReal (k l : RealKind) : RealKind := if realPosition k < realPosition l then l else k

def realKind? (t : Ty) : Option RealKind :=
  match t.unqualified with
  | real k | complex k => some k
  | _ => none

/-- The common type of two promoted integer types. -/
def commonInteger (r : Rank) (u : Bool) (q : Rank) (v : Bool) : Ty :=
  if u = v then int (if r.position < q.position then q else r) u
  else
    let (signed, unsigned) := if u then (q, r) else (r, q)
    if signed.position ≤ unsigned.position then int unsigned true
    else if unsigned.bits < signed.bits then int signed false
    else int signed true

/-- Whether the common type of two promoted integer types goes by a name of the program's: it does if
it is one of the two, unless both are `long` and only one of them has a name. -/
def commonIsNamed (a b : Ty) : Bool :=
  match a.unqualified, b.unqualified with
  | int r u, int q v =>
    if r.bits < q.bits then b.isNamed
    else if q.bits < r.bits then a.isNamed
    else if r = .long || r = .longLong || q = .longLong then
      r = q && u = v && a.isNamed && b.isNamed
    else if u then a.isNamed
    else b.isNamed
  | _, _ => false

/-- The type in which two numbers are computed with. -/
def common (a b : Ty) : Ty :=
  match a.realKind?, b.realKind? with
  | none, none =>
    let a := a.promoted
    let b := b.promoted
    match a.unqualified, b.unqualified with
    | int r u, int q v => (commonInteger r u q v).withName (commonIsNamed a b)
    | _, _ => a
  | some k, none => if a.isComplex then complex k else real k
  | none, some k => if b.isComplex then complex k else real k
  | some k, some l =>
    if a.isComplex || b.isComplex then complex (widerReal k l) else real (widerReal k l)

/-! ## Sameness -/

/-- Whether a parameter may be declared without its type: it is not changed by being passed. -/
def selfPromoting (t : Ty) : Bool :=
  match t.unqualified with
  | bool | char | real .float => false
  | int r _ => Rank.int.position ≤ r.position
  | _ => true

mutual

/-- A type without the names that the program gave to it and its parts. -/
def anonymous : Ty → Ty
  | pointer t => pointer t.anonymous
  | array e n => array e.anonymous n
  | function r ps v => function r.anonymous (anonymousAll ps) v
  | oldFunction r => oldFunction r.anonymous
  | qualified q t => t.anonymous.qualify { q with isNamed := false }
  | t => t

def anonymousAll : List Ty → List Ty
  | [] => []
  | t :: ts => t.anonymous :: anonymousAll ts

end

mutual

/-- Whether two types without names may be declared for the same thing. -/
def agrees : Ty → Ty → Bool
  | void, void | bool, bool | char, char => true
  | int r u, int q v => r = q && u = v
  | int .int true, enum _ | enum _, int .int true => true
  | real k, real l | complex k, complex l => k = l
  | pointer a, pointer b => agrees a b
  | array a n, array b m =>
    agrees a b && match n, m with
      | .known n, .known m => n = m
      | _, _ => true
  | function r ps v, function r' ps' v' => agrees r r' && agreeAll ps ps' && v = v'
  | oldFunction r, oldFunction r' => agrees r r'
  | function r ps v, oldFunction r' => agrees r r' && !v && selfPromotingAll ps
  | oldFunction r, function r' ps v => agrees r r' && !v && selfPromotingAll ps
  | record i, record j | enum i, enum j => i = j
  | builtin m, builtin n => m = n
  | qualified p a, qualified q b => p = q && agrees a b
  | _, _ => false

def agreeAll : List Ty → List Ty → Bool
  | [], [] => true
  | a :: as, b :: bs => agrees a b && agreeAll as bs
  | _, _ => false

def selfPromotingAll : List Ty → Bool
  | [] => true
  | a :: as => a.selfPromoting && selfPromotingAll as

end

/-- Whether two types may be declared for the same thing. -/
def compatible (a b : Ty) : Bool := a.anonymous.agrees b.anonymous

/-- Whether a value of one type can be stored in a place of another. Numbers are converted, and
pointers and integers are taken for one another. -/
def accepts (target value : Ty) : Bool :=
  let t := target.unqualified
  let v := value.unqualified
  if t.isArithmetic && v.isArithmetic then true
  else if t.isPointer && (v.isPointer || v.isInteger) then true
  else if t.isInteger && v.isPointer then true
  else match t with
    | record _ | builtin _ => t.compatible v
    | _ => false

/-! ## Composite types -/

/-- What two declarations of the same thing say together about its type. -/
def composite : Ty → Ty → Ty
  | array a n, array b m =>
    array (composite a b) (match n with
      | .unknown => m
      | n => n)
  | oldFunction _, t@(function ..) => t
  | t, _ => t

end Ty

/-! ## Room -/

/-- The bytes of a value, and the number that its address is a multiple of. -/
structure Extent where
  size : Nat
  align : Nat
  deriving DecidableEq, Repr

/-- The greatest number of bytes of a value. -/
def maxSize : Nat := 9223372036854775807

namespace Extent

/-- The next multiple of an alignment. -/
def roundUp (n align : Nat) : Nat := (n + align - 1) / align * align

/-- Extents one behind the other. -/
def sequence (es : List Extent) : Extent :=
  let align := es.foldl (fun a e => max a e.align) 1
  let offset := es.foldl (fun n e => roundUp n e.align + e.size) 0
  ⟨roundUp offset align, align⟩

/-- Extents all in the same place. -/
def overlay (es : List Extent) : Extent :=
  let align := es.foldl (fun a e => max a e.align) 1
  ⟨roundUp (es.foldl (fun n e => max n e.size) 0) align, align⟩

end Extent

/-- A part of a struct or union. Parts without a name are structs and unions whose parts count as
parts of the whole. -/
structure Field where
  name : Option String
  type : Ty
  /-- The number of bits, for a part that has no bytes of its own. -/
  width : Option Nat
  deriving Repr

structure Record where
  isUnion : Bool
  /-- The parts, once they are known. -/
  fields : Option (List Field)
  extent : Extent
  deriving Repr

/-- The parts that have values: all but mere gaps between others. -/
def Record.parts? (r : Record) : Option (List Field) :=
  r.fields.map (·.filter fun f => f.name.isSome || f.type.isRecord)

namespace Ty

/-- The extent of a type that is complete. -/
def extent? (records : Array Record) : Ty → Option Extent
  | void => some ⟨1, 1⟩
  | bool | char => some ⟨1, 1⟩
  | int r _ => some ⟨r.bits / 8, r.bits / 8⟩
  | real k => some (realExtent k)
  | complex k => some ⟨2 * (realExtent k).size, (realExtent k).align⟩
  | pointer _ => some ⟨8, 8⟩
  | array e n => do
    let x ← e.extent? records
    match n with
    | .known n => return ⟨n * x.size, x.align⟩
    | .variable => return ⟨0, x.align⟩
    | .unknown => none
  | function .. | oldFunction _ => some ⟨1, 1⟩
  | record id => do
    let r ← records[id]?
    if r.fields.isSome then return r.extent else none
  | enum _ => some ⟨4, 4⟩
  | builtin _ => some ⟨24, 8⟩
  | qualified _ t => t.extent? records
where
  realExtent : RealKind → Extent
    | .float => ⟨4, 4⟩
    | .double => ⟨8, 8⟩
    | .longDouble => ⟨16, 16⟩
    | .other name =>
      if name = "_Float16" then ⟨2, 2⟩
      else if name = "_Float32" || name = "_Decimal32" then ⟨4, 4⟩
      else if name = "_Float64" || name = "_Float32x" || name = "_Decimal64" then ⟨8, 8⟩
      else ⟨16, 16⟩

/-- Whether values of the type can be stored. -/
def isComplete (records : Array Record) (t : Ty) : Bool :=
  !t.isVoid && !t.isFunction && (t.extent? records).isSome

end Ty

end MiddleEnd.Compiler
