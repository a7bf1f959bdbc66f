/-
  What a compiler knows at a place of a program: what each name stands for, the parts of the structs
  and unions so far, and the values of variables that never change.
-/
import Std.Data.TreeMap
import MiddleEnd.Compiler.Compute
import MiddleEnd.Compiler.Ty

namespace MiddleEnd.Compiler

/-! ## Initial values -/

/-- A value that is known before the program runs. Of an array or record only those parts are listed
that were given a value. -/
inductive Initial
  | scalar (t : Tree)
  | parts (items : List (Nat × Initial))
  deriving Repr

def Initial.part? (position : Nat) : Initial → Option Initial
  | parts items => items.lookup position
  | scalar _ => none

/-! ## Names -/

/-- Whether declarations elsewhere mean the same thing by a name. -/
inductive Linkage
  | none
  /-- Everywhere in this program text. -/
  | internal
  | external
  deriving DecidableEq, Repr

inductive Entity
  | typedef (t : Ty)
  | object (id : Nat) (t : Ty) (linkage : Linkage) (isDefined : Bool) (isRegister : Bool)
  | function (id : Nat) (t : Ty) (linkage : Linkage) (isDefined : Bool)
  | enumerator (value : Int)
  deriving Repr

/-- What a name behind `struct`, `union` or `enum` stands for. -/
inductive Tag
  | record (id : Nat) (isUnion : Bool)
  | enum (id : Nat) (isComplete : Bool)
  deriving Repr

/-- The names that are declared between two braces, or outside all of them. -/
structure Frame where
  names : Std.TreeMap String Entity
  tags : Std.TreeMap String Tag

namespace Frame

def empty : Frame := ⟨{}, {}⟩

end Frame

structure Scope where
  /-- The names declared in blocks, those of the innermost first. -/
  blocks : List Frame
  /-- The names declared outside all functions. -/
  file : Frame
  records : Array Record
  /-- How many types, variables and functions there are. -/
  count : Nat
  /-- The values of variables that never change. -/
  values : Std.TreeMap Nat Initial

namespace Scope

def empty : Scope := ⟨[], .empty, #[], 0, {}⟩

def isFileLevel (s : Scope) : Bool := s.blocks.isEmpty

/-- The innermost frame. -/
def frame (s : Scope) : Frame := s.blocks.headD s.file

def modifyFrame (s : Scope) (f : Frame → Frame) : Scope :=
  match s.blocks with
  | [] => { s with file := f s.file }
  | b :: outer => { s with blocks := f b :: outer }

def lookup? (s : Scope) (name : String) : Option Entity :=
  (s.blocks.firstM fun b => b.names.get? name) <|> s.file.names.get? name

def tag? (s : Scope) (name : String) : Option Tag :=
  (s.blocks.firstM fun b => b.tags.get? name) <|> s.file.tags.get? name

/-- Whether a name is one of a type here. -/
def isTypeName (s : Scope) (name : String) : Bool :=
  match s.lookup? name with
  | some (.typedef _) => true
  | _ => false

def declare (s : Scope) (name : String) (e : Entity) : Scope :=
  s.modifyFrame fun f => { f with names := f.names.insert name e }

def declareTag (s : Scope) (name : String) (t : Tag) : Scope :=
  s.modifyFrame fun f => { f with tags := f.tags.insert name t }

/-- A new number. -/
def fresh (s : Scope) : Nat × Scope := (s.count, { s with count := s.count + 1 })

/-- A new struct or union whose parts are not known yet. -/
def newRecord (s : Scope) (isUnion : Bool) : Nat × Scope :=
  (s.records.size, { s with records := s.records.push ⟨isUnion, none, ⟨0, 1⟩⟩ })

def enter (s : Scope) : Scope := { s with blocks := .empty :: s.blocks }

def leave (s : Scope) : Scope := { s with blocks := s.blocks.drop 1 }

end Scope

/-! ## Values of trees -/

mutual

/-- Put the values of variables that never change into a tree, and simplify it. -/
def Tree.fold (exact : Bool) (value? : Nat → Option Initial) : Tree → Tree
  | .object f id =>
    match value? id with
    | some (.scalar t) => t
    | _ => .object f id
  | .member f b p =>
    match (Tree.initial? exact value? b).bind (·.part? p) with
    | some (.scalar t) => t
    | _ => .member f (b.fold exact value?) p
  | .element f b i =>
    let index := i.fold exact value?
    match index, Tree.initial? exact value? b with
    | .int _ n, some initial =>
      match if n < 0 then none else initial.part? n.toNat with
      | some (.scalar t) => t
      | _ => .element f (b.fold exact value?) index
    | _, _ => .element f (b.fold exact value?) index
  | .target f e => .target f (e.fold exact value?)
  | .convert f e => (Tree.convert f (e.fold exact value?)).reduced exact
  | .negate f e => (Tree.negate f (e.fold exact value?)).reduced exact
  | .complement f e => (Tree.complement f (e.fold exact value?)).reduced exact
  | .not f e => (Tree.not f (e.fold exact value?)).reduced exact
  | .arith op f a b => (Tree.arith op f (a.fold exact value?) (b.fold exact value?)).reduced exact
  | .relation r f a b =>
    (Tree.relation r f (a.fold exact value?) (b.fold exact value?)).reduced exact
  | .both f a b => (Tree.both f (a.fold exact value?) (b.fold exact value?)).reduced exact
  | .either f a b => (Tree.either f (a.fold exact value?) (b.fold exact value?)).reduced exact
  | .choose f c a b =>
    (Tree.choose f (c.fold exact value?) (a.fold exact value?) (b.fold exact value?)).reduced exact
  | .stuck e => e
  | t => t

/-- The known value of an array or record. -/
def Tree.initial? (exact : Bool) (value? : Nat → Option Initial) : Tree → Option Initial
  | .object _ id => value? id
  | .member _ b p => (Tree.initial? exact value? b).bind (·.part? p)
  | .element _ b i =>
    match i.fold exact value? with
    | .int _ n => if n < 0 then none else (Tree.initial? exact value? b).bind (·.part? n.toNat)
    | _ => none
  | _ => none

end

end MiddleEnd.Compiler
