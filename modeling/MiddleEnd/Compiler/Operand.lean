/-
  What an expression is worth to the operators around it: its type, whether it names a place in
  memory, and as much of its value as may be known before the program runs. An operator refuses
  operands of the wrong types.
-/
import MiddleEnd.Compiler.Scope

namespace MiddleEnd.Compiler

/-! ## Operands -/

/-- Whether an expression names a place in memory. -/
inductive Place
  | none
  | memory
  /-- Bits of a record, which have no address. -/
  | bits
  /-- A variable that is kept out of memory. -/
  | register
  deriving DecidableEq, Repr

structure Operand where
  type : Ty
  place : Place
  tree : Tree
  /-- For a record or array that is written out in the expression, its value, if that is known. -/
  literal : Option (Option Initial)
  /-- Whether it is a string. -/
  isText : Bool
  deriving Repr

namespace Operand

/-- A value without a place. -/
def ofTree (type : Ty) (tree : Tree) : Operand := ⟨type, .none, tree, .none, false⟩

/-- A value that is known only when the program runs. -/
def computed (type : Ty) : Operand := ofTree type (.unknown type.form)

def ofInt (type : Ty) (n : Int) : Operand :=
  match type.intForm? with
  | some f => ofTree type (.int f (f.wrap n))
  | none => computed type

/-- The value of an operand. Arrays and functions give their address. -/
def value (o : Operand) : Operand :=
  let t := o.type.decayed
  if o.type.isArray || o.type.isFunction then
    let tree : Tree :=
      match o.tree with
      | .address l => .address l
      | _ => .unknown .pointer
    ⟨t, .none, tree, none, false⟩
  else ⟨t, .none, o.tree, o.literal, false⟩

/-- The value of an operand as a number of a type. -/
def treeAs (o : Operand) (t : Ty) : Tree :=
  if o.tree.form = t.form then o.tree
  else if t.isBool then
    match o.tree.truth with
    | .int _ v => .int .bool v
    | u => .convert t.form u
  else
    match t.form, o.tree.form with
    | .int f, .int _ => o.tree.cast f
    | form, _ => .convert form o.tree

def isScalar (o : Operand) : Bool := o.value.type.isScalar

/-! ## Arithmetic -/

/-- Whether one can count in steps of what a pointer points to. -/
def hasStep (records : Array Record) (t : Ty) : Bool :=
  match t.target? with
  | some u => (u.extent? records).isSome
  | none => false

def arithmetic (op : Arith) (a b : Operand) : Operand :=
  let t := Ty.common a.type b.type
  match t.form with
  | .int f =>
    let stated := if a.tree.isInt then a.type.promoted else a.type
    let isUnsigned := stated.intForm?.any fun g => !g.isSigned
    ofTree t (.compute op isUnsigned f (a.treeAs a.type.promoted) (b.treeAs b.type.promoted))
  | .other => computed t
  | form => ofTree t (.arith op form (a.treeAs t) (b.treeAs t))

/-- The value of an operator on numbers and addresses. -/
def arith? (records : Array Record) (op : Arith) (a b : Operand) : Option Operand :=
  let a := a.value
  let b := b.value
  let numbers := a.type.isArithmetic && b.type.isArithmetic
  let integers := a.type.isInteger && b.type.isInteger
  match op with
  | .add =>
    if numbers then some (arithmetic op a b)
    else if a.type.isPointer && b.type.isInteger then
      if hasStep records a.type then some (offset a b) else none
    else if a.type.isInteger && b.type.isPointer then
      if hasStep records b.type then some (offset b a) else none
    else none
  | .sub =>
    if numbers then some (arithmetic op a b)
    else if a.type.isPointer && b.type.isInteger then
      if hasStep records a.type then some (offset a b) else none
    else
      match a.type.target?, b.type.target? with
      | some t, some u =>
        if t.unqualified.compatible u.unqualified && hasStep records a.type then
          some (computed (.int .long false))
        else none
      | _, _ => none
  | .mul | .div => if numbers then some (arithmetic op a b) else none
  | .rem | .and | .or | .xor => if integers then some (arithmetic op a b) else none
  | .shl | .shr =>
    if integers then
      let t := a.type.promoted
      match t.intForm? with
      | some f => some (ofTree t (.compute op false f (a.treeAs t) (b.treeAs b.type.promoted)))
      | none => none
    else none
where
  /-- An address some steps away. -/
  offset (p n : Operand) : Operand :=
    match p.tree, n.tree with
    | .address l, .int .. => ofTree p.type (.address l)
    | _, _ => computed p.type

/-! ## Relations and truth values -/

def relation? (r : Relation) (a b : Operand) : Option Operand :=
  let a := a.value
  let b := b.value
  let numbers := a.type.isArithmetic && b.type.isArithmetic
  let addresses := (a.type.isPointer && (b.type.isPointer || b.type.isInteger)) ||
    (a.type.isInteger && b.type.isPointer)
  if numbers then
    let t := Ty.common a.type b.type
    match t.form with
    | .int f =>
      some (ofTree .signedInt (.compare r f (a.treeAs a.type.promoted) (b.treeAs b.type.promoted)))
    | .other => if r.isEquality then some (computed .signedInt) else none
    | _ => some (ofTree .signedInt (.relation r (.int .int) (a.treeAs t) (b.treeAs t)))
  else if addresses then
    some (ofTree .signedInt (.relation r (.int .int) a.tree b.tree))
  else none

def both? (a b : Operand) : Option Operand :=
  if a.isScalar && b.isScalar then
    some (ofTree .signedInt (.joinTruth true a.value.tree b.value.tree))
  else none

def either? (a b : Operand) : Option Operand :=
  if a.isScalar && b.isScalar then
    some (ofTree .signedInt (.joinTruth false a.value.tree b.value.tree))
  else none

/-- The type of a choice between two values. -/
def chosenType? (a b : Ty) : Option Ty :=
  if a.isArithmetic && b.isArithmetic then
    if a.isReal || b.isReal || a.isComplex || b.isComplex || a.isInteger then some (Ty.common a b)
    else none
  else if a.isVoid || b.isVoid then some .void
  else if a.isPointer && b.isPointer then
    some (if (a.target?.any Ty.isVoid) then a else b)
  else if a.isPointer && b.isInteger then some a
  else if a.isInteger && b.isPointer then some b
  else if a.compatible b then some a
  else none

def choose? (c a b : Operand) : Option Operand :=
  let a := a.value
  let b := b.value
  if !c.isScalar then none
  else do
    let t ← chosenType? a.type b.type
    if t.isArithmetic then
      return ofTree t (.choose t.form c.value.tree.truth (a.treeAs t) (b.treeAs t))
    else
      return ⟨t, .none, .choose t.form c.value.tree.truth a.tree b.tree, none, false⟩

/-! ## Operators with one operand -/

def plus? (a : Operand) : Option Operand :=
  let a := a.value
  let t := a.type.promoted
  if a.type.isArithmetic then some (ofTree t (a.treeAs t)) else none

def negate? (a : Operand) : Option Operand :=
  let a := a.value
  let t := a.type.promoted
  if !a.type.isArithmetic then none
  else
    match t.intForm?, a.treeAs t with
    | some f, .int _ v => some (ofInt t (f.wrap (-v)))
    | _, .stuck e => some (ofTree t (.stuck (.negate t.form e)))
    | _, e => some (ofTree t (.negate t.form e))

def complement? (a : Operand) : Option Operand :=
  let a := a.value
  let t := a.type.promoted
  if a.type.isInteger then
    match a.treeAs t with
    | .int f v => some (ofInt t (f.wrap (-v - 1)))
    | .stuck e => some (ofTree t (.stuck (.complement t.form e)))
    | e => some (ofTree t (.complement t.form e))
  else if a.type.isComplex then some (computed a.type)
  else none

def not? (a : Operand) : Option Operand :=
  if a.isScalar then
    match a.value.tree.truth with
    | .int _ v => some (ofInt .signedInt (truth (v = 0)))
    | .stuck e => some (ofTree .signedInt (.stuck (.relation .eq (.int .int) e (.int .int 0))))
    | e => some (ofTree .signedInt (.relation .eq (.int .int) e (.int .int 0)))
  else none

/-- What a pointer points to. -/
def target? (a : Operand) : Option Operand := do
  let a := a.value
  let t ← a.type.target?
  if t.isFunction then return ⟨t, .none, a.tree, none, false⟩
  return ⟨t, .memory, .target t.form a.tree, none, false⟩

def address? (a : Operand) : Option Operand :=
  if a.type.isFunction then some (ofTree (.pointer a.type) a.tree)
  else
    match a.place with
    | .memory =>
      let tree := match a.tree with
        | .object _ id => Tree.address id
        | .address id => Tree.address id
        | .target _ p => p
        | _ => Tree.unknown .pointer
      some (ofTree (.pointer a.type) tree)
    | _ => none

/-! ## Parts -/

/-- An element of an array. -/
def index? (records : Array Record) (a b : Operand) : Option Operand :=
  let (base, position) := if a.value.type.isPointer then (a, b) else (b, a)
  if !position.value.type.isInteger then none
  else
    match base.type.unqualified with
    | .array e _ =>
      if (e.extent? records).isSome then
        let place := if base.place = .register then .register else .memory
        some ⟨e, place, .element e.form base.tree position.value.tree, none, false⟩
      else none
    | _ => do
      let p ← arith? records .add base position
      p.target?

/-- The position and type of a part with a name, also in parts without one. -/
def findField? (records : Array Record) : (depth : Nat) → Ty → String → Option (List Nat × Field)
  | 0, _, _ => none
  | depth + 1, t, name =>
    match t.unqualified with
    | .record id => do
      let r ← records[id]?
      let fields ← r.parts?
      fields.zipIdx.firstM fun (f, i) =>
        match f.name with
        | some n => if n = name then some ([i], f) else none
        | none => (findField? records depth f.type name).map fun (path, g) => (i :: path, g)
    | _ => none

/-- The part of a record with a name. -/
def member? (records : Array Record) (a : Operand) (name : String) : Option Operand := do
  let (path, field) ← findField? records (records.size + 1) a.type name
  let t := field.type.qualify a.type.quals
  let last := path.getLast?.getD 0
  let base := path.dropLast.foldl (fun b i => Tree.member .other b i) a.tree
  let place : Place :=
    if field.width.isSome then if a.place = .none then .none else .bits else a.place
  return ⟨t, place, .member t.form base last, none, false⟩

/-! ## Changes -/

/-- Whether a type has a part that must not be changed. -/
def hasConst (records : Array Record) : (depth : Nat) → Ty → Bool
  | 0, t => t.isConst
  | depth + 1, t =>
    t.isConst ||
      match t.unqualified with
      | .array e _ => hasConst records depth e
      | .record id =>
        match records[id]? with
        | some r => (r.fields.getD []).any fun f => hasConst records depth f.type
        | none => false
      | _ => false

/-- Whether an operand can be given another value. -/
def isModifiable (records : Array Record) (a : Operand) : Bool :=
  a.place ≠ .none && !a.type.isArray && !a.type.isFunction && !a.type.isVoid &&
    (a.type.extent? records).isSome && !hasConst records (records.size + 1) a.type

def assign? (records : Array Record) (a b : Operand) : Option Operand :=
  if a.isModifiable records && a.type.accepts b.value.type then
    some (computed a.type.unqualified)
  else none

/-- Compute with the old value and store the result. -/
def update? (records : Array Record) (op : Arith) (a b : Operand) : Option Operand := do
  let v ← arith? records op a b
  a.assign? records v

/-- Count up or down. -/
def step? (records : Array Record) (a : Operand) : Option Operand :=
  let t := a.type.unqualified
  if !a.isModifiable records then none
  else if t.isArithmetic || (t.isPointer && hasStep records t) then some (computed t)
  else none

/-! ## Conversions -/

def cast? (target : Ty) (a : Operand) : Option Operand :=
  let a := a.value
  let t := target.unqualified
  if t.isVoid then some (computed .void)
  else if t.isArithmetic && a.type.isArithmetic then
    match t with
    | .complex _ => some (computed t)
    | _ => if a.type.isComplex then some (computed t) else some (ofTree t (a.treeAs t))
  else if t.isPointer && (a.type.isPointer || a.type.isInteger) then
    some (ofTree t (a.treeAs t))
  else if t.isInteger && a.type.isPointer then some (ofTree t (a.treeAs t))
  else
    match t with
    | .record _ | .builtin _ => if t.compatible a.type then some (computed t) else none
    | _ => none

/-! ## Calls -/

/-- The most bytes that can be passed to a function. -/
def mostPassed : Nat := 1073741808

/-- The value of a call. -/
def call? (records : Array Record) (f : Operand) (args : List Operand) : Option Operand := do
  let t ← f.value.type.target?
  let result ← t.result?
  let values := args.map Operand.value
  let fits (p : Ty) (v : Operand) : Bool := p.accepts v.type
  let ok :=
    match t.unqualified with
    | .function _ params isVariadic =>
      (if isVariadic then params.length ≤ values.length else params.length = values.length) &&
        (params.zip values).all fun (p, v) => fits p v
    | _ => true
  let bytes := values.foldl (fun n v => n + ((v.type.extent? records).getD ⟨0, 1⟩).size) 0
  let complete := values.all fun v => v.type.isComplete records
  if ok && complete && bytes ≤ mostPassed && (result.isVoid || result.isComplete records) then
    return computed result.unqualified
  else none

/-! ## Literals -/

/-- The type of an integer constant: the first one that holds it. -/
def literalType (l : IntLiteral) : Ty :=
  let candidates : List (Rank × Bool) :=
    let ranks : List Rank :=
      match l.longs with
      | 0 => [.int, .long, .longLong]
      | 1 => [.long, .longLong]
      | _ => [.longLong]
    ranks.flatMap fun r =>
      if l.isUnsigned then [(r, true)]
      else if l.decimal then [(r, false)]
      else [(r, false), (r, true)]
  match candidates.find? fun (r, u) => (IntForm.plain r.bits (!u)).holds l.value with
  | some (r, u) => .int r u
  | none => .int .int128 false

def ofLiteral (l : IntLiteral) : Operand := ofInt (literalType l) l.value

def ofReal (l : RealLiteral) : Operand := ofTree (.real l.kind) (.real l.kind l.value)

/-- A text of so many characters. -/
def ofText (length : Nat) : Operand :=
  ⟨.array .char (.known (length + 1)), .memory, .address 0, none, true⟩

end Operand

end MiddleEnd.Compiler
