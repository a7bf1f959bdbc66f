/-
  Initial values. Values in braces go to the parts of an array or record one after the other, or to
  the part that a designator names; where a part has parts itself and no braces of its own, they go
  to its parts in turn. A variable that is there before the program runs needs values that are known
  then.
-/
import MiddleEnd.Compiler.Reader

namespace MiddleEnd.Compiler

namespace Reader

/-! ## Spelling -/

/-- A number that must be known while the program is read, and not be negative. -/
def knownNat (o : Operand) : Reader Nat := do
  match ← knownInt? o with
  | some n => if n < 0 then refuse else return n.toNat
  | none => refuse

/-- Read designators and the equals sign behind them. -/
def designators (inner : Inner) : Reader (List Designator) := do
  let ds ← loop (fun done => do
    if ← acceptMark "[" then
      let first ← knownNat (← inner .conditional)
      let last ← if ← acceptMark "..." then knownNat (← inner .conditional) else pure first
      expectMark "]"
      return some (.position first last :: done)
    else if ← acceptMark "." then
      let field ← name
      return some (.field field :: done)
    else return none) []
  if !ds.isEmpty then
    -- an older way leaves the equals sign out behind an index
    if !(← acceptMark "=") then
      match ds with
      | [.position ..] => pure ()
      | _ => refuse
  return ds.reverse

/-- Read an initial value: an expression, or values in braces. -/
def initializer (inner : Inner) : Reader Init := do
  if ← acceptMark "\x7b" then
    let items ← loop (fun done => do
      if ← isMark "\x7d" then return none
      let ds ← designators inner
      let value ← inner .initializer
      if !(← acceptMark ",") then require (← isMark "\x7d")
      return some ((ds, value) :: done)) []
    expectMark "\x7d"
    return .list items.reverse
  else return .value (← inner .assignment)

/-! ## Values -/

/-- The value of a scalar. For a variable that is there before the program runs it must be known;
otherwise there may be none. -/
def scalarValue (static : Bool) (t : Ty) (o : Operand) : Reader (Option Initial) := do
  let v := o.value
  require (t.accepts v.type)
  let tree := (← folded static v.tree).converted (!static) t.form
  if tree.isConstant then return some (.scalar tree)
  require (!static)
  return none

/-- The value of an array or record that is given as a whole. -/
def wholeValue (static : Bool) (o : Operand) : Reader (Option Initial) := do
  if !static then return none
  match o.literal with
  | some known =>
    require known.isSome
    return known
  | none =>
    let s ← scope
    let initial := o.tree.initial? false s.values.get?
    require initial.isSome
    return initial

/-! ## Parts -/

/-- The type of a part of an array or record. -/
def partType? (t : Ty) (position : Nat) : Reader (Option Ty) := do
  match t.unqualified with
  | .array e (.known n) => return if position < n then some e else none
  | .array e .unknown => return some e
  | .record id =>
    let r ← take (← records)[id]?
    let parts ← take r.parts?
    if r.isUnion && position > 0 then return none
    else return (parts[position]?).map fun f => f.type.qualify t.quals
  | _ => return none

/-- The position of the part that a designator names. -/
def partNamed (t : Ty) : Designator → Reader (Nat × Nat)
  | .position first last => do
    require t.isArray
    return (first, last)
  | .field name => do
    match t.unqualified with
    | .record id =>
      let r ← take (← records)[id]?
      let parts ← take r.parts?
      let i ← take (parts.findIdx? fun f => f.name = some name)
      return (i, i)
    | _ => refuse

/-- Whether an expression is the value of a whole array or record. -/
def isWhole (t : Ty) (o : Operand) : Bool :=
  match t.unqualified with
  | .array e _ => o.isText && (match e.unqualified with
    | .char | .int .char _ => true
    | _ => false)
  | u => u.accepts o.value.type

/-- Values for parts, so far. -/
structure Filling where
  items : List (Nat × Initial)
  /-- Whether all values are known. -/
  isKnown : Bool
  /-- The number of parts, as far as values were given. -/
  count : Nat

namespace Filling

def empty : Filling := ⟨[], true, 0⟩

def put (f : Filling) (position : Nat) (value : Option Initial) : Filling :=
  ⟨(match value with
    | some v => (position, v) :: f.items
    | none => f.items), f.isKnown && value.isSome, max f.count (position + 1)⟩

def initial? (f : Filling) : Option Initial := if f.isKnown then some (.parts f.items) else none

end Filling

mutual

/-- The type and value that an initial value gives to a variable of a type, which may be an array
whose length is not known yet. -/
def valueFor (static : Bool) : (fuel : Nat) → Ty → Init → Reader (Ty × Option Initial)
  | 0, _, _ => refuse
  | fuel + 1, t, init => do
    match init, t.unqualified with
    | .value o, .array e n =>
      require (isWhole t o)
      match o.type.unqualified, n with
      | .array _ m, .unknown => return (.array e m, some (.parts []))
      | _, _ => return (t, some (.parts []))
    | .value o, .record _ =>
      require (isWhole t o)
      return (t, ← wholeValue static o)
    | .value o, _ => return (t, ← scalarValue static t o)
    | .list [([], .value o)], .array e n =>
      if isWhole t o then valueFor static fuel t (.value o)
      else
        let (f, rest) ← fill static fuel t true 0 .empty [([], .value o)]
        require (rest.isEmpty && n ≠ .variable)
        return (if n = .unknown then .array e (.known f.count) else t, f.initial?)
    | .list items, .array e n =>
      let (f, rest) ← fill static fuel t true 0 .empty items
      require (rest.isEmpty && n ≠ .variable)
      return (if n = .unknown then .array e (.known f.count) else t, f.initial?)
    | .list items, .record _ =>
      let (f, rest) ← fill static fuel t true 0 .empty items
      require rest.isEmpty
      return (t, f.initial?)
    | .list ((_, item) :: _), _ =>
      -- values after the first are dropped
      return (t, (← valueFor static fuel t item).2)
    | .list [], _ => refuse

/-- Give values to the parts of an array or record from a position on. Without braces of its own,
it takes only as many values as it has parts. -/
def fill (static : Bool) : (fuel : Nat) → Ty → (braced : Bool) → (position : Nat) → Filling →
    List (List Designator × Init) → Reader (Filling × List (List Designator × Init))
  | 0, _, _, _, _, _ => refuse
  | _ + 1, _, _, _, f, [] => return (f, [])
  | fuel + 1, t, braced, _, f, (d :: ds, init) :: rest => do
    if !braced then return (f, (d :: ds, init) :: rest)
    let (first, last) ← partNamed t d
    let part ← take (← partType? t first)
    require (first ≤ last && (← partType? t last).isSome)
    match ds, init with
    | [], .list _ =>
      let (_, v) ← valueFor static fuel part init
      fill static fuel t braced (last + 1) (f.put last v) rest
    | [], .value o =>
      if part.isScalar || isWhole part o then
        let (_, v) ← valueFor static fuel part init
        fill static fuel t braced (last + 1) (f.put last v) rest
      else
        let (g, rest) ← fill static fuel part false 0 .empty (([], init) :: rest)
        fill static fuel t braced (last + 1) (f.put last g.initial?) rest
    | e :: es, _ =>
      let (inside, outside) := ([(e :: es, init)], rest)
      let (g, _) ← fill static fuel part true 0 .empty inside
      fill static fuel t braced (last + 1) (f.put last g.initial?) outside
  | fuel + 1, t, braced, position, f, ([], init) :: rest => do
    match ← partType? t position with
    | none =>
      if braced then fill static fuel t braced position f rest
      else return (f, ([], init) :: rest)
    | some part =>
      match init with
      | .list _ =>
        let (_, v) ← valueFor static fuel part init
        fill static fuel t braced (position + 1) (f.put position v) rest
      | .value o =>
        if part.isScalar || isWhole part o then
          let (_, v) ← valueFor static fuel part init
          fill static fuel t braced (position + 1) (f.put position v) rest
        else
          require (part.isArray || part.isRecord)
          let (g, rest) ← fill static fuel part false 0 .empty (([], init) :: rest)
          fill static fuel t braced (position + 1) (f.put position g.initial?) rest

end

/-- How many values an initial value is made of. -/
def initSize : Init → Nat
  | .value _ => 1
  | .list items => sizes items
where
  sizes : List (List Designator × Init) → Nat
    | [] => 1
    | (_, i) :: rest => initSize i + sizes rest + 1

/-- The type and value that an initial value gives to a variable of a type. Types nest less deeply
than there are records. -/
def initialValue (static : Bool) (t : Ty) (init : Init) : Reader (Ty × Option Initial) := do
  valueFor static ((initSize init + 1) * ((← records).size + 64)) t init

end Reader

end MiddleEnd.Compiler
