/-
  Expressions. Operators are read by how tightly they bind, from the operands out.
-/
import MiddleEnd.Compiler.Initializer

namespace MiddleEnd.Compiler

namespace Reader

/-! ## Words -/

/-- Words that a type may start with. -/
def typeWords : List String :=
  ["void", "char", "short", "int", "long", "float", "double", "signed", "unsigned", "_Bool",
    "_Complex", "struct", "union", "enum", "const", "volatile", "restrict", "_Atomic",
    "__typeof__", "__int128", "__auto_type", "_Float16", "_Float32", "_Float32x", "_Float64",
    "_Float64x", "_Float128", "_Decimal32", "_Decimal64", "_Decimal128", "__attribute__"]

/-- Words that only a declaration may start with. -/
def declarationWords : List String :=
  ["typedef", "extern", "static", "auto", "register", "inline", "_Noreturn", "_Thread_local",
    "__thread", "_Alignas"]

/-- Whether a token may be the start of a type. -/
def startsType (s : Scope) : Option Token → Bool
  | some (.word w) => typeWords.contains w || (!isKeyword w && s.isTypeName w)
  | _ => false

/-- Whether a token may be the start of a declaration. -/
def startsDeclaration (s : Scope) (t : Option Token) : Bool :=
  startsType s t ||
    match t with
    | some (.word w) => declarationWords.contains w
    | _ => false

def typeIsNext : Reader Bool := return startsType (← scope) (← peek)

def declarationIsNext : Reader Bool := return startsDeclaration (← scope) (← peek)

/-! ## Operands -/

/-- An operand, or none if an operator does not take what it is given. -/
def operand (o : Option Operand) : Reader Operand := take o

/-- The operand that a name is. A function need not be declared before it is called. -/
def named (w : String) : Reader Operand := do
  let s ← scope
  match s.lookup? w with
  | some (.object id t _ _ isRegister) =>
    let tree : Tree := .object t.form id
    return ⟨t, if isRegister then .register else .memory, tree, none, false⟩
  | some (.function id t _ _) => return ⟨t, .none, .address id, none, false⟩
  | some (.enumerator n) => return .ofInt .signedInt n
  | some (.typedef _) => refuse
  | none =>
    require (← isMark "(")
    let id ← fresh
    let t := Ty.oldFunction .signedInt
    modifyScope fun s =>
      { s with file := { s.file with names := s.file.names.insert w (.function id t .external false) } }
    return ⟨t, .none, .address id, none, false⟩

/-- Strings one behind the other are one string. -/
def text : Reader Operand := do
  let length ← loop (fun (n : Option Nat) => do
    match ← peek with
    | some (.text s) =>
      let values ← take (charValues? s.length s.toList)
      advance
      return some (some (n.getD 0 + values.length))
    | _ => return none) none
  return .ofText (length.getD 0)

/-- Read an operand without operators. -/
def primary (inner : Inner) : Reader Operand := do
  match ← peek with
  | some (.number s) =>
    advance
    match intLiteral? s with
    | some l => return .ofLiteral l
    | none => return .ofReal (← take (realLiteral? s))
  | some (.character s) =>
    advance
    return .ofInt .signedInt (← take (charLiteral? s))
  | some (.text _) => text
  | some (.mark "(") =>
    advance
    if ← acceptMark "\x7b" then
      require (← body).isSome
      let o ← inBlock (inner .block)
      expectMark ")"
      return o.value
    else
      let o ← inner .expression
      expectMark ")"
      return o
  | some (.word "__extension__") =>
    advance
    inner .cast
  | some (.word w) =>
    if ["__func__", "__FUNCTION__", "__PRETTY_FUNCTION__"].contains w then
      advance
      return { Operand.ofText 0 with type := .array (.qualified .const .char) (.known 1) }
    else if isKeyword w then refuse
    else
      advance
      named w
  | _ => refuse

/-- Read the arguments of a call behind the opening parenthesis. -/
def arguments (inner : Inner) : Reader (List Operand) := do
  if ← acceptMark ")" then return []
  let args ← commaList (inner .assignment)
  expectMark ")"
  return args

/-- Read the operators behind an operand. -/
def postfixes (inner : Inner) (o : Operand) : Reader Operand :=
  loop (fun (o : Operand) => do
    let rs ← records
    match ← peek with
    | some (.mark "[") =>
      advance
      let i ← inner .expression
      expectMark "]"
      return some (← operand (o.index? rs i))
    | some (.mark "(") =>
      advance
      let args ← arguments inner
      return some (← operand (o.call? (← records) args))
    | some (.mark ".") =>
      advance
      return some (← operand (o.member? rs (← name)))
    | some (.mark "->") =>
      advance
      let target ← operand o.target?
      return some (← operand (target.member? rs (← name)))
    | some (.mark "++") | some (.mark "--") =>
      advance
      return some (← operand (o.step? rs))
    | _ => return none) o

/-- The room that a variable or value takes in the frame of a function. -/
def takeRoom (t : Ty) : Reader Unit := do
  match t.extent? (← records) with
  | some x =>
    let align := if x.size < 16 then x.align else max x.align 16
    modifyBody fun b => { b with room := Extent.roundUp (b.room + x.size) align }
  | none => pure ()

/-- Read the value of an array or record behind its type in parentheses. -/
def compoundLiteral (inner : Inner) (t : Ty) : Reader Operand := do
  let init ← inner .initializer
  require (!t.isVariable && !t.isFunction && !t.isVoid)
  let (t, value) ← initialValue false t init
  require (t.isComplete (← records))
  takeRoom t
  return ⟨t, .memory, .unknown t.form, some value, false⟩

/-- Read a size or an alignment. -/
def sizeOf (inner : Inner) : Reader Operand := do
  let t ←
    if (← isMark "(") && startsType (← scope) (← peekSecond) then
      advance
      let t ← inner .typeName
      expectMark ")"
      if ← isMark "\x7b" then
        let o ← compoundLiteral inner t
        pure (← postfixes inner o).type
      else pure t
    else
      let o ← inner .cast
      require (o.place ≠ .bits)
      pure o.type
  let x ← take (t.extent? (← records))
  if t.isVariable && t.isArray then return .computed .size
  return .ofInt .size x.size

/-- Read an operand with the operators behind and before it. -/
def cast (inner : Inner) : Reader Operand := do
  let rs ← records
  match ← peek with
  | some (.mark "(") =>
    if startsType (← scope) (← peekSecond) then
      advance
      let t ← inner .typeName
      expectMark ")"
      if ← isMark "\x7b" then
        let o ← compoundLiteral inner t
        postfixes inner o
      else
        let o ← inner .cast
        operand (o.cast? t)
    else postfixes inner (← primary inner)
  | some (.mark "++") | some (.mark "--") =>
    advance
    let o ← inner .cast
    operand (o.step? rs)
  | some (.mark "&") =>
    advance
    operand (← inner .cast).address?
  | some (.mark "*") =>
    advance
    operand (← inner .cast).target?
  | some (.mark "+") =>
    advance
    operand (← inner .cast).plus?
  | some (.mark "-") =>
    advance
    operand (← inner .cast).negate?
  | some (.mark "~") =>
    advance
    operand (← inner .cast).complement?
  | some (.mark "!") =>
    advance
    operand (← inner .cast).not?
  | some (.mark "&&") =>
    advance
    let label ← name
    require (← body).isSome
    modifyBody fun b => { b with jumps := label :: b.jumps }
    return .computed (.pointer .void)
  | some (.word "sizeof") | some (.word "__alignof__") | some (.word "_Alignof") =>
    advance
    sizeOf inner
  | some (.word "__real__") | some (.word "__imag__") =>
    advance
    let o := (← inner .cast).value
    require o.type.isArithmetic
    match o.type.unqualified with
    | .complex k => return .computed (.real k)
    | t => return .computed t
  | _ => postfixes inner (← primary inner)

/-! ## Operators between operands -/

/-- An operator between two operands, and how tightly it binds. -/
def operator? (m : String) : Option (Nat × (Array Record → Operand → Operand → Option Operand)) :=
  let arith (op : Arith) (rs : Array Record) (a b : Operand) := Operand.arith? rs op a b
  let relation (r : Relation) (_ : Array Record) (a b : Operand) := Operand.relation? r a b
  match m with
  | "||" => some (1, fun _ => Operand.either?)
  | "&&" => some (2, fun _ => Operand.both?)
  | "|" => some (3, arith .or)
  | "^" => some (4, arith .xor)
  | "&" => some (5, arith .and)
  | "==" => some (6, relation .eq)
  | "!=" => some (6, relation .ne)
  | "<" => some (7, relation .lt)
  | ">" => some (7, relation .gt)
  | "<=" => some (7, relation .le)
  | ">=" => some (7, relation .ge)
  | "<<" => some (8, arith .shl)
  | ">>" => some (8, arith .shr)
  | "+" => some (9, arith .add)
  | "-" => some (9, arith .sub)
  | "*" => some (10, arith .mul)
  | "/" => some (10, arith .div)
  | "%" => some (10, arith .rem)
  | _ => none

/-- The operator between two operands that is the next token. -/
def nextOperator : Reader (Option (Nat × (Array Record → Operand → Operand → Option Operand))) := do
  match ← peek with
  | some (.mark m) => return operator? m
  | _ => return none

/-- Read operands and the operators between them that bind at least so tightly. Each level binds
more tightly than the one before, so there are only so many. -/
def binary (inner : Inner) : (levels : Nat) → (tightness : Nat) → Reader Operand
  | 0, _ => inner .cast
  | levels + 1, tightness => do
    let first ← binary inner levels (tightness + 1)
    loop (fun (left : Operand) => do
      match ← nextOperator with
      | some (t, operate) =>
        if t = tightness then
          advance
          let right ← binary inner levels (tightness + 1)
          return some (← operand (operate (← records) left right))
        else return none
      | none => return none) first

/-- Read an expression without assignments. -/
def conditional (inner : Inner) : Reader Operand := do
  let c ← binary inner 10 1
  if ← acceptMark "?" then
    let a ← if ← isMark ":" then pure c else inner .expression
    expectMark ":"
    let b ← inner .conditional
    operand (c.choose? a b)
  else return c

/-- The operators that change a variable. -/
def updates : List (String × Arith) :=
  [("*=", .mul), ("/=", .div), ("%=", .rem), ("+=", .add), ("-=", .sub), ("<<=", .shl),
    (">>=", .shr), ("&=", .and), ("^=", .xor), ("|=", .or)]

/-- Read an expression without commas. -/
def assignment (inner : Inner) : Reader Operand := do
  let left ← conditional inner
  match ← peek with
  | some (.mark "=") =>
    advance
    let right ← inner .assignment
    operand (left.assign? (← records) right)
  | some (.mark m) =>
    match updates.lookup m with
    | some op =>
      advance
      let right ← inner .assignment
      operand (left.update? (← records) op right)
    | none => return left
  | _ => return left

/-- Read an expression. Of operands with commas between them the last one counts. -/
def expression (inner : Inner) : Reader Operand := do
  let os ← commaList (inner .assignment)
  match os with
  | [o] => return o
  | _ =>
    let last ← take os.getLast?
    return .computed last.value.type

end Reader

end MiddleEnd.Compiler
