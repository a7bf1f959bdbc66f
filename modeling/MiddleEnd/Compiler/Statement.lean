/-
  Statements, and whole programs.
-/
import MiddleEnd.Compiler.Declaration

namespace MiddleEnd.Compiler

namespace Reader

/-- What a statement without a value is worth. -/
def noValue : Operand := .computed .void

/-- Read a condition in parentheses. -/
def condition (inner : Inner) : Reader Unit := do
  expectMark "("
  let c ← inner .expression
  expectMark ")"
  require c.isScalar

/-- Read the body of a loop. -/
def loopBody (inner : Inner) : Reader Unit := do
  let outer ← body
  modifyBody fun b => { b with canBreak := true, canContinue := true }
  let _ ← inBlock (inner .statement)
  modifyBody fun b =>
    { b with
      canBreak := outer.any (·.canBreak)
      canContinue := outer.any (·.canContinue) }

/-- Read statements in braces, with names of their own. -/
def compound (inner : Inner) : Reader Operand := do
  let outer ← body
  modifyBody fun b => { b with room := 0, innerRoom := 0 }
  let o ← inBlock (inner .block)
  modifyBody fun b =>
    match outer with
    | some a => { b with room := a.room, innerRoom := max a.innerRoom (b.room + b.innerRoom) }
    | none => b
  return o

/-- Read a choice between cases behind its keyword. -/
def switch (inner : Inner) : Reader Unit := do
  expectMark "("
  let o := (← inner .expression).value
  expectMark ")"
  require o.type.isInteger
  let outer ← body
  modifyBody fun b => { b with canBreak := true, cases := some [] }
  let _ ← inBlock (inner .statement)
  modifyBody fun b =>
    { b with canBreak := outer.any (·.canBreak), cases := outer.bind (·.cases) }

/-- Begin a case that no other has begun yet. -/
def addCase (c : Option Int) : Reader Unit := do
  let cases ← take ((← body).bind (·.cases))
  require (!cases.contains c)
  modifyBody fun b => { b with cases := some (c :: cases) }

/-- Read a loop with a head of three parts behind its keyword. -/
def forLoop (inner : Inner) : Reader Unit := do
  expectMark "("
  inBlock do
    if ← declarationIsNext then inner .declaration
    else
      if !(← isMark ";") then let _ ← inner .expression
      expectMark ";"
    if !(← isMark ";") then
      let c ← inner .expression
      require c.isScalar
    expectMark ";"
    if !(← isMark ")") then let _ ← inner .expression
    expectMark ")"
    loopBody inner

/-- Read what is left of a return behind its keyword. A function without a result may be left with
any value. -/
def returned (inner : Inner) : Reader Unit := do
  let b ← take (← body)
  if !(← isMark ";") then
    let o := (← inner .expression).value
    require (b.result.isVoid || b.result.accepts o.type)
  expectMark ";"

/-- Read the statement behind a label, if there is one. -/
def labelled (inner : Inner) : Reader Operand := do
  attributes
  if ← isMark "\x7d" then return noValue
  if ← declarationIsNext then
    inner .declaration
    return noValue
  inner .statement

/-- Read a statement that starts with a keyword; `none` if it does not. -/
def keywordStatement (inner : Inner) (w : String) : Reader (Option Operand) := do
  match w with
  | "if" =>
    advance
    condition inner
    let _ ← inBlock (inner .statement)
    if ← acceptWord "else" then let _ ← inBlock (inner .statement)
  | "while" =>
    advance
    condition inner
    loopBody inner
  | "do" =>
    advance
    loopBody inner
    require (← acceptWord "while")
    condition inner
    expectMark ";"
  | "for" =>
    advance
    forLoop inner
  | "switch" =>
    advance
    switch inner
  | "case" =>
    advance
    let first ← take (← knownInt? (← inner .conditional))
    if ← acceptMark "..." then let _ ← take (← knownInt? (← inner .conditional))
    expectMark ":"
    addCase (some first)
    return some (← labelled inner)
  | "default" =>
    advance
    expectMark ":"
    addCase none
    return some (← labelled inner)
  | "goto" =>
    advance
    if ← acceptMark "*" then
      let o ← inner .expression
      require o.value.type.isPointer
    else
      let l ← name
      modifyBody fun b => { b with jumps := l :: b.jumps }
    expectMark ";"
  | "break" =>
    advance
    require ((← body).any (·.canBreak))
    expectMark ";"
  | "continue" =>
    advance
    require ((← body).any (·.canContinue))
    expectMark ";"
  | "return" =>
    advance
    returned inner
  | "__asm__" =>
    advance
    let _ ← qualifiers
    let _ ← acceptWord "goto"
    skipParentheses
    expectMark ";"
  | _ => return none
  return some noValue

/-- Read a statement; its value is that of an expression. -/
def statement (inner : Inner) : Reader Operand := do
  attributes
  if ← acceptMark "\x7b" then
    let _ ← compound inner
    return noValue
  if ← acceptMark ";" then return noValue
  match ← peek with
  | some (.word w) =>
    if !isKeyword w && (← peekSecond) = some (.mark ":") then
      advance
      advance
      let b ← take (← body)
      require (!b.labels.contains w)
      modifyBody fun b => { b with labels := w :: b.labels }
      return ← labelled inner
    match ← keywordStatement inner w with
    | some o => return o
    | none => pure ()
  | _ => pure ()
  let o ← inner .expression
  expectMark ";"
  return o

/-- Whether a declaration follows, and no statement. -/
def declarationFollows : Reader Bool := do
  let second ← peekSecond
  match ← peek with
  | some (.word "__label__") => return true
  | some (.word "__extension__") => return startsDeclaration (← scope) second
  | t => return startsDeclaration (← scope) t && second ≠ some (.mark ":")

/-- Read declarations and statements up to the closing brace. -/
def block (inner : Inner) : Reader Operand := do
  let last ← loop (fun (_ : Operand) => do
    if ← isMark "\x7d" then return none
    else if ← declarationFollows then
      inner .declaration
      return some noValue
    else return some (← inner .statement)) noValue
  expectMark "\x7d"
  return last

/-! ## The whole grammar -/

/-- Read anything, with other things in it down to a depth. -/
def read : (depth : Nat) → {α : Type} → Ask α → Reader α
  | 0, _, _ => refuse
  | depth + 1, _, ask =>
    let inner : Inner := read depth
    match ask with
    | .expression => expression inner
    | .assignment => assignment inner
    | .conditional => conditional inner
    | .cast => cast inner
    | .typeName => typeName inner
    | .specifiers => specifiers inner
    | .declarator => declarator inner
    | .initializer => initializer inner
    | .block => block inner
    | .statement => statement inner
    | .declaration => declaration inner

/-- Read all declarations of a program. -/
def program (depth : Nat) : Reader Unit := do
  let _ ← loop (fun (_ : Unit) => do
    match ← peek with
    | none => return none
    | some _ =>
      read depth .declaration
      return some ()) ()

end Reader

/-! ## Programs -/

/-- Types of the compiler's own. -/
def builtinTypes : List (String × Ty) :=
  [("__builtin_va_list", .builtin "__builtin_va_list"),
    ("__builtin_ms_va_list", .pointer .char),
    ("__builtin_sysv_va_list", .builtin "__builtin_va_list"),
    ("__int128_t", .int .int128 false), ("__uint128_t", .int .int128 true),
    ("__float80", .real (.other "__float80")), ("__float128", .real (.other "_Float128"))]

/-- The scope before a program. -/
def initialScope : Scope :=
  builtinTypes.foldl (fun s (n, t) => s.declare n (.typedef t)) .empty

/-- Whether a C99 compiler accepts a program. Every part has at least one token that the things in
it do not have, so parts nest no deeper than there are tokens; each has at most a few rules. -/
def accepts (source : String) : Bool :=
  match programTokens? source with
  | none => false
  | some tokens =>
    let tokens := tokens.map Token.canonical
    let n := tokens.length
    ((Reader.program (4 * n + 16)).run ⟨tokens, n, initialScope, none⟩).isSome

end MiddleEnd.Compiler
