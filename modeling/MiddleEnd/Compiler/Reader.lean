/-
  Reading a program. What a name stands for decides how a C text goes on, so tokens are read and
  checked in one pass over a scope; what is read comes out as types and operands.

  The grammar is recursive. Each rule is written for itself, with what it needs of others as an
  argument (`Inner`), and the rules are tied together in the end, down to a depth.
-/
import MiddleEnd.Compiler.Directive
import MiddleEnd.Compiler.Operand

namespace MiddleEnd.Compiler

/-! ## Keywords -/

/-- Keywords of the language. -/
def languageKeywords : List String :=
  ["auto", "break", "case", "char", "const", "continue", "default", "do", "double", "else", "enum",
    "extern", "float", "for", "goto", "if", "inline", "int", "long", "register", "restrict",
    "return", "short", "signed", "sizeof", "static", "struct", "switch", "typedef", "union",
    "unsigned", "void", "volatile", "while", "_Bool", "_Complex", "_Imaginary"]

/-- Keywords that compilers add to those of the language. -/
def addedKeywords : List String :=
  ["_Alignas", "_Alignof", "_Atomic", "_Generic", "_Noreturn", "_Static_assert", "_Thread_local",
    "_Accum", "_Decimal32", "_Decimal64", "_Decimal128", "_Float16", "_Float32", "_Float32x",
    "_Float64", "_Float64x", "_Float128", "_Float128x", "_Fract", "_Sat", "__FUNCTION__",
    "__GIMPLE", "__PHI", "__PRETTY_FUNCTION__", "__RTL", "__alignof__", "__asm__", "__attribute__",
    "__auto_type", "__extension__", "__func__", "__imag__", "__int128", "__label__", "__null",
    "__real__", "__thread", "__transaction_atomic", "__transaction_cancel",
    "__transaction_relaxed", "__typeof__", "__builtin_assoc_barrier",
    "__builtin_call_with_static_chain", "__builtin_choose_expr", "__builtin_complex",
    "__builtin_convertvector", "__builtin_has_attribute", "__builtin_offsetof",
    "__builtin_shuffle", "__builtin_shufflevector", "__builtin_tgmath",
    "__builtin_types_compatible_p", "__builtin_va_arg"]

/-- Other spellings of some keywords. -/
def keywordSpellings : List (String × String) :=
  [("__alignof", "__alignof__"), ("__asm", "__asm__"), ("__attribute", "__attribute__"),
    ("__complex", "_Complex"), ("__complex__", "_Complex"), ("__const", "const"),
    ("__const__", "const"), ("__imag", "__imag__"), ("__inline", "inline"),
    ("__inline__", "inline"), ("__int128__", "__int128"), ("__real", "__real__"),
    ("__restrict", "restrict"), ("__restrict__", "restrict"), ("__signed", "signed"),
    ("__signed__", "signed"), ("__typeof", "__typeof__"), ("__volatile", "volatile"),
    ("__volatile__", "volatile")]

def isKeyword (w : String) : Bool := languageKeywords.contains w || addedKeywords.contains w

/-- A token with keywords in their usual spelling. -/
def Token.canonical : Token → Token
  | .word w => .word ((keywordSpellings.lookup w).getD w)
  | t => t

/-! ## State -/

/-- The function that is being read. -/
structure Body where
  result : Ty
  /-- The labels so far. -/
  labels : List String
  /-- The labels that are jumped to. -/
  jumps : List String
  /-- Whether a loop or a choice between cases can be left here. -/
  canBreak : Bool
  canContinue : Bool
  /-- The cases so far of the choice that is being read, with `none` for all others. -/
  cases : Option (List (Option Int))
  /-- The bytes of the variables of the block that is being read. -/
  room : Nat
  /-- The most bytes of the variables of a block in it. -/
  innerRoom : Nat
  deriving Repr

structure ReaderState where
  tokens : List Token
  /-- How many tokens there are. -/
  left : Nat
  scope : Scope
  body : Option Body

/-- Read a part of the program; none if it is refused. -/
abbrev Reader := StateT ReaderState Option

namespace Reader

/-- Refuse the program. -/
def refuse {α : Type} : Reader α := fun _ => none

/-- Take a value, or refuse the program if there is none. -/
def take {α : Type} : Option α → Reader α
  | some a => pure a
  | none => refuse

def require (b : Bool) : Reader Unit := if b then pure () else refuse

/-! ## Tokens -/

def peek : Reader (Option Token) := fun s => some (s.tokens.head?, s)

/-- The token behind the next one. -/
def peekSecond : Reader (Option Token) := fun s => some ((s.tokens.drop 1).head?, s)

def advance : Reader Unit :=
  fun s => some ((), { s with tokens := s.tokens.drop 1, left := s.left - 1 })

/-- How many tokens are left. -/
def remaining : Reader Nat := fun s => some (s.left, s)

def nextIs (t : Token) : Reader Bool := return (← peek) = some t

def isMark (m : String) : Reader Bool := nextIs (.mark m)

def isWord (w : String) : Reader Bool := nextIs (.word w)

/-- Read a token if it is the next one. -/
def accept (t : Token) : Reader Bool := do
  if ← nextIs t then
    advance
    return true
  else return false

def acceptMark (m : String) : Reader Bool := accept (.mark m)

def acceptWord (w : String) : Reader Bool := accept (.word w)

def expectMark (m : String) : Reader Unit := do require (← acceptMark m)

/-- The next token, if it is a name. -/
def peekName : Reader (Option String) := do
  match ← peek with
  | some (.word w) => return if isKeyword w then none else some w
  | _ => return none

/-- Read a name. -/
def name : Reader String := do
  let w ← take (← peekName)
  advance
  return w

/-! ## Repetition -/

/-- Read again and again, while a step gives a new state; at most so often. -/
def iterate {α : Type} (step : α → Reader (Option α)) : (fuel : Nat) → α → Reader α
  | 0, _ => refuse
  | fuel + 1, a => do
    match ← step a with
    | some b => iterate step fuel b
    | none => return a

/-- Read again and again. Each step but the last reads a token, so there are at most as many as
tokens. -/
def loop {α : Type} (step : α → Reader (Option α)) (a : α) : Reader α := do
  iterate step ((← remaining) + 1) a

/-- Read things with commas between them. -/
def commaList {α : Type} (item : Reader α) : Reader (List α) := do
  let first ← item
  let rest ← loop (fun done => do
    if ← acceptMark "," then
      let a ← item
      return some (a :: done)
    else return none) [first]
  return rest.reverse

/-- Read what stands in parentheses, whatever it is. -/
def skipParentheses : Reader Unit := do
  expectMark "("
  let _ ← loop (fun (depth : Nat) => do
    if depth = 0 then return none
    else
      match ← peek with
      | none => refuse
      | some (.mark "(") =>
        advance
        return some (depth + 1)
      | some (.mark ")") =>
        advance
        return some (depth - 1)
      | some _ =>
        advance
        return some depth) 1

/-- Skip attributes, which only advise the compiler. -/
def attributes : Reader Unit := do
  let _ ← loop (fun (_ : Unit) => do
    if ← acceptWord "__attribute__" then
      skipParentheses
      return some ()
    else return none) ()

/-- Skip the assembler name of a declaration, and attributes. -/
def declarationEnd : Reader Unit := do
  if ← acceptWord "__asm__" then
    expectMark "("
    match ← peek with
    | some (.text _) => advance
    | _ => refuse
    expectMark ")"
  attributes

/-! ## Scope -/

def scope : Reader Scope := fun s => some (s.scope, s)

def modifyScope (f : Scope → Scope) : Reader Unit := fun s => some ((), { s with scope := f s.scope })

def records : Reader (Array Record) := return (← scope).records

/-- A new number. -/
def fresh : Reader Nat := do
  let (n, s) := (← scope).fresh
  modifyScope fun _ => s
  return n

def body : Reader (Option Body) := fun s => some (s.body, s)

def modifyBody (f : Body → Body) : Reader Unit :=
  fun s => some ((), { s with body := s.body.map f })

/-- Read with names of their own. -/
def inBlock {α : Type} (r : Reader α) : Reader α := do
  modifyScope Scope.enter
  let a ← r
  modifyScope Scope.leave
  return a

/-! ## Values -/

/-- The tree of an expression, simplified. Outside of functions, variables have no values yet,
unless an initial value is asked for. -/
def folded (initial : Bool) (t : Tree) : Reader Tree := do
  let s ← scope
  let value? (id : Nat) : Option Initial := if initial || !s.isFileLevel then s.values.get? id else none
  return t.fold (!initial) value?

/-- An integer that is known while the program is read. -/
def knownInt? (o : Operand) : Reader (Option Int) := do
  if !o.type.isInteger then return none
  match ← folded false o.tree with
  | .int _ n => return some n
  | _ => return none

end Reader

/-! ## Rules of the grammar -/

inductive Storage
  | typedef
  | external
  | static
  | automatic
  | register
  deriving DecidableEq, Repr

/-- What stands before the declared names. -/
structure Specifiers where
  storage : Option Storage
  type : Ty
  /-- Whether no type is written. -/
  isImplicit : Bool
  deriving Repr

/-- The parameters of a function, as they are declared. -/
inductive Params
  | typed (params : List (Option String × Ty)) (isVariadic : Bool)
  /-- Names without types. -/
  | names (names : List String)
  deriving Repr

/-- One step from the type of a declaration to that of the declared name. -/
inductive Modifier
  | pointer (q : Quals)
  | array (length : Length)
  | function (params : Params)
  deriving Repr

/-- A declared name, with the steps to its type from the outside in. -/
structure Declarator where
  name : Option String
  modifiers : List Modifier
  deriving Repr

inductive Designator
  | position (first last : Nat)
  | field (name : String)
  deriving Repr

/-- An initial value as it is written. -/
inductive Init
  | value (o : Operand)
  | list (items : List (List Designator × Init))
  deriving Repr

/-- What may stand inside of something else. -/
inductive Ask : Type → Type
  /-- An expression with commas. -/
  | expression : Ask Operand
  /-- An expression without commas. -/
  | assignment : Ask Operand
  /-- An expression without assignments. -/
  | conditional : Ask Operand
  /-- An operand with the operators before it. -/
  | cast : Ask Operand
  | typeName : Ask Ty
  | specifiers : Ask Specifiers
  | declarator : Ask Declarator
  | initializer : Ask Init
  /-- The statements of a block behind its opening brace; the value of the last one. -/
  | block : Ask Operand
  | statement : Ask Operand
  | declaration : Ask Unit

/-- How to read what may stand inside. -/
abbrev Inner := {α : Type} → Ask α → Reader α

end MiddleEnd.Compiler
