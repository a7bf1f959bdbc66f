/-
  The C programs that lowering builds: types, expressions and statements as trees, and their text.
  Expressions keep what they refer to, so where a variable, constant or function is used can be
  read off the tree; the text is only ever rendered from it.

  Arrays are wrapped in structs of one member, so that they are passed, returned and assigned by
  value like everything else.
-/
import MiddleEnd.Binary.Decimal
import MiddleEnd.Syntax.Basic

namespace MiddleEnd.C

/-! ## Numbers of things -/

/-- A function of a C program, by its number. -/
structure FunctionId where
  index : Nat
  deriving DecidableEq, Repr

/-- A variable of a C program, by its number. -/
structure VarId where
  index : Nat
  deriving DecidableEq, Repr

/-- A block of a C program, by its number. -/
structure BlockId where
  index : Nat
  deriving DecidableEq, Repr

/-! ## Types -/

inductive Ty
  | void
  /-- A scalar, a struct or the wrapper of an array, spelled as it stands. -/
  | named (spelling : String)
  | function (params : List (String × Ty)) (result : Ty)

namespace Ty

/-- The type as C spells it; for a function, that of its result. -/
def spelling : Ty → String
  | void => "void"
  | named s => s
  | function _ result => result.spelling

/-- The declaration of a name with this type. -/
def declare (t : Ty) (name : String) : String := s!"{t.spelling} {name}"

/-- The type of truth values. -/
def bool : Ty := .named "bool"

/-- The type of integers with so many bits. -/
def integer (unsigned : Bool) (bits : Nat) : Ty :=
  .named (match unsigned, bits with
    | false, 128 => "__int128"
    | true, 128 => "unsigned __int128"
    | false, bits => s!"int{bits}_t"
    | true, bits => s!"uint{bits}_t")

/-- The type of floating-point numbers with so many bits. -/
def floating (bits : Nat) : Ty := .named (if bits = 32 then "float" else "double")

end Ty

/-! ## Expressions -/

inductive Expr
  /-- Text supplied by someone else. -/
  | verbatim (text : String)
  | int (type : Ty) (value : Int)
  | float (type : Ty) (value : Binary.Value)
  | bool (value : Bool)
  /-- The expression without a value. -/
  | unit
  | constant (name : String)
  | var (id : VarId) (name : String)
  | binary (op : BinaryOp) (lhs rhs : Expr)
  | call (id : FunctionId) (name : String) (args : List Expr)
  | index (base position : Expr)
  | array (type : Ty) (values : List Expr)
  /-- A struct value, with the fields in the order of their declaration. -/
  | struct (type : Ty) (values : List Expr)

/-- Numbers are written out from 0.0001 up to 10^16, and with an exponent elsewhere. -/
def floatStyle : Binary.Style := ⟨-3, 16⟩

/-- An integer constant: digits alone for the 32 bit type, and a cast to any other. -/
def intText (type : Ty) (value : Int) : String :=
  if type.spelling = "int32_t" then s!"{value}" else s!"(({type.spelling}){value})"

/-- A floating-point constant, rounded first if its type is the narrow one. -/
def floatText (type : Ty) (value : Binary.Value) : String :=
  if type.spelling = "float" then
    floatStyle.text Binary.binary32 (Binary.binary32.convert value) ++ "f"
  else floatStyle.text Binary.binary64 value

mutual

/-- The expression as it stands in the program's text. -/
def Expr.text : Expr → String
  | .verbatim s => s
  | .int t v => intText t v
  | .float t v => floatText t v
  | .bool b => if b then "true" else "false"
  | .unit => "((void)0)"
  | .constant name => name
  | .var _ name => name
  | .binary op lhs rhs => s!"({lhs.text} {op.symbol} {rhs.text})"
  | .call _ name args => s!"{name}({Expr.texts args})"
  | .index base position => s!"{base.text}.v[{position.text}]"
  | .array t values => s!"({t.spelling})\x7b \x7b {Expr.texts values} \x7d \x7d"
  | .struct t values => s!"({t.spelling})\x7b {Expr.texts values} \x7d"

/-- Expressions with a comma and a blank between them. -/
def Expr.texts : List Expr → String
  | [] => ""
  | [e] => e.text
  | e :: f :: rest => s!"{e.text}, {Expr.texts (f :: rest)}"

end

/-! ## Statements -/

inductive Stmt
  | expr (e : Expr)
  | declare (id : VarId) (type : Ty) (name : String) (init : Option Expr)
  | assign (target value : Expr)
  | ret (value : Option Expr)
  | block (body : BlockId)
  | branch (condition : Expr) (thenBody : BlockId) (elseBody : Option BlockId)

/-- A statement that stands on one line. -/
def Stmt.line? : Stmt → Option String
  | .expr e => some s!"{e.text};"
  | .declare _ t name none => some s!"{t.declare name};"
  | .declare _ t name (some e) => some s!"{t.declare name} = {e.text};"
  | .assign target value => some s!"{target.text} = {value.text};"
  | .ret none => some "return;"
  | .ret (some e) => some s!"return {e.text};"
  | .block _ => none
  | .branch .. => none

end MiddleEnd.C
