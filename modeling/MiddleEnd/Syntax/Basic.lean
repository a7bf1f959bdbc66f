/-
  The desugared program that is checked and lowered: items, statements, expressions and type
  annotations. Every node carries a head with its identities and its position; nodes without a
  position of their own carry the identities only.

  Names are not scoped here. Which declaration a name means is said by bindings beside the program
  (`Binding`, `Definition`), keyed by the surface identities of its nodes.
-/
import MiddleEnd.Identity

namespace MiddleEnd

/-- What every node with a position of its own carries. -/
structure Head where
  id : Identity
  locus : Location
  deriving DecidableEq, Repr

/-! ## Literals and operators -/

inductive LiteralKind
  | int
  | float
  | bool
  deriving DecidableEq, Repr

/-- The suffix of a literal, or what its context says about its type. -/
inductive LiteralHint
  | unknown
  | i8 | i16 | i32 | i64 | i128
  | u8 | u16 | u32 | u64 | u128
  | f32 | f64
  | bool
  deriving DecidableEq, Repr

/-- A literal as it was spelled, with the kind the spelling shows. -/
structure Literal where
  spelling : String
  kind : LiteralKind
  hint : LiteralHint
  deriving DecidableEq, Repr

inductive ArithmeticOp
  | add | sub | mul | div | rem
  | bitAnd | bitOr | bitXor | shl | shr
  deriving DecidableEq, Repr

inductive ComparisonOp
  | eq | ne | lt | le | gt | ge
  deriving DecidableEq, Repr

/-- The operators whose right operand need not be evaluated. -/
inductive LazyOp
  | and
  | or
  deriving DecidableEq, Repr

inductive BinaryOp
  | arithmetic (op : ArithmeticOp)
  | comparison (op : ComparisonOp)
  | lazy (op : LazyOp)
  deriving DecidableEq, Repr

def ArithmeticOp.symbol : ArithmeticOp → String
  | .add => "+"
  | .sub => "-"
  | .mul => "*"
  | .div => "/"
  | .rem => "%"
  | .bitAnd => "&"
  | .bitOr => "|"
  | .bitXor => "^"
  | .shl => "<<"
  | .shr => ">>"

def ComparisonOp.symbol : ComparisonOp → String
  | .eq => "=="
  | .ne => "!="
  | .lt => "<"
  | .le => "<="
  | .gt => ">"
  | .ge => ">="

def LazyOp.symbol : LazyOp → String
  | .and => "&&"
  | .or => "||"

/-- The operator as it is written, in the program and in C alike. -/
def BinaryOp.symbol : BinaryOp → String
  | .arithmetic op => op.symbol
  | .comparison op => op.symbol
  | .lazy op => op.symbol

/-! ## Type annotations -/

/-- A type as the program writes it. -/
inductive TypeExpr
  | path (head : Head) (name : String)
  | array (head : Head) (element : TypeExpr) (capacity : UInt64)
  | unit (head : Head)
  deriving DecidableEq, Repr

def TypeExpr.head : TypeExpr → Head
  | .path h _ => h
  | .array h _ _ => h
  | .unit h => h

/-! ## Expressions and statements -/

/-- The name that a `let` or a parameter introduces. -/
structure Pattern where
  id : Identity
  name : String
  isMutable : Bool
  deriving DecidableEq, Repr

/-- The struct that a struct literal names. -/
structure StructPath where
  id : Identity
  name : String
  deriving DecidableEq, Repr

mutual

inductive Expr
  | literal (head : Head) (lit : Literal)
  | identifier (head : Head) (name : String)
  | ret (head : Head) (value : Option Expr)
  | call (head : Head) (callee : Expr) (args : List Expr)
  | assign (head : Head) (target value : Expr)
  | binary (head : Head) (op : BinaryOp) (lhs rhs : Expr)
  /-- A conditional without an `else`. -/
  | ifOnly (head : Head) (condition body : Expr)
  | ifElse (head : Head) (condition thenBody elseBody : Expr)
  /-- A conditional whose `else` is another conditional. -/
  | ifElseIf (head : Head) (condition thenBody elseIf : Expr)
  /-- Statements, then the expression whose value is the block's. -/
  | block (head : Head) (stmts : List Stmt) (tail : Option Expr)
  | index (head : Head) (base position : Expr)
  | array (head : Head) (values : List Expr)
  /-- An array of copies of one value. -/
  | copies (head : Head) (element : Expr) (count : UInt64)
  | struct (head : Head) (path : StructPath) (fields : List FieldInit)

inductive Stmt
  | bind (head : Head) (pattern : Pattern) (ascribed : Option TypeExpr) (init : Option Expr)
  /-- An expression evaluated for its effects. -/
  | expr (expr : Expr)

inductive FieldInit
  | mk (head : Head) (name : String) (value : Expr)

end

namespace Expr

def head : Expr → Head
  | literal h _ => h
  | identifier h _ => h
  | ret h _ => h
  | call h _ _ => h
  | assign h _ _ => h
  | binary h _ _ _ => h
  | ifOnly h _ _ => h
  | ifElse h _ _ _ => h
  | ifElseIf h _ _ _ => h
  | block h _ _ => h
  | index h _ _ => h
  | array h _ => h
  | copies h _ _ => h
  | struct h _ _ => h

def ir (e : Expr) : IrId := e.head.id.ir

def surface (e : Expr) : SurfaceId := e.head.id.surface

def locus (e : Expr) : Location := e.head.locus

def isBlock : Expr → Bool
  | block .. => true
  | _ => false

/-- The value of a block's last expression; other expressions have none. -/
def tail? : Expr → Option Expr
  | block _ _ t => t
  | _ => none

end Expr

/-- Where the statement stands. -/
def Stmt.locus : Stmt → Location
  | .bind h _ _ _ => h.locus
  | .expr e => e.locus

namespace FieldInit

def head : FieldInit → Head
  | mk h _ _ => h

def name : FieldInit → String
  | mk _ n _ => n

def value : FieldInit → Expr
  | mk _ _ v => v

end FieldInit

/-! ## Items -/

structure Param where
  head : Head
  pattern : Pattern
  type : TypeExpr

structure FunctionDecl where
  name : String
  params : List Param
  returns : Option TypeExpr
  /-- A block in every program that lowers. -/
  body : Expr

structure FieldDecl where
  head : Head
  name : String
  type : TypeExpr

structure StructDecl where
  name : String
  fields : List FieldDecl

structure ConstantDecl where
  name : String
  type : TypeExpr
  value : Expr

/-- A variable of the whole program. -/
structure StaticDecl where
  name : String
  isMutable : Bool
  type : TypeExpr
  value : Expr

inductive ItemKind
  | function (decl : FunctionDecl)
  | struct (decl : StructDecl)
  | constant (decl : ConstantDecl)
  | static (decl : StaticDecl)

structure Item where
  head : Head
  kind : ItemKind

def Item.name (i : Item) : String :=
  match i.kind with
  | .function d => d.name
  | .struct d => d.name
  | .constant d => d.name
  | .static d => d.name

def Item.isStruct (i : Item) : Bool :=
  match i.kind with
  | .struct _ => true
  | _ => false

/-- The items of one crate. -/
structure Program where
  crate : CrateNumber
  items : List Item

/-- One resolved reference: the node `use` names the declaration `decl`. -/
structure Binding where
  use : SurfaceId
  decl : SurfaceId
  deriving DecidableEq, Repr

/-- A declaration site and the node that owns its type. -/
structure Definition where
  node : SurfaceId
  parent : SurfaceId
  deriving DecidableEq, Repr

/-- A program with everything name resolution found out about it. -/
structure CompilationUnit where
  program : Program
  names : List Binding
  types : List Binding
  definitions : List Definition

/-- A unit without items. -/
def CompilationUnit.empty : CompilationUnit := ⟨⟨⟨0⟩, []⟩, [], [], []⟩

end MiddleEnd
