/-
  Reading the nodes of a program, and whole compilation units, from documents. Every reader takes
  the number of nested lists and objects still allowed and refuses a document that nests deeper;
  what a record passes over may nest as it likes.
-/
import MiddleEnd.Syntax.Basic
import MiddleEnd.Json.Read
import MiddleEnd.UnitText.Record

namespace MiddleEnd.UnitText

/-! ## Identities and positions -/

def location : Nat → Json → Option Location
  | 0, _ => none
  | _ + 1, j => do
    let slot ← record ["file_id", "line", "column"] j
    let file ← (slot "file_id").required word64
    let line ← (slot "line").required word32
    let column ← (slot "column").required word32
    return ⟨file, line, column⟩

def crateNumber (j : Json) : Option CrateNumber := (word32 j).map CrateNumber.mk

def surfaceId (j : Json) : Option SurfaceId := (word32 j).map SurfaceId.mk

def irId (j : Json) : Option IrId := (word32 j).map IrId.mk

def identity : Nat → Json → Option Identity
  | 0, _ => none
  | _ + 1, j => do
    let slot ← record ["crate_num", "node_id", "hir_id"] j
    let crate ← (slot "crate_num").required crateNumber
    let surface ← (slot "node_id").required surfaceId
    let ir ← (slot "hir_id").required irId
    return ⟨crate, surface, ir⟩

/-- The head of a node whose record has these slots. -/
def head (levels : Nat) (slot : String → Slot) : Option Head := do
  let id ← (slot "mappings").required (identity levels)
  let locus ← (slot "locus").required (location levels)
  return ⟨id, locus⟩

/-! ## Names of variants -/

def literalKind : String → Option LiteralKind
  | "Int" => some .int
  | "Float" => some .float
  | "Bool" => some .bool
  | _ => none

def literalHint : String → Option LiteralHint
  | "Unknown" => some .unknown
  | "I8" => some .i8
  | "I16" => some .i16
  | "I32" => some .i32
  | "I64" => some .i64
  | "I128" => some .i128
  | "U8" => some .u8
  | "U16" => some .u16
  | "U32" => some .u32
  | "U64" => some .u64
  | "U128" => some .u128
  | "F32" => some .f32
  | "F64" => some .f64
  | "Bool" => some .bool
  | _ => none

def arithmeticOp : String → Option ArithmeticOp
  | "Add" => some .add
  | "Sub" => some .sub
  | "Mul" => some .mul
  | "Div" => some .div
  | "Rem" => some .rem
  | "BitAnd" => some .bitAnd
  | "BitOr" => some .bitOr
  | "BitXor" => some .bitXor
  | "Shl" => some .shl
  | "Shr" => some .shr
  | _ => none

def comparisonOp : String → Option ComparisonOp
  | "Eq" => some .eq
  | "Ne" => some .ne
  | "Lt" => some .lt
  | "Le" => some .le
  | "Gt" => some .gt
  | "Ge" => some .ge
  | _ => none

def lazyOp : String → Option LazyOp
  | "And" => some .and
  | "Or" => some .or
  | _ => none

/-! ## Leaves -/

def literal : Nat → Json → Option Literal
  | 0, _ => none
  | n + 1, j => do
    let slot ← record ["value", "kind", "type_hint"] j
    let spelling ← (slot "value").required text
    let kind ← (slot "kind").required fun j => (bareVariant n j).bind literalKind
    let hint ← (slot "type_hint").withDefault .unknown fun j => (bareVariant n j).bind literalHint
    return ⟨spelling, kind, hint⟩

def pattern : Nat → Json → Option Pattern
  | 0, _ => none
  | n + 1, j => do
    let slot ← record ["mappings", "name", "mutable"] j
    let id ← (slot "mappings").required (identity n)
    let name ← (slot "name").required text
    let isMutable ← (slot "mutable").withDefault false flag
    return ⟨id, name, isMutable⟩

def structPath : Nat → Json → Option StructPath
  | 0, _ => none
  | n + 1, j => do
    let slot ← record ["mappings", "name"] j
    let id ← (slot "mappings").required (identity n)
    let name ← (slot "name").required text
    return ⟨id, name⟩

/-! ## Type annotations -/

mutual

def typeExpr : Nat → Json → Option TypeExpr
  | 0, _ => none
  | n + 1, j => do
    let slot ← record ["mappings", "locus", "kind"] j
    let h ← head n slot
    (slot "kind").required (typeKind n h)

def typeKind : Nat → Head → Json → Option TypeExpr
  | levels, h, .str name =>
    if bareVariant levels (.str name) = some "Unit" then some (.unit h) else none
  | 0, _, _ => none
  | n + 1, h, j => do
    match (← variant j) with
    | ("Unit", .null) => some (.unit h)
    | ("Path", content) => (text content).map (.path h)
    | ("Array", content) =>
      match n with
      | 0 => none
      | n + 1 =>
        let slot ← record ["element", "capacity"] content
        let element ← (slot "element").required (typeExpr n)
        let capacity ← (slot "capacity").required word64
        return .array h element capacity
    | _ => none

end

/-! ## Expressions and statements -/

mutual

def expr : Nat → Json → Option Expr
  | 0, _ => none
  | n + 1, j => do
    let slot ← record ["mappings", "locus", "kind"] j
    let h ← head n slot
    (slot "kind").required (exprKind n h)

def exprKind : Nat → Head → Json → Option Expr
  | 0, _, _ => none
  | n + 1, h, j => do
    match (← variant j) with
    | ("Literal", content) => (literal n content).map (.literal h)
    | ("Identifier", content) => (text content).map (.identifier h)
    | ("Return", .null) => some (.ret h none)
    | ("Return", content) => (expr n content).map fun value => .ret h (some value)
    | ("Block", content) => block n h content
    | ("Array", content) => arrayElements n h content
    | (name, content) => compound n h name content

/-- The variants whose content is a record with parts. -/
def compound : Nat → Head → String → Json → Option Expr
  | 0, _, _, _ => none
  | n + 1, h, "Call", content => do
    let slot ← record ["callee", "args"] content
    let callee ← (slot "callee").required (expr n)
    let args ← (slot "args").required (exprs n)
    return .call h callee args
  | n + 1, h, "Assignment", content => do
    let slot ← record ["lhs", "rhs"] content
    let target ← (slot "lhs").required (expr n)
    let value ← (slot "rhs").required (expr n)
    return .assign h target value
  | n + 1, h, "ArithmeticOrLogical", content => do
    let slot ← record ["op", "lhs", "rhs"] content
    let op ← (slot "op").required fun j => (bareVariant n j).bind arithmeticOp
    let lhs ← (slot "lhs").required (expr n)
    let rhs ← (slot "rhs").required (expr n)
    return .binary h (.arithmetic op) lhs rhs
  | n + 1, h, "Comparison", content => do
    let slot ← record ["op", "lhs", "rhs"] content
    let op ← (slot "op").required fun j => (bareVariant n j).bind comparisonOp
    let lhs ← (slot "lhs").required (expr n)
    let rhs ← (slot "rhs").required (expr n)
    return .binary h (.comparison op) lhs rhs
  | n + 1, h, "LazyBoolean", content => do
    let slot ← record ["op", "lhs", "rhs"] content
    let op ← (slot "op").required fun j => (bareVariant n j).bind lazyOp
    let lhs ← (slot "lhs").required (expr n)
    let rhs ← (slot "rhs").required (expr n)
    return .binary h (.lazy op) lhs rhs
  | n + 1, h, "If", content => do
    let slot ← record ["condition", "block"] content
    let condition ← (slot "condition").required (expr n)
    let body ← (slot "block").required (expr n)
    return .ifOnly h condition body
  | n + 1, h, "IfElse", content => do
    let slot ← record ["condition", "if_block", "else_block"] content
    let condition ← (slot "condition").required (expr n)
    let thenBody ← (slot "if_block").required (expr n)
    let elseBody ← (slot "else_block").required (expr n)
    return .ifElse h condition thenBody elseBody
  | n + 1, h, "IfElseIf", content => do
    let slot ← record ["condition", "if_block", "else_if"] content
    let condition ← (slot "condition").required (expr n)
    let thenBody ← (slot "if_block").required (expr n)
    let elseIf ← (slot "else_if").required (expr n)
    return .ifElseIf h condition thenBody elseIf
  | n + 1, h, "ArrayIndex", content => do
    let slot ← record ["array", "index"] content
    let base ← (slot "array").required (expr n)
    let position ← (slot "index").required (expr n)
    return .index h base position
  | n + 1, h, "StructStruct", content => do
    let slot ← record ["path", "fields"] content
    let path ← (slot "path").required (structPath n)
    let fields ← (slot "fields").required (fieldInits n)
    return .struct h path fields
  | _, _, _, _ => none

def exprs : Nat → Json → Option (List Expr)
  | 0, _ => none
  | n + 1, j => elements (expr n) j

def arrayElements : Nat → Head → Json → Option Expr
  | 0, _, _ => none
  | n + 1, h, j => do
    match (← variant j) with
    | ("Values", content) =>
      match n with
      | 0 => none
      | n + 1 => (elements (expr n) content).map (.array h)
    | ("Copied", content) =>
      match n with
      | 0 => none
      | n + 1 =>
        let slot ← record ["elem", "count"] content
        let element ← (slot "elem").required (expr n)
        let count ← (slot "count").required word64
        return .copies h element count
    | _ => none

def block : Nat → Head → Json → Option Expr
  | 0, _, _ => none
  | n + 1, h, j => do
    let slot ← record ["stmts", "tail"] j
    let stmts ← (slot "stmts").required (stmts n)
    let tail ← (slot "tail").optional (expr n)
    return .block h stmts tail

def stmts : Nat → Json → Option (List Stmt)
  | 0, _ => none
  | n + 1, j => elements (stmt n) j

def stmt : Nat → Json → Option Stmt
  | 0, _ => none
  | n + 1, j => do
    match (← variant j) with
    | ("Let", content) => letStmt n content
    | ("Expr", content) => (expr n content).map .expr
    | _ => none

def letStmt : Nat → Json → Option Stmt
  | 0, _ => none
  | n + 1, j => do
    let slot ← record ["mappings", "locus", "pattern", "ty", "init"] j
    let h ← head n slot
    let pattern ← (slot "pattern").required (pattern n)
    let ascribed ← (slot "ty").optional (typeExpr n)
    let init ← (slot "init").optional (expr n)
    return .bind h pattern ascribed init

def fieldInits : Nat → Json → Option (List FieldInit)
  | 0, _ => none
  | n + 1, j => elements (fieldInit n) j

def fieldInit : Nat → Json → Option FieldInit
  | 0, _ => none
  | n + 1, j => do
    let slot ← record ["mappings", "locus", "name", "value"] j
    let h ← head n slot
    let name ← (slot "name").required text
    let value ← (slot "value").required (expr n)
    return .mk h name value

end

/-! ## Items -/

/-- A list of records, each read by `read`. -/
def listOf {α : Type} (read : Nat → Json → Option α) : Nat → Json → Option (List α)
  | 0, _ => none
  | n + 1, j => elements (read n) j

def param : Nat → Json → Option Param
  | 0, _ => none
  | n + 1, j => do
    let slot ← record ["mappings", "locus", "pattern", "ty"] j
    let h ← head n slot
    let pattern ← (slot "pattern").required (pattern n)
    let type ← (slot "ty").required (typeExpr n)
    return ⟨h, pattern, type⟩

def functionDecl : Nat → Json → Option FunctionDecl
  | 0, _ => none
  | n + 1, j => do
    let slot ← record ["name", "params", "return_type", "body"] j
    let name ← (slot "name").required text
    let params ← (slot "params").required (listOf param n)
    let returns ← (slot "return_type").optional (typeExpr n)
    let body ← (slot "body").required (expr n)
    return ⟨name, params, returns, body⟩

def fieldDecl : Nat → Json → Option FieldDecl
  | 0, _ => none
  | n + 1, j => do
    let slot ← record ["mappings", "locus", "name", "ty"] j
    let h ← head n slot
    let name ← (slot "name").required text
    let type ← (slot "ty").required (typeExpr n)
    return ⟨h, name, type⟩

def structDecl : Nat → Json → Option StructDecl
  | 0, _ => none
  | n + 1, j => do
    let slot ← record ["name", "fields"] j
    let name ← (slot "name").required text
    let fields ← (slot "fields").required (listOf fieldDecl n)
    return ⟨name, fields⟩

def constantDecl : Nat → Json → Option ConstantDecl
  | 0, _ => none
  | n + 1, j => do
    let slot ← record ["name", "ty", "expr"] j
    let name ← (slot "name").required text
    let type ← (slot "ty").required (typeExpr n)
    let value ← (slot "expr").required (expr n)
    return ⟨name, type, value⟩

def staticDecl : Nat → Json → Option StaticDecl
  | 0, _ => none
  | n + 1, j => do
    let slot ← record ["name", "mutable", "ty", "expr"] j
    let name ← (slot "name").required text
    let isMutable ← (slot "mutable").withDefault false flag
    let type ← (slot "ty").required (typeExpr n)
    let value ← (slot "expr").required (expr n)
    return ⟨name, isMutable, type, value⟩

def itemKind : Nat → Json → Option ItemKind
  | 0, _ => none
  | n + 1, j => do
    match (← variant j) with
    | ("Function", content) => (functionDecl n content).map .function
    | ("Struct", content) => (structDecl n content).map .struct
    | ("Constant", content) => (constantDecl n content).map .constant
    | ("Static", content) => (staticDecl n content).map .static
    | _ => none

def item : Nat → Json → Option Item
  | 0, _ => none
  | n + 1, j => do
    let slot ← record ["mappings", "locus", "kind"] j
    let h ← head n slot
    let kind ← (slot "kind").required (itemKind n)
    return ⟨h, kind⟩

/-! ## Units -/

def program : Nat → Json → Option Program
  | 0, _ => none
  | n + 1, j => do
    let slot ← record ["crate_num", "items"] j
    let crate ← (slot "crate_num").required crateNumber
    let items ← (slot "items").required (listOf item n)
    return ⟨crate, items⟩

def binding : Nat → Json → Option Binding
  | 0, _ => none
  | _ + 1, j => do
    let slot ← record ["use_site", "decl"] j
    let use ← (slot "use_site").required surfaceId
    let decl ← (slot "decl").required surfaceId
    return ⟨use, decl⟩

def definition : Nat → Json → Option Definition
  | 0, _ => none
  | _ + 1, j => do
    let slot ← record ["node", "parent"] j
    let node ← (slot "node").required surfaceId
    let parent ← (slot "parent").required surfaceId
    return ⟨node, parent⟩

def unit : Nat → Json → Option CompilationUnit
  | 0, _ => none
  | n + 1, j => do
    let slot ← record ["crate", "names", "types", "definitions"] j
    let program ← (slot "crate").required (program n)
    let names ← (slot "names").withDefault [] (listOf binding n)
    let types ← (slot "types").withDefault [] (listOf binding n)
    let definitions ← (slot "definitions").withDefault [] (listOf definition n)
    return ⟨program, names, types, definitions⟩

/-- What `read` makes of a whole text. -/
def ofText? {α : Type} (read : Nat → Json → Option α) (s : String) : Option α :=
  (Json.read s).bind (read nestingLimit)

end MiddleEnd.UnitText

namespace MiddleEnd

/-- The compilation unit a text spells, if it spells one. -/
def CompilationUnit.ofText? (s : String) : Option CompilationUnit :=
  UnitText.ofText? UnitText.unit s

end MiddleEnd
