/-
  Writing compilation units as documents: records in the object form, with every field in the order
  of its declaration, and names of variants without content spelled alone. Reading the document
  gives the unit back as long as it stays within the nesting limit.
-/
import MiddleEnd.Syntax.Basic
import MiddleEnd.Json.Write

namespace MiddleEnd

open Json

/-! ## Identities and positions -/

def Location.toJson (l : Location) : Json :=
  object [("file_id", .nat l.file.toNat), ("line", .nat l.line.toNat),
    ("column", .nat l.column.toNat)]

def Identity.toJson (i : Identity) : Json :=
  object [("crate_num", .nat i.crate.val.toNat), ("node_id", .nat i.surface.val.toNat),
    ("hir_id", .nat i.ir.val.toNat)]

/-- A record that starts with a head. -/
def Head.record (h : Head) (rest : List (String × Json)) : Json :=
  object (("mappings", h.id.toJson) :: ("locus", h.locus.toJson) :: rest)

/-- A variant with content. -/
def Json.variant (name : String) (content : Json) : Json := object [(name, content)]

/-! ## Names of variants -/

def LiteralKind.variantName : LiteralKind → String
  | .int => "Int"
  | .float => "Float"
  | .bool => "Bool"

def LiteralHint.variantName : LiteralHint → String
  | .unknown => "Unknown"
  | .i8 => "I8"
  | .i16 => "I16"
  | .i32 => "I32"
  | .i64 => "I64"
  | .i128 => "I128"
  | .u8 => "U8"
  | .u16 => "U16"
  | .u32 => "U32"
  | .u64 => "U64"
  | .u128 => "U128"
  | .f32 => "F32"
  | .f64 => "F64"
  | .bool => "Bool"

def ArithmeticOp.variantName : ArithmeticOp → String
  | .add => "Add"
  | .sub => "Sub"
  | .mul => "Mul"
  | .div => "Div"
  | .rem => "Rem"
  | .bitAnd => "BitAnd"
  | .bitOr => "BitOr"
  | .bitXor => "BitXor"
  | .shl => "Shl"
  | .shr => "Shr"

def ComparisonOp.variantName : ComparisonOp → String
  | .eq => "Eq"
  | .ne => "Ne"
  | .lt => "Lt"
  | .le => "Le"
  | .gt => "Gt"
  | .ge => "Ge"

def LazyOp.variantName : LazyOp → String
  | .and => "And"
  | .or => "Or"

/-- The variant of a binary expression, and that of its operator. -/
def BinaryOp.variantNames : BinaryOp → String × String
  | .arithmetic op => ("ArithmeticOrLogical", op.variantName)
  | .comparison op => ("Comparison", op.variantName)
  | .lazy op => ("LazyBoolean", op.variantName)

/-! ## Leaves -/

def Literal.toJson (l : Literal) : Json :=
  object [("value", Json.text l.spelling), ("kind", Json.text l.kind.variantName),
    ("type_hint", Json.text l.hint.variantName)]

def Pattern.toJson (p : Pattern) : Json :=
  object [("mappings", p.id.toJson), ("name", Json.text p.name), ("mutable", .bool p.isMutable)]

def StructPath.toJson (p : StructPath) : Json :=
  object [("mappings", p.id.toJson), ("name", Json.text p.name)]

def TypeExpr.toJson : TypeExpr → Json
  | .path h name => h.record [("kind", variant "Path" (Json.text name))]
  | .array h element capacity =>
    h.record [("kind", variant "Array"
      (object [("element", element.toJson), ("capacity", .nat capacity.toNat)]))]
  | .unit h => h.record [("kind", Json.text "Unit")]

/-! ## Expressions and statements -/

mutual

def Expr.toJson : Expr → Json
  | .literal h lit => h.record [("kind", variant "Literal" lit.toJson)]
  | .identifier h name => h.record [("kind", variant "Identifier" (Json.text name))]
  | .ret h none => h.record [("kind", variant "Return" .null)]
  | .ret h (some value) => h.record [("kind", variant "Return" value.toJson)]
  | .call h callee args =>
    h.record [("kind", variant "Call"
      (object [("callee", callee.toJson), ("args", .arr (Expr.toJsons args))]))]
  | .assign h target value =>
    h.record [("kind", variant "Assignment"
      (object [("lhs", target.toJson), ("rhs", value.toJson)]))]
  | .binary h op lhs rhs =>
    h.record [("kind", variant op.variantNames.1
      (object [("op", Json.text op.variantNames.2), ("lhs", lhs.toJson), ("rhs", rhs.toJson)]))]
  | .ifOnly h condition body =>
    h.record [("kind", variant "If"
      (object [("condition", condition.toJson), ("block", body.toJson)]))]
  | .ifElse h condition thenBody elseBody =>
    h.record [("kind", variant "IfElse"
      (object [("condition", condition.toJson), ("if_block", thenBody.toJson),
        ("else_block", elseBody.toJson)]))]
  | .ifElseIf h condition thenBody elseIf =>
    h.record [("kind", variant "IfElseIf"
      (object [("condition", condition.toJson), ("if_block", thenBody.toJson),
        ("else_if", elseIf.toJson)]))]
  | .block h stmts none =>
    h.record [("kind", variant "Block"
      (object [("stmts", .arr (Stmt.toJsons stmts)), ("tail", .null)]))]
  | .block h stmts (some tail) =>
    h.record [("kind", variant "Block"
      (object [("stmts", .arr (Stmt.toJsons stmts)), ("tail", tail.toJson)]))]
  | .index h base position =>
    h.record [("kind", variant "ArrayIndex"
      (object [("array", base.toJson), ("index", position.toJson)]))]
  | .array h values =>
    h.record [("kind", variant "Array" (variant "Values" (.arr (Expr.toJsons values))))]
  | .copies h element count =>
    h.record [("kind", variant "Array" (variant "Copied"
      (object [("elem", element.toJson), ("count", .nat count.toNat)])))]
  | .struct h path fields =>
    h.record [("kind", variant "StructStruct"
      (object [("path", path.toJson), ("fields", .arr (FieldInit.toJsons fields))]))]

def Expr.toJsons : List Expr → List Json
  | [] => []
  | e :: rest => e.toJson :: Expr.toJsons rest

def Stmt.toJson : Stmt → Json
  | .bind h pattern ascribed none =>
    variant "Let" (h.record [("pattern", pattern.toJson),
      ("ty", ofOption TypeExpr.toJson ascribed), ("init", .null)])
  | .bind h pattern ascribed (some init) =>
    variant "Let" (h.record [("pattern", pattern.toJson),
      ("ty", ofOption TypeExpr.toJson ascribed), ("init", init.toJson)])
  | .expr e => variant "Expr" e.toJson

def Stmt.toJsons : List Stmt → List Json
  | [] => []
  | s :: rest => s.toJson :: Stmt.toJsons rest

def FieldInit.toJsons : List FieldInit → List Json
  | [] => []
  | .mk h name value :: rest =>
    h.record [("name", Json.text name), ("value", value.toJson)] :: FieldInit.toJsons rest

end

/-! ## Items and units -/

def Param.toJson (p : Param) : Json :=
  p.head.record [("pattern", p.pattern.toJson), ("ty", p.type.toJson)]

def FunctionDecl.toJson (d : FunctionDecl) : Json :=
  object [("name", Json.text d.name), ("params", .arr (d.params.map Param.toJson)),
    ("return_type", ofOption TypeExpr.toJson d.returns), ("body", d.body.toJson)]

def FieldDecl.toJson (d : FieldDecl) : Json :=
  d.head.record [("name", Json.text d.name), ("ty", d.type.toJson)]

def StructDecl.toJson (d : StructDecl) : Json :=
  object [("name", Json.text d.name), ("fields", .arr (d.fields.map FieldDecl.toJson))]

def ConstantDecl.toJson (d : ConstantDecl) : Json :=
  object [("name", Json.text d.name), ("ty", d.type.toJson), ("expr", d.value.toJson)]

def StaticDecl.toJson (d : StaticDecl) : Json :=
  object [("name", Json.text d.name), ("mutable", .bool d.isMutable), ("ty", d.type.toJson),
    ("expr", d.value.toJson)]

def ItemKind.toJson : ItemKind → Json
  | .function d => variant "Function" d.toJson
  | .struct d => variant "Struct" d.toJson
  | .constant d => variant "Constant" d.toJson
  | .static d => variant "Static" d.toJson

def Item.toJson (i : Item) : Json := i.head.record [("kind", i.kind.toJson)]

def Program.toJson (p : Program) : Json :=
  object [("crate_num", .nat p.crate.val.toNat), ("items", .arr (p.items.map Item.toJson))]

def Binding.toJson (b : Binding) : Json :=
  object [("use_site", .nat b.use.val.toNat), ("decl", .nat b.decl.val.toNat)]

def Definition.toJson (d : Definition) : Json :=
  object [("node", .nat d.node.val.toNat), ("parent", .nat d.parent.val.toNat)]

namespace CompilationUnit

def toJson (u : CompilationUnit) : Json :=
  object [("crate", u.program.toJson), ("names", .arr (u.names.map Binding.toJson)),
    ("types", .arr (u.types.map Binding.toJson)),
    ("definitions", .arr (u.definitions.map Definition.toJson))]

/-- The unit as text, without any blanks. -/
def toText (u : CompilationUnit) : String := u.toJson.compact

end CompilationUnit

end MiddleEnd
