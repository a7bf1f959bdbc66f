/-
  The text of a C program: header, types, constants and variables, prototypes, and the functions
  with their blocks. Types stand in the order of their creation, so each stands behind its parts.

  Writing stops at a constant that was never declared and at a variable that is not one of the
  whole program; the text up to there is kept.
-/
import MiddleEnd.C.Program

namespace MiddleEnd.C

/-- A line inside so many blocks. -/
def indentLine (level : Nat) (line : String) : String :=
  String.ofList (List.replicate (4 * level) ' ') ++ line

def TypeDef.text : TypeDef → String
  | .struct name fields =>
    let lines := fields.map fun (field, t) => s!"    {t.declare field};\n"
    s!"struct {name} \x7b\n" ++ String.join lines ++ "\x7d;"
  | .array name element length =>
    let member := element.declare s!"v[{length.text}]"
    s!"typedef struct \x7b {member}; \x7d {name};"

namespace Program

/-- Name and parameters of a function as they stand before its body. -/
def prototype (p : Program) (f : Function) : String :=
  let params := f.params.filterMap fun v =>
    (p.vars[v.index]?).map fun x => x.type.declare x.name
  let inner := if params.isEmpty then "void" else ", ".intercalate params
  s!"{f.result.spelling} {f.name}({inner})"

/-- The lines of a block, and of the blocks in it, down to a depth. -/
def blockLines (p : Program) : (depth : Nat) → (level : Nat) → BlockId → List String
  | 0, _, _ => []
  | depth + 1, level, b => (p.statements b).flatMap fun
    | .block inner =>
      indentLine level "\x7b" :: (p.blockLines depth (level + 1) inner ++ [indentLine level "\x7d"])
    | .branch condition thenBody elseBody =>
      let otherwise := match elseBody with
        | some e => indentLine level "\x7d else \x7b" :: p.blockLines depth (level + 1) e
        | none => []
      indentLine level s!"if ({condition.text}) \x7b" ::
        (p.blockLines depth (level + 1) thenBody ++ otherwise ++ [indentLine level "\x7d"])
    | s => (s.line?.map (indentLine level)).toList

/-- The lines of a function's body. Blocks that do not contain themselves nest at most as deep as
there are blocks. -/
def bodyLines (p : Program) (b : BlockId) : List String := p.blockLines p.blocks.size 1 b

/-- What the whole program declares, in the order in which it is written. -/
structure Declarations where
  types : List Ty
  constants : List Expr
  functions : List FunctionId
  vars : List VarId

def headerLines (p : Program) : List String :=
  [s!"/* Generated by the tyir C backend for {p.target} */", "#include <stdint.h>",
    "#include <stdbool.h>", ""]

def typeLines (p : Program) (types : List Ty) : List String :=
  types.filterMap (fun
    | .named name =>
      if p.structNames.contains name then some s!"typedef struct {name} {name};" else none
    | _ => none) ++ p.typeDefs.map TypeDef.text ++ [""]

def constantLine (p : Program) (e : Expr) : Except Defect String :=
  match p.constants.lookup e.text with
  | some c => .ok s!"static const {c.type.declare e.text} = {c.value.text};"
  | none => .error (.undeclaredConstant e.text)

def globalLine (p : Program) (v : VarId) : Except Defect String :=
  match p.vars[v.index]? with
  | some ⟨name, type, some g⟩ =>
    let qualifier := if g.isMutable then "static" else "static const"
    .ok s!"{qualifier} {type.declare name} = {g.init.text};"
  | some ⟨name, _, none⟩ => .error (.notAGlobal name)
  | none => .error (.notAGlobal "")

def prototypeLines (p : Program) (fs : List FunctionId) : List String :=
  fs.filterMap (fun f => (p.functions[f.index]?).map fun f => s!"{p.prototype f};") ++ [""]

def functionLines (p : Program) (f : FunctionId) : List String :=
  match p.functions[f.index]? with
  | some f =>
    match f.body with
    | some body => s!"{p.prototype f} \x7b" :: (p.bodyLines body ++ ["\x7d", ""])
    | none => []
  | none => []

/-- All lines of the program; a defect stands in place of a line that cannot be written. -/
def lines (p : Program) (d : Declarations) : List (Except Defect String) :=
  (p.headerLines ++ p.typeLines d.types).map .ok ++
    d.constants.map p.constantLine ++ d.vars.map p.globalLine ++ [.ok ""] ++
    (p.prototypeLines d.functions ++ d.functions.flatMap p.functionLines).map .ok

/-- The lines before the first defect, and that defect. -/
def untilDefect : List (Except Defect String) → List String × Option Defect
  | [] => ([], none)
  | .ok line :: rest =>
    let (lines, defect) := untilDefect rest
    (line :: lines, defect)
  | .error d :: _ => ([], some d)

/-- Write the program, as far as that is possible. -/
def write (p : Program) (d : Declarations) : Except Defect Unit × Program :=
  let (lines, defect) := untilDefect (p.lines d)
  let p := { p with output := String.join (lines.map (· ++ "\n")) }
  match defect with
  | none => (.ok (), p)
  | some e => (.error e, p)

end Program

end MiddleEnd.C
