/-
  Checking a whole program in two passes. The first records a type for every item, struct items
  before all others, so that a body may use items that stand after it; the second checks bodies
  and initial values.
-/
import MiddleEnd.Check.Expr

namespace MiddleEnd.Check

/-! ## Signatures -/

/-- The types of parameters, recorded for the parameters and for their patterns. -/
def params (s : Scope) : List Param → Check Members
  | [] => return .nil
  | p :: rest => do
    let t ← typeExpr s p.type
    record p.head.id.ir t
    record p.pattern.id.ir t
    return .cons p.pattern.name t (← params s rest)

/-- The types of field declarations; each declaration gets a field type of its own. -/
def fieldDecls (s : Scope) : List FieldDecl → Check Members
  | [] => return .nil
  | f :: rest => do
    let t ← typeExpr s f.type
    record f.head.id.ir (.field f.head.id.ir f.name t)
    return .cons f.name t (← fieldDecls s rest)

/-- The type of a function. -/
def functionType (s : Scope) (id : IrId) (d : FunctionDecl) : Check Ty := do
  let ps ← params s d.params
  let result ← match d.returns with
    | some t => typeExpr s t
    | none => pure (.unit id)
  return .fn id ps result

def structItemType (s : Scope) (id : IrId) (d : StructDecl) : Check Ty := do
  return .struct id d.name (← fieldDecls s d.fields)

/-- The type of an item, as its signature says. -/
def signatureType (s : Scope) (i : Item) : Check Ty :=
  match i.kind with
  | .function d => functionType s i.head.id.ir d
  | .struct d => structItemType s i.head.id.ir d
  | .constant d => typeExpr s d.type
  | .static d => typeExpr s d.type

/-- Record the type of an item. -/
def signature (s : Scope) (i : Item) : Check Unit := do
  let t ← signatureType s i
  record i.head.id.ir t

/-! ## Bodies -/

/-- Check the body of a function. The value of its tail is the value returned. -/
def functionBody (s : Scope) (id : IrId) (d : FunctionDecl) : Check Unit := do
  match ← typeOf? id with
  | some (.fn _ _ result) =>
    note (.checkingBody d.name)
    let bodyType ← inFunction result (expr s d.body true)
    match d.body.tail?, bodyType with
    | some tail, some t => discard (reconcile result t tail.locus)
    | _, _ => return ()
  | _ => defect (.noSignature d.name)

/-- Check the initial value of a constant or static item. -/
def initialValue (s : Scope) (i : Item) (value : Expr) : Check Unit := do
  match ← typeOf? i.head.id.ir with
  | none => defect (.untypedItem i.name)
  | some declared =>
    match ← expr s value false with
    | some t => discard (reconcile declared t value.locus)
    | none => return ()

def body (s : Scope) (i : Item) : Check Unit :=
  match i.kind with
  | .function d => functionBody s i.head.id.ir d
  | .struct _ => return ()
  | .constant d => initialValue s i d.value
  | .static d => initialValue s i d.value

/-! ## Programs -/

/-- The order in which items get their types: struct items first. -/
def signatureOrder (items : List Item) : List Item :=
  items.filter Item.isStruct ++ items.filter (!·.isStruct)

/-- Check every item of a program. -/
def program (s : Scope) (p : Program) : Check Unit := do
  note (.checking p.items.length)
  (signatureOrder p.items).forM (signature s)
  p.items.forM (body s)

end MiddleEnd.Check
