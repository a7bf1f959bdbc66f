/-
  Lowering a whole program: struct items first, then constants and statics, then the signatures of
  all functions, and only then their bodies, so that a body may call every function.
-/
import MiddleEnd.Lower.Expr
import MiddleEnd.Session

namespace MiddleEnd.Lower

/-- The type that checking recorded for an item. -/
def itemType (k : Checked) (i : Item) : Lower Ty :=
  require (.uncheckedItem i.name) (k.types.get? i.head.id.ir)

def structItem (k : Checked) (i : Item) (d : StructDecl) : Lower Unit := do
  let t ← itemType k i
  match t.struct? with
  | none => defect (.structItemType d.name t)
  | some (_, fields) =>
    let members ← types fields
    let ct ← build (·.structType d.name members)
    setType i.head.id.ir ct
    declareType ct

def constantItem (k : Checked) (i : Item) (d : ConstantDecl) : Lower Unit := do
  let ct ← type (← itemType k i)
  let v ← expr k d.value
  let e ← build (·.constant ct d.name v)
  setConstant i.head.id.ir e
  declareConstant e

def staticItem (k : Checked) (i : Item) (d : StaticDecl) : Lower Unit := do
  let ct ← type (← itemType k i)
  let init ← expr k d.value
  let v ← build (·.globalVariable d.name ct init d.isMutable)
  setVariable i.head.id.ir v
  declareVariable v

/-- Parameters and result of the function type of an item. -/
def signatureOf (k : Checked) (i : Item) (d : FunctionDecl) : Lower (Members × Ty) := do
  let t ← itemType k i
  require (.functionItemType d.name t) t.fn?

def functionSignature (k : Checked) (i : Item) (d : FunctionDecl) : Lower Unit := do
  let (params, result) ← signatureOf k i d
  let ps ← types params
  let r ← resultType result
  let f ← buildOrFail (·.function d.name (.function ps (r.getD .void)))
  setFunction i.head.id.ir f

/-- Declare the parameters of a function. -/
def params (f : C.FunctionId) : List Param → Members → Lower Unit
  | p :: rest, .cons _ t ts => do
    let ct ← type t
    let v ← build (·.parameter f p.pattern.name ct)
    setVariable p.head.id.ir v
    params f rest ts
  | _, _ => return ()

/-- The variable that holds the result of a function until it returns, if it has a result. -/
def resultSlot (f : C.FunctionId) (result : Ty) : Lower (Option C.VarId) := do
  if result.isUnit then return none
  let ct ← type result
  let v ← build (·.newLocal f "__ret" ct)
  addStmt (← look (·.declareStmt v none))
  return some v

/-- What becomes of the value of a body: it is returned through the slot, if there is one. -/
def finish (slot : Option C.VarId) : Option C.Expr → Lower Unit
  | none => return ()
  | some value =>
    match slot with
    | some v => do
      store v value
      addStmt (.ret (some (← look (·.varExpr v))))
    | none => addStmt (.expr value)

/-- Fill a function, unless it was filled before. -/
def functionBody (k : Checked) (i : Item) (d : FunctionDecl) : Lower Unit := do
  let f ← require (.undeclaredFunction d.name) (← get).functions[i.head.id.ir]?
  if (← get).isDeclared f then return ()
  let (ps, result) ← signatureOf k i d
  params f d.params ps
  pushBlock (← build (·.newBlock))
  let slot ← resultSlot f result
  pushFunction ⟨f, slot⟩
  match d.body with
  | .block _ ss tail =>
    finish slot (← contents k ss tail)
    discard popFunction
    let body ← popBlock
    buildOrFail (·.setBody f body)
    declareFunction f
    note (.lowered d.name)
  | _ => defect (.bodyNotBlock d.name)

/-- Lower every item of a program and write the result. -/
def program (k : Checked) (p : Program) : Lower Unit := do
  note (.lowering p.items.length)
  p.items.forM fun i =>
    match i.kind with
    | .struct d => structItem k i d
    | _ => return ()
  p.items.forM fun i =>
    match i.kind with
    | .constant d => constantItem k i d
    | .static d => staticItem k i d
    | _ => return ()
  p.items.forM fun i =>
    match i.kind with
    | .function d => functionSignature k i d
    | _ => return ()
  p.items.forM fun i =>
    match i.kind with
    | .function d => functionBody k i d
    | _ => return ()
  write

end MiddleEnd.Lower

namespace MiddleEnd

namespace Session

def checked (s : Session) : Checked := ⟨s.scope, s.progress.types⟩

/-- Lower the checked program of a session for a platform. -/
def lower (s : Session) (target : String) : Except Fault Unit × Lowering :=
  (do Lower.enterPrimitives s.checked; Lower.program s.checked s.program : Lower Unit).run.run
    (.empty target)

end Session

end MiddleEnd
