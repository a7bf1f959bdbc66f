/-
  Declarations: of types, of variables with their initial values, and of functions with their
  bodies. What is declared again must be declared alike.
-/
import MiddleEnd.Compiler.Declarator

namespace MiddleEnd.Compiler

/-- A function's variables have so many bytes at most. -/
def mostRoom : Nat := 9223372036854775296

namespace Reader

/-! ## Names -/

/-- Declare the name of a type. -/
def declareType (name : String) (t : Ty) : Reader Unit := do
  match (← scope).frame.names.get? name with
  | some (.typedef u) => require (t.compatible u)
  | some _ => refuse
  | none => pure ()
  modifyScope fun s => s.declare name (.typedef t)

/-- The linkage of a name that is declared outside of all functions. -/
def fileLinkage (storage : Option Storage) (previous : Option Linkage) : Reader Linkage := do
  match storage, previous with
  | some .static, some .external => refuse
  | some .static, _ => return .internal
  | some .external, some l => return l
  | some .external, none | none, none => return .external
  | none, some .internal => refuse
  | none, some _ => return .external
  | _, _ => refuse

/-- Declare a function, and say whether its body follows. -/
def declareFunction (name : String) (t : Ty) (storage : Option Storage) (isDefined : Bool) :
    Reader Unit := do
  let s ← scope
  require (s.isFileLevel || storage.all fun c => c = .external || c = .automatic)
  let previous := (s.frame.names.get? name) <|> (match s.file.names.get? name with
    | some (.function id u l d) => some (.function id u l d)
    | _ => none)
  match previous with
  | some (.function id u linkage wasDefined) =>
    require (t.compatible u && !(isDefined && wasDefined))
    let linkage ←
      match storage, linkage with
      | some .static, .external => refuse
      | some .static, _ => pure Linkage.internal
      | _, l => pure l
    let e := Entity.function id (u.composite t) linkage (isDefined || wasDefined)
    modifyScope fun s => s.declare name e
  | some _ => refuse
  | none =>
    require (storage.all fun c => c = .external || c = .static || c = .automatic)
    let id ← fresh
    let linkage := if storage = some .static then Linkage.internal else .external
    modifyScope fun s => s.declare name (.function id t linkage isDefined)

/-! ## Variables -/

/-- Keep the value of a variable that never changes. -/
def keepValue (id : Nat) (t : Ty) (value : Option Initial) : Reader Unit := do
  match value with
  | some v =>
    if t.isConst && !t.quals.isVolatile then
      modifyScope fun s => { s with values := s.values.insert id v }
  | none => pure ()

/-- The initial value of a variable, behind the equals sign. -/
def initialValueOf (inner : Inner) (static : Bool) (t : Ty) : Reader (Ty × Option Initial) := do
  require (!t.isVariable)
  let init ← inner .initializer
  initialValue static t init

/-- Declare a variable of the whole program, with its initial value if it has one. -/
def fileVariable (inner : Inner) (name : String) (t : Ty) (storage : Option Storage) :
    Reader Unit := do
  let hasValue ← acceptMark "="
  require (!t.isVoid && !t.isVariable)
  let previous := (← scope).file.names.get? name
  let (id, t, linkage, wasDefined) ←
    match previous with
    | some (.object id u linkage wasDefined _) =>
      require (t.compatible u && !(hasValue && wasDefined))
      pure (id, t.composite u, ← fileLinkage storage (some linkage), wasDefined)
    | some _ => refuse
    | none => pure (← fresh, t, ← fileLinkage storage none, false)
  let declareAs (t : Ty) : Reader Unit :=
    modifyScope fun s => s.declare name (.object id t linkage (hasValue || wasDefined) false)
  declareAs t
  if hasValue then
    require (t.isArray || t.isComplete (← records))
    let (t, value) ← initialValueOf inner true t
    require (t.isComplete (← records))
    declareAs t
    keepValue id t value
  else
    let isOpen := match t.unqualified with
      | .array _ .unknown => true
      | _ => false
    require (storage = some .external || isOpen || t.isComplete (← records))

/-- Declare a variable of a block. -/
def blockVariable (inner : Inner) (name : String) (t : Ty) (storage : Option Storage) :
    Reader Unit := do
  require (!t.isVoid)
  match storage with
  | some .external =>
    match (← scope).frame.names.get? name with
    | some (.object _ u .external _ _) => require (t.compatible u)
    | some _ => refuse
    | none =>
      match (← scope).file.names.get? name with
      | some (.object _ u _ _ _) => require (t.compatible u)
      | some _ => refuse
      | none => pure ()
    require (!t.isVariable)
    let id ← fresh
    modifyScope fun s => s.declare name (.object id t .external false false)
    require (!(← isMark "="))
  | _ =>
    let static := storage = some .static
    let id ← fresh
    declareNew name (.object id t .none true (storage = some .register))
    let (t, value) ←
      if ← acceptMark "=" then
        require (t.isArray || t.isComplete (← records))
        initialValueOf inner static t
      else pure (t, none)
    require (t.isComplete (← records) && !(static && t.isVariable))
    modifyScope fun s => s.declare name (.object id t .none true (storage = some .register))
    keepValue id t value
    if !static then takeRoom t

/-- Declare a name with a type. -/
def declareName (inner : Inner) (s : Specifiers) (name : String) (t : Ty) : Reader Unit := do
  if s.storage = some .typedef then
    require ((← body).isSome || !t.isVariable)
    declareType name t
    require (!(← isMark "="))
  else if t.isFunction then
    declareFunction name t s.storage false
    require (!(← isMark "="))
  else if (← scope).isFileLevel then fileVariable inner name t s.storage
  else blockVariable inner name t s.storage

/-! ## Functions -/

/-- Declare a parameter of the function whose body follows. -/
def declareParam (name : Option String) (t : Ty) : Reader Unit := do
  require (t.isComplete (← records))
  match name with
  | some n =>
    let id ← fresh
    declareNew n (.object id t .none true false)
  | none => pure ()

/-- Read declarations of parameters that were only named before. -/
def declareOldParams (inner : Inner) (names : List String) : Reader Unit := do
  let types ← loop (fun (done : List (String × Ty)) => do
    if ← isMark "\x7b" then return none
    let s ← inner .specifiers
    require (s.storage.all (· = .register))
    let new ← commaList do
      let d ← inner .declarator
      let n ← take d.name
      require (names.contains n && !(done.map (·.1)).contains n)
      return (n, (← take (d.type? (← records) s.type)).asParam)
    expectMark ";"
    return some (new ++ done)) []
  let _ ← names.mapM fun n => declareParam (some n) ((types.lookup n).getD .signedInt)

/-- Read the body of a function behind its declarator. -/
def functionBody (inner : Inner) (s : Specifiers) (name : String) (t : Ty) (params : Params) :
    Reader Unit := do
  require (s.storage.all fun c => c = .external || c = .static || c = .automatic)
  let result ← take t.result?
  require (result.isVoid || result.isComplete (← records))
  declareFunction name t s.storage true
  let outer ← body
  inBlock do
    match params with
    | .typed ps _ => let _ ← ps.mapM fun (n, t) => declareParam n t
    | .names ns => declareOldParams inner ns
    expectMark "\x7b"
    let large := ((result.extent? (← records)).any fun x => 16 < x.size) && !result.isVoid
    let start : Body := ⟨result, [], [], false, false, none, if large then 8 else 0, 0⟩
    fun st => some ((), { st with body := some start })
    let _ ← inner .block
    match ← body with
    | some b =>
      require (b.jumps.all b.labels.contains)
      require (b.room + b.innerRoom ≤ mostRoom)
    | none => pure ()
  fun st => some ((), { st with body := outer })

/-! ## Declarations -/

/-- Read declared names up to the end of the declaration, or one function with its body. -/
def declarators (inner : Inner) (s : Specifiers) : Reader Unit := do
  let _ ← loop (fun (isFirst, isDone) => do
    if isDone then return none
    let d ← inner .declarator
    let n ← take d.name
    let t ← take (d.type? (← records) s.type)
    declarationEnd
    let old := match d.params? with
      | some (.names (_ :: _)) => true
      | _ => false
    let hasBody := isFirst && t.isFunction &&
      ((← isMark "\x7b") || (old && (← declarationIsNext)))
    match hasBody, d.params? with
    | true, some params =>
      functionBody inner s n t params
      return some (false, true)
    | _, _ =>
      require (!old)
      declareName inner s n t
      if ← acceptMark "," then
        attributes
        return some (false, false)
      else
        expectMark ";"
        return some (false, true)) (true, false)

/-- Read a declaration. -/
def declaration (inner : Inner) : Reader Unit := do
  let _ ← loop (fun (_ : Unit) => do
    if ← acceptWord "__extension__" then return some () else return none) ()
  if ← acceptWord "__asm__" then
    skipParentheses
    expectMark ";"
  else if ← acceptWord "__label__" then
    let _ ← commaList name
    expectMark ";"
  else if ← acceptMark ";" then pure ()
  else
    let s ← specifiers inner
    if ← acceptMark ";" then pure () else declarators inner s

end Reader

end MiddleEnd.Compiler
