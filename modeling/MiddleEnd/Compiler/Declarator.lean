/-
  Types as they are declared: the words before the declared names, structs, unions and enumerations
  with their parts, and what stands around each name.
-/
import MiddleEnd.Compiler.Expression

namespace MiddleEnd.Compiler

/-! ## Words of types -/

/-- Whether a list is made of some words, each so often, in any order. -/
def isMadeOf (words : List String) (parts : List String) : Bool :=
  words.length = parts.length && parts.all fun p => words.count p = parts.count p

/-- The type that some words name together. -/
def wordsType? (words : List String) : Option Ty :=
  let isComplex := words.contains "_Complex"
  let rest := words.filter (· ≠ "_Complex")
  let longs := rest.count "long"
  let base := rest.filter fun w => w ∉ ["signed", "unsigned", "short", "long", "int"]
  let isSigned := rest.contains "signed"
  let isUnsigned := rest.contains "unsigned"
  let isShort := rest.contains "short"
  let single := ["signed", "unsigned", "short", "int", "_Complex"].all fun w => words.count w ≤ 1
  if !single || (isSigned && isUnsigned) || 2 < longs || (isShort && 0 < longs) then none
  else
    let plain := !isSigned && !isUnsigned && !isShort && longs = 0 && !rest.contains "int"
    let made (t : Ty) : Option Ty :=
      if isComplex then
        match t with
        | .real k => some (.complex k)
        | _ => some (.complex (.other "int"))
      else some t
    match base with
    | [] =>
      if rest.isEmpty then if isComplex then some (.complex .double) else none
      else
        let rank : Rank :=
          if isShort then .short else if longs = 1 then .long else if longs = 2 then .longLong else .int
        made (.int rank isUnsigned)
    | ["void"] => if plain && !isComplex then some .void else none
    | ["_Bool"] => if plain && !isComplex then some .bool else none
    | ["char"] =>
      if isShort || 0 < longs || rest.contains "int" then none
      else if isSigned then made (.int .char false)
      else if isUnsigned then made (.int .char true)
      else made .char
    | ["__int128"] =>
      if isShort || 0 < longs || rest.contains "int" then none else made (.int .int128 isUnsigned)
    | ["float"] => if plain then made (.real .float) else none
    | ["double"] =>
      if plain then made (.real .double)
      else if isMadeOf rest ["long", "double"] then made (.real .longDouble)
      else none
    | [w] => if plain then made (.real (.other w)) else none
    | _ => none

/-! ## Types of declared names -/

/-- The type of a parameter: an array is passed by its address, as a function is. -/
def Ty.asParam (t : Ty) : Ty :=
  match t.unqualified with
  | .array e _ => .pointer e
  | .function .. | .oldFunction _ => .pointer t
  | _ => t

/-- The type of a function with some parameters. -/
def Params.functionType (result : Ty) : Params → Ty
  | .typed params isVariadic => .function result (params.map (·.2.unqualified)) isVariadic
  | .names _ => .oldFunction result

/-- The type of a declared name; none if there is no such type. -/
def Modifier.apply? (rs : Array Record) (t : Ty) : Modifier → Option Ty
  | .pointer q =>
    if q.isRestrict && t.isFunction then none else some (Ty.qualify q (.pointer t))
  | .array n =>
    if t.isFunction || t.isVoid then none
    else do
      let x ← t.extent? rs
      match n with
      | .known k => if maxSize < k || maxSize < k * x.size then none else some (.array t n)
      | _ => some (.array t n)
  | .function params =>
    if t.isFunction || t.isArray then none else some (params.functionType t.unqualified)

def Declarator.type? (d : Declarator) (rs : Array Record) (base : Ty) : Option Ty :=
  d.modifiers.foldlM (fun t m => m.apply? rs t) base

/-- The parameters of a declared function. -/
def Declarator.params? (d : Declarator) : Option Params :=
  match d.modifiers.getLast? with
  | some (.function params) => some params
  | _ => none

namespace Reader

/-! ## Qualifiers -/

/-- The qualifier that a word adds. -/
def qualifier? : String → Option Quals
  | "const" => some .const
  | "volatile" => some .volatile
  | "restrict" => some .restrict
  | "_Atomic" => some .atomic
  | _ => none

def qualifiers : Reader Quals :=
  loop (fun (q : Quals) => do
    attributes
    match ← peek with
    | some (.word w) =>
      match qualifier? w with
      | some p =>
        advance
        return some (q.union p)
      | none => return none
    | _ => return none) .none

/-! ## Records -/

/-- The number of bits of a part of a record. -/
def width (inner : Inner) (t : Ty) (isNamed : Bool) : Reader Nat := do
  let n ← knownNat (← inner .conditional)
  require t.isInteger
  let f ← take t.intForm?
  require (n ≤ f.bits && (n > 0 || !isNamed))
  return n

/-- Read one part of a record behind the words of its type. -/
def field (inner : Inner) (base : Ty) : Reader Field := do
  if ← acceptMark ":" then
    let w ← width inner base false
    attributes
    return ⟨none, base, some w⟩
  let d ← inner .declarator
  let t ← take (d.type? (← records) base)
  let fieldName ← take d.name
  if ← acceptMark ":" then
    let w ← width inner t true
    attributes
    return ⟨some fieldName, t, some w⟩
  attributes
  require (!t.isFunction && !t.isVoid && !t.isVariable)
  return ⟨some fieldName, t, none⟩

/-- Read the parts of a record behind the opening brace. The mark behind the last one may be left
out. -/
def fields (inner : Inner) : Reader (List Field) := do
  let fs ← loop (fun (done : List Field) => do
    if ← isMark "\x7d" then return none
    if ← acceptMark ";" then return some done
    let _ ← acceptWord "__extension__"
    let s ← inner .specifiers
    require (s.storage.isNone && !s.isImplicit)
    let new ←
      if (← isMark ";") || (← isMark "\x7d") then
        match s.type.unqualified with
        | .record _ => pure [⟨none, s.type, none⟩]
        | _ => pure []
      else commaList (field inner s.type)
    if !(← acceptMark ";") then require (← isMark "\x7d")
    return some (new.reverse ++ done)) []
  expectMark "\x7d"
  return fs.reverse

/-- The names of the parts of a record, with those of parts without a name. -/
def fieldNames (rs : Array Record) : (depth : Nat) → List Field → List String
  | 0, _ => []
  | depth + 1, fs => fs.flatMap fun f =>
    match f.name, f.type.unqualified with
    | some n, _ => [n]
    | none, .record id =>
      fieldNames rs depth ((rs[id]?.bind (·.fields)).getD [])
    | none, _ => []

/-- The extent of a part; bits take the room of as many bytes. -/
def fieldExtent? (rs : Array Record) (f : Field) : Option Extent :=
  match f.width, f.type with
  | some w, _ => some ⟨(w + 7) / 8, 1⟩
  | none, .array e .unknown => (e.extent? rs).map fun x => ⟨0, x.align⟩
  | none, t => t.extent? rs

/-- A record with some parts. All must be complete but for an array at the end. -/
def completeRecord (isUnion : Bool) (fs : List Field) : Reader Record := do
  let rs ← records
  let names := fieldNames rs (rs.size + 1) fs
  require (names.eraseDups.length = names.length)
  let open_ (f : Field) : Bool :=
    match f.type with
    | .array _ .unknown => true
    | _ => false
  let named := fs.filter fun f => f.name.isSome || f.type.isRecord
  require ((fs.dropLast.all fun f => !open_ f) && (!(fs.any open_) || 1 < named.length))
  let extents ← take (fs.mapM (fieldExtent? rs))
  let x := if isUnion then Extent.overlay extents else Extent.sequence extents
  require (x.size ≤ maxSize)
  return ⟨isUnion, some fs, x⟩

/-- The struct or union of a name; a new one, unless it is known already. A new one of the same name
hides those of outer blocks if `isNew` says so. -/
def recordNamed (isUnion : Bool) (name : String) (isNew : Bool) : Reader Nat := do
  let s ← scope
  let found := if isNew then s.frame.tags.get? name else s.tag? name
  match found with
  | some (.record id u) =>
    require (u = isUnion)
    return id
  | some (.enum ..) => refuse
  | none =>
    let (id, s) := s.newRecord isUnion
    modifyScope fun _ => s.declareTag name (.record id isUnion)
    return id

/-- Read a struct or union behind its keyword. -/
def recordType (inner : Inner) (isUnion : Bool) : Reader Ty := do
  attributes
  let tag ← peekName
  if tag.isSome then advance
  if ← acceptMark "\x7b" then
    let id ← match tag with
      | some n => recordNamed isUnion n true
      | none =>
        let (id, s) := (← scope).newRecord isUnion
        modifyScope fun _ => s
        pure id
    require ((← records)[id]?.any (·.fields.isNone))
    let fs ← fields inner
    attributes
    let r ← completeRecord isUnion fs
    require ((← records)[id]?.any (·.fields.isNone))
    modifyScope fun s => { s with records := s.records.setIfInBounds id r }
    return .record id
  else
    let n ← take tag
    return .record (← recordNamed isUnion n (← isMark ";"))

/-! ## Enumerations -/

/-- Declare a name of a block or of the whole program that has no other meaning there. -/
def declareNew (name : String) (e : Entity) : Reader Unit := do
  require ((← scope).frame.names.get? name).isNone
  modifyScope fun s => s.declare name e

/-- Read an enumeration behind its keyword. -/
def enumType (inner : Inner) : Reader Ty := do
  attributes
  let tag ← peekName
  if tag.isSome then advance
  let known ← match tag with
    | some n => pure ((← scope).tag? n)
    | none => pure none
  let isBody ← acceptMark "\x7b"
  let id ← match known with
    | some (.enum id complete) =>
      require (!isBody || !complete)
      pure id
    | some (.record ..) => refuse
    | none => fresh
  match tag with
  | some n => modifyScope fun s => s.declareTag n (.enum id isBody)
  | none => require isBody
  if isBody then
    let count ← loop (fun (next : Int) => do
      if ← isMark "\x7d" then return none
      let n ← name
      attributes
      let value ← if ← acceptMark "=" then take (← knownInt? (← inner .conditional)) else pure next
      declareNew n (.enumerator value)
      if !(← acceptMark ",") then require (← isMark "\x7d")
      return some (value + 1)) 0
    require (count ≥ -(Nat.pow 2 63 : Int))
    expectMark "\x7d"
    attributes
  return .enum id

/-! ## Specifiers -/

/-- The words before declared names, so far. -/
structure Gathered where
  storage : Option Storage
  quals : Quals
  words : List String
  type : Option Ty

namespace Gathered

def empty : Gathered := ⟨none, .none, [], none⟩

/-- Whether a type is named already. -/
def hasType (g : Gathered) : Bool := !g.words.isEmpty || g.type.isSome

end Gathered

def storage? : String → Option Storage
  | "typedef" => some .typedef
  | "extern" => some .external
  | "static" => some .static
  | "auto" => some .automatic
  | "register" => some .register
  | _ => none

/-- Words that add nothing to the type. -/
def emptyWords : List String := ["inline", "_Noreturn", "_Thread_local", "__thread"]

/-- Words that name a type, alone or together. -/
def plainTypeWords : List String :=
  ["void", "char", "short", "int", "long", "float", "double", "signed", "unsigned", "_Bool",
    "_Complex", "__int128", "_Float16", "_Float32", "_Float32x", "_Float64", "_Float64x",
    "_Float128", "_Decimal32", "_Decimal64", "_Decimal128"]

/-- Read one of the words before declared names. -/
def specifier (inner : Inner) (g : Gathered) : Reader (Option Gathered) := do
  match ← peek with
  | some (.word "__attribute__") =>
    attributes
    return some g
  | some (.word "struct") | some (.word "union") =>
    let isUnion ← isWord "union"
    require (!g.hasType)
    advance
    return some { g with type := ← recordType inner isUnion }
  | some (.word "enum") =>
    require (!g.hasType)
    advance
    return some { g with type := ← enumType inner }
  | some (.word "__typeof__") =>
    require (!g.hasType)
    advance
    expectMark "("
    let t ← if ← typeIsNext then inner .typeName else pure (← inner .expression).type
    expectMark ")"
    return some { g with type := t }
  | some (.word "_Alignas") =>
    advance
    skipParentheses
    return some g
  | some (.word w) =>
    match storage? w, qualifier? w with
    | some c, _ =>
      require g.storage.isNone
      advance
      return some { g with storage := c }
    | _, some q =>
      if w = "_Atomic" && (← peekSecond) = some (.mark "(") then
        require (!g.hasType)
        advance
        advance
        let t ← inner .typeName
        expectMark ")"
        return some { g with type := t }
      else
        advance
        return some { g with quals := g.quals.union q }
    | none, none =>
      if emptyWords.contains w then
        advance
        return some g
      else if plainTypeWords.contains w then
        require g.type.isNone
        advance
        return some { g with words := g.words ++ [w] }
      else if isKeyword w || g.hasType then return none
      else
        match (← scope).lookup? w with
        | some (.typedef t) =>
          advance
          return some { g with type := t.withName t.isInteger }
        | _ => return none
  | _ => return none

/-- Read the words before declared names. -/
def specifiers (inner : Inner) : Reader Specifiers := do
  let g ← loop (specifier inner) Gathered.empty
  let t ← match g.type with
    | some t => pure t
    | none => if g.words.isEmpty then pure Ty.signedInt else take (wordsType? g.words)
  require (!g.quals.isRestrict || t.isPointer)
  return ⟨g.storage, t.qualify g.quals, !g.hasType⟩

/-! ## Declarators -/

/-- Read the number of elements of an array behind the opening bracket. -/
def arrayLength (inner : Inner) : Reader Length := do
  let _ ← acceptWord "static"
  let _ ← qualifiers
  let _ ← acceptWord "static"
  if ← acceptMark "]" then return .unknown
  if (← isMark "*") && (← peekSecond) = some (.mark "]") then
    advance
    advance
    return .variable
  let o := (← inner .assignment).value
  expectMark "]"
  require o.type.isInteger
  match ← knownInt? o with
  | some n =>
    require (0 ≤ n)
    return .known n.toNat
  | none =>
    require (← body).isSome
    return .variable

/-- Read one parameter. -/
def param (inner : Inner) : Reader (Option String × Ty) := do
  let s ← inner .specifiers
  require (!s.isImplicit || s.storage.isSome)
  require (s.storage.all (· = .register))
  let d ← inner .declarator
  attributes
  let t ← take (d.type? (← records) s.type)
  return (d.name, t.asParam)

/-- Read parameters behind the opening parenthesis. Their names are in scope for those behind. -/
def params (inner : Inner) : Reader Params := do
  if ← acceptMark ")" then return .names []
  let isVoid := (← peek) = some (.word "void") && (← peekSecond) = some (.mark ")")
  if isVoid then
    advance
    advance
    return .typed [] false
  if !(← declarationIsNext) then
    let ns ← commaList name
    expectMark ")"
    require (ns.eraseDups.length = ns.length)
    return .names ns
  let (ps, isVariadic) ← inBlock (loop (fun (done, isVariadic, isLast) => do
    if isLast then return none
    else if ← acceptMark "..." then return some (done, true, true)
    else
      let (n, t) ← param inner
      match n with
      | some n =>
        let id ← fresh
        declareNew n (.object id t .none true false)
      | none => pure ()
      if ← acceptMark "," then return some ((n, t) :: done, isVariadic, false)
      else return some ((n, t) :: done, isVariadic, true)) (([] : List (Option String × Ty)), false, false)
    >>= fun (done, isVariadic, _) => pure (done.reverse, isVariadic))
  expectMark ")"
  require (ps.all fun p => !p.2.isVoid)
  return .typed ps isVariadic

/-- Read what stands behind a declared name. -/
def suffixes (inner : Inner) : Reader (List Modifier) := do
  let ms ← loop (fun (done : List Modifier) => do
    if ← acceptMark "[" then return some (.array (← arrayLength inner) :: done)
    else if ← acceptMark "(" then return some (.function (← params inner) :: done)
    else return none) []
  return ms

/-- Whether an opening parenthesis belongs to a declared name, and not to parameters. -/
def nests : Reader Bool := do
  let next ← peekSecond
  return (← isMark "(") && next ≠ some (.mark ")") && !startsDeclaration (← scope) next

/-- Read a declared name with what stands around it. -/
def declarator (inner : Inner) : Reader Declarator := do
  attributes
  if ← acceptMark "*" then
    let q ← qualifiers
    let d ← inner .declarator
    return { d with modifiers := .pointer q :: d.modifiers }
  if ← nests then
    advance
    let d ← inner .declarator
    expectMark ")"
    let ms ← suffixes inner
    return { d with modifiers := ms ++ d.modifiers }
  let n ← peekName
  if n.isSome then advance
  let ms ← suffixes inner
  return ⟨n, ms⟩

/-- Read the name of a type. -/
def typeName (inner : Inner) : Reader Ty := do
  let s ← inner .specifiers
  require (s.storage.isNone && !s.isImplicit)
  let d ← inner .declarator
  require d.name.isNone
  take (d.type? (← records) s.type)

end Reader

end MiddleEnd.Compiler
