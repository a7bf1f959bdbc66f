/-
  One compilation from its unit on: the program with all tables about it. Primitive types get their
  identities after every node of the program, so none of them is the identity of a node.
-/
import MiddleEnd.Check.Program

namespace MiddleEnd

structure Session where
  program : Program
  scope : Scope
  progress : Progress

/-! ## Bindings of a unit -/

namespace Bindings

/-- The bindings and definitions that a unit brings along. -/
def addUnit (b : Bindings) (u : CompilationUnit) : Bindings :=
  let b := u.names.foldl (fun b n => b.bindName n.use n.decl) b
  let b := u.types.foldl (fun b n => b.bindType n.use n.decl) b
  u.definitions.foldl define b

/-- Items define themselves, unless the unit says otherwise. -/
def addItems (b : Bindings) (items : List Item) : Bindings :=
  items.foldl (fun b i =>
    let node := i.head.id.surface
    if (b.definition? node).isNone then b.define ⟨node, node⟩ else b) b

end Bindings

/-- The struct item of that name; the last one if there are several. -/
def Program.struct? (p : Program) (name : String) : Option SurfaceId :=
  p.items.reverse.findSome? fun i =>
    match i.kind with
    | .struct d => if d.name = name then some i.head.id.surface else none
    | _ => none

namespace Bindings

/-- What a type name means that no binding explains: a primitive type or a struct item. -/
def implied? (b : Bindings) (p : Program) (name : String) : Option SurfaceId :=
  match b.builtin? name with
  | some node => some node
  | none => p.struct? name

/-- Bind the type names that are still unbound. -/
def addTypePaths (b : Bindings) (p : Program) : Bindings :=
  p.typePaths.foldl (fun b (use, name) =>
    if (b.type? use).isSome then b
    else
      match b.implied? p name with
      | some decl => b.bindType use decl
      | none => b) b

/-- All bindings of a unit, on top of the declared primitive types. -/
def ofUnit (b : Bindings) (u : CompilationUnit) : Bindings :=
  ((b.addUnit u).addItems u.program.items).addTypePaths u.program

end Bindings

/-! ## Sessions -/

/-- The events of declaring primitive types. -/
def Bindings.events (b : Bindings) : List Event :=
  b.builtins.map fun d => .builtinDeclared d.name d.node

/-- The events of entering the types of primitive types and of unit. -/
def TypeTable.events (t : TypeTable) : List Event :=
  t.builtins.map fun (name, type) => .builtinRegistered name type.ref

namespace Session

/-- The session of a unit, before any check. -/
def ofUnit (u : CompilationUnit) : Session :=
  let registry := Registry.empty.enterAll u.program.nodes
  let (bindings, registry) := Bindings.withBuiltins registry
  let bindings := bindings.ofUnit u
  let (types, registry) := TypeTable.withBuiltins bindings.builtins registry
  { program := u.program
    scope := ⟨registry, bindings⟩
    progress := ⟨types, [], bindings.events ++ types.events ++
      [.sessionLoaded u.program.items.length u.names.length]⟩ }

/-- Run a step of checking in a session; what it found out is kept even if it ends in a fault. -/
def run {α : Type} (s : Session) (m : Scope → Check α) : Except Fault α × Session :=
  let (r, progress) := (m s.scope).run.run s.progress
  (r, { s with progress := progress })

/-- Check the program of a session. -/
def check (s : Session) : Except Fault Unit × Session :=
  s.run fun scope => Check.program scope s.program

def diagnostics (s : Session) : List Diagnostic := s.progress.diagnostics

def types (s : Session) : TypeTable := s.progress.types

end Session

end MiddleEnd
