/-
  The types that annotations stand for. An annotation that names no type is reported once and
  stands for the error type, so nothing that uses it is reported again.
-/
import MiddleEnd.Check.Monad

namespace MiddleEnd.Check

/-- The node a path annotation names: one declared outside the program, or else a node of it. -/
def pathTarget? (s : Scope) (types : TypeTable) (h : Head) : Option IrId := do
  let node ← s.bindings.type? h.id.surface
  match types.builtinId? node with
  | some id => some id
  | none => s.registry.node? ⟨h.id.crate, node⟩

/-- The type a path annotation stands for. -/
def pathType? (s : Scope) (types : TypeTable) (h : Head) : Option Ty :=
  (pathTarget? s types h).bind types.get?

/-- The type an annotation stands for, recorded for every part of it. -/
def typeExpr (s : Scope) : TypeExpr → Check Ty
  | .unit h => do
    record h.id.ir (.unit h.id.ir)
    return .unit h.id.ir
  | .array h element capacity => do
    let element ← typeExpr s element
    let t := Ty.array h.id.ir element capacity.toNat
    record h.id.ir t
    return t
  | .path h name => do
    match pathType? s (← get).types h with
    | some t =>
      record h.id.ir t
      return t
    | none =>
      report h.locus (.unresolvedType name)
      record h.id.ir (.error h.id.ir)
      return .error h.id.ir

/-- The type of an annotation that may be missing. -/
def typeExpr? (s : Scope) : Option TypeExpr → Check (Option Ty)
  | none => return none
  | some t => do return some (← typeExpr s t)

end MiddleEnd.Check
