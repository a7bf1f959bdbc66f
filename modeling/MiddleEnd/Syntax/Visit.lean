/-
  The nodes of a program in the order of a depth-first walk: a node before its parts, parts from
  left to right. A walk is the list of its visits, so a traversal is a fold over that list.
-/
import MiddleEnd.Syntax.Basic

namespace MiddleEnd

/-- One step of a walk. -/
inductive Visit
  /-- A node, at its own position or else at that of the node around it. -/
  | node (id : Identity) (locus : Location)
  /-- A named type annotation, after the visit of its node. -/
  | typePath (id : SurfaceId) (name : String)
  deriving DecidableEq, Repr

namespace Visit

/-- The visit of a node with a position of its own. -/
def ofHead (h : Head) : Visit := .node h.id h.locus

/-- The node visited, if the step visits one. -/
def node? : Visit → Option (Identity × Location)
  | .node id locus => some (id, locus)
  | .typePath .. => none

/-- The named annotation visited, if the step visits one. -/
def typePath? : Visit → Option (SurfaceId × String)
  | .node .. => none
  | .typePath id name => some (id, name)

end Visit

def TypeExpr.visits : TypeExpr → List Visit
  | .path h name => [.ofHead h, .typePath h.id.surface name]
  | .array h element _ => .ofHead h :: element.visits
  | .unit h => [.ofHead h]

/-- The visits of an annotation that may be missing. -/
def TypeExpr.visitsOf : Option TypeExpr → List Visit
  | none => []
  | some t => t.visits

mutual

def Expr.visits : Expr → List Visit
  | .literal h _ => [.ofHead h]
  | .identifier h _ => [.ofHead h]
  | .ret h none => [.ofHead h]
  | .ret h (some value) => .ofHead h :: value.visits
  | .call h callee args => .ofHead h :: (callee.visits ++ Expr.visitsAll args)
  | .assign h target value => .ofHead h :: (target.visits ++ value.visits)
  | .binary h _ lhs rhs => .ofHead h :: (lhs.visits ++ rhs.visits)
  | .ifOnly h condition body => .ofHead h :: (condition.visits ++ body.visits)
  | .ifElse h condition thenBody elseBody =>
    .ofHead h :: (condition.visits ++ (thenBody.visits ++ elseBody.visits))
  | .ifElseIf h condition thenBody elseIf =>
    .ofHead h :: (condition.visits ++ (thenBody.visits ++ elseIf.visits))
  | .block h stmts none => .ofHead h :: Stmt.visitsAll stmts
  | .block h stmts (some tail) => .ofHead h :: (Stmt.visitsAll stmts ++ tail.visits)
  | .index h base position => .ofHead h :: (base.visits ++ position.visits)
  | .array h values => .ofHead h :: Expr.visitsAll values
  | .copies h element _ => .ofHead h :: element.visits
  | .struct h path fields =>
    .ofHead h :: .node path.id h.locus :: FieldInit.visitsAll fields

def Expr.visitsAll : List Expr → List Visit
  | [] => []
  | e :: rest => e.visits ++ Expr.visitsAll rest

def Stmt.visits : Stmt → List Visit
  | .bind h pattern ascribed none =>
    .ofHead h :: .node pattern.id h.locus :: TypeExpr.visitsOf ascribed
  | .bind h pattern ascribed (some init) =>
    .ofHead h :: .node pattern.id h.locus :: (TypeExpr.visitsOf ascribed ++ init.visits)
  | .expr e => e.visits

def Stmt.visitsAll : List Stmt → List Visit
  | [] => []
  | s :: rest => s.visits ++ Stmt.visitsAll rest

def FieldInit.visitsAll : List FieldInit → List Visit
  | [] => []
  | .mk h _ value :: rest => .ofHead h :: (value.visits ++ FieldInit.visitsAll rest)

end

def Param.visits (p : Param) : List Visit :=
  .ofHead p.head :: .node p.pattern.id p.head.locus :: p.type.visits

def FieldDecl.visits (f : FieldDecl) : List Visit :=
  .ofHead f.head :: f.type.visits

def ItemKind.visits : ItemKind → List Visit
  | .function d => d.params.flatMap Param.visits ++ (TypeExpr.visitsOf d.returns ++ d.body.visits)
  | .struct d => d.fields.flatMap FieldDecl.visits
  | .constant d => d.type.visits ++ d.value.visits
  | .static d => d.type.visits ++ d.value.visits

def Item.visits (i : Item) : List Visit :=
  .ofHead i.head :: i.kind.visits

def Program.visits (p : Program) : List Visit :=
  p.items.flatMap Item.visits

/-- The nodes a program holds, in the order of the walk. -/
def Program.nodes (p : Program) : List (Identity × Location) :=
  p.visits.filterMap Visit.node?

/-- The named annotations a program holds, in the order of the walk. -/
def Program.typePaths (p : Program) : List (SurfaceId × String) :=
  p.visits.filterMap Visit.typePath?

end MiddleEnd
