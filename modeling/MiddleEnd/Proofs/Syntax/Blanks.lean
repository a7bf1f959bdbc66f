/-
  Blank variables: those of a `let` with neither an annotation nor an initial value, which say
  nothing about their type. A blank variable is a variable that some part of the program introduces
  (`Program.introduced_blanks`). The function that a call names is not looked into, as it is not
  evaluated.
-/
import MiddleEnd.Proofs.Syntax.Parts

namespace MiddleEnd

mutual

/-- The identities of the blank variables in an expression, of their statements and patterns. -/
def Expr.blanks : Expr → List IrId
  | .literal _ _ | .identifier _ _ | .ret _ none => []
  | .ret _ (some value) => value.blanks
  | .call _ _ args => Expr.blanksAll args
  | .assign _ target value => target.blanks ++ value.blanks
  | .binary _ _ lhs rhs => lhs.blanks ++ rhs.blanks
  | .ifOnly _ condition body => condition.blanks ++ body.blanks
  | .ifElse _ condition thenBody elseBody =>
    condition.blanks ++ (thenBody.blanks ++ elseBody.blanks)
  | .ifElseIf _ condition thenBody elseIf => condition.blanks ++ (thenBody.blanks ++ elseIf.blanks)
  | .block _ stmts none => Stmt.blanksAll stmts
  | .block _ stmts (some tail) => Stmt.blanksAll stmts ++ tail.blanks
  | .index _ base position => base.blanks ++ position.blanks
  | .array _ values => Expr.blanksAll values
  | .copies _ element _ => element.blanks
  | .struct _ _ fields => FieldInit.blanksAll fields

def Expr.blanksAll : List Expr → List IrId
  | [] => []
  | e :: rest => e.blanks ++ Expr.blanksAll rest

def Stmt.blanks : Stmt → List IrId
  | .bind h pattern none none => [h.id.ir, pattern.id.ir]
  | .bind _ _ (some _) none => []
  | .bind _ _ _ (some init) => init.blanks
  | .expr e => e.blanks

def Stmt.blanksAll : List Stmt → List IrId
  | [] => []
  | s :: rest => s.blanks ++ Stmt.blanksAll rest

def FieldInit.blanksAll : List FieldInit → List IrId
  | [] => []
  | .mk _ _ value :: rest => value.blanks ++ FieldInit.blanksAll rest

end

/-- The identities of the blank variables in the body or the initial value of an item. -/
def Item.blanks (i : Item) : List IrId :=
  match i.kind with
  | .function d => d.body.blanks
  | .struct _ => []
  | .constant d => d.value.blanks
  | .static d => d.value.blanks

def Program.blanks (p : Program) : List IrId := p.items.flatMap Item.blanks

/-- The identities are those of variables that the parts introduce. -/
def Introduced (parts : List Part) (ids : List IrId) : Prop :=
  ∀ id ∈ ids, ∃ h pattern, .bind h pattern ∈ parts ∧ id ∈ (Part.bind h pattern).irs

namespace Introduced

variable {parts parts' : List Part} {ids ids' : List IrId}

theorem nil : Introduced parts [] := fun _ h => absurd h List.not_mem_nil

theorem sub (h : Introduced parts ids) (hp : parts ⊆ parts') : Introduced parts' ids := by
  intro id hid
  obtain ⟨g, q, hm, hin⟩ := h id hid
  exact ⟨g, q, hp hm, hin⟩

theorem cons (h : Introduced parts ids) (p : Part) : Introduced (p :: parts) ids :=
  h.sub (List.subset_cons_self ..)

theorem append (h : Introduced parts ids) (h' : Introduced parts' ids') :
    Introduced (parts ++ parts') (ids ++ ids') :=
  List.forall_mem_append.2
    ⟨h.sub (List.subset_append_left ..), h'.sub (List.subset_append_right ..)⟩

end Introduced

mutual

theorem Expr.introduced_blanks : ∀ e : Expr, Introduced e.parts e.blanks
  | .literal _ _ | .identifier _ _ | .ret _ none => .nil
  | .ret _ (some value) => value.introduced_blanks.cons _
  | .call _ _ args => ((Expr.introduced_blanksAll args).cons _).cons _
  | .assign _ target value => (target.introduced_blanks.append value.introduced_blanks).cons _
  | .binary _ _ lhs rhs => (lhs.introduced_blanks.append rhs.introduced_blanks).cons _
  | .ifOnly _ condition body => (condition.introduced_blanks.append body.introduced_blanks).cons _
  | .ifElse _ condition thenBody elseBody => (condition.introduced_blanks.append
    (thenBody.introduced_blanks.append elseBody.introduced_blanks)).cons _
  | .ifElseIf _ condition thenBody elseIf => (condition.introduced_blanks.append
    (thenBody.introduced_blanks.append elseIf.introduced_blanks)).cons _
  | .block _ stmts none => (Stmt.introduced_blanksAll stmts).cons _
  | .block _ stmts (some tail) =>
    ((Stmt.introduced_blanksAll stmts).append tail.introduced_blanks).cons _
  | .index _ base position => (base.introduced_blanks.append position.introduced_blanks).cons _
  | .array _ values => (Expr.introduced_blanksAll values).cons _
  | .copies _ element _ => element.introduced_blanks.cons _
  | .struct _ _ fields => ((FieldInit.introduced_blanksAll fields).cons _).cons _

theorem Expr.introduced_blanksAll :
    ∀ es : List Expr, Introduced (Expr.partsAll es) (Expr.blanksAll es)
  | [] => .nil
  | e :: rest => e.introduced_blanks.append (Expr.introduced_blanksAll rest)

theorem Stmt.introduced_blanks : ∀ st : Stmt, Introduced st.parts st.blanks
  | .bind h pattern none none => fun _ hid => ⟨h, pattern, List.mem_cons_self, hid⟩
  | .bind _ _ (some _) none => .nil
  | .bind _ _ none (some init) | .bind _ _ (some _) (some init) =>
    (init.introduced_blanks.sub (List.subset_append_right ..)).cons _
  | .expr e => e.introduced_blanks

theorem Stmt.introduced_blanksAll :
    ∀ sts : List Stmt, Introduced (Stmt.partsAll sts) (Stmt.blanksAll sts)
  | [] => .nil
  | st :: rest => st.introduced_blanks.append (Stmt.introduced_blanksAll rest)

theorem FieldInit.introduced_blanksAll :
    ∀ fs : List FieldInit, Introduced (FieldInit.partsAll fs) (FieldInit.blanksAll fs)
  | [] => .nil
  | .mk _ _ value :: rest =>
    (value.introduced_blanks.append (FieldInit.introduced_blanksAll rest)).cons _

end

theorem Item.introduced_blanks (i : Item) : Introduced i.bodyParts i.blanks := by
  obtain ⟨h, k⟩ := i
  cases k with
  | function d => exact d.body.introduced_blanks
  | struct d => exact .nil
  | constant d => exact d.value.introduced_blanks
  | static d => exact d.value.introduced_blanks

/-- Blank variables are variables. -/
theorem Program.introduced_blanks (p : Program) : Introduced p.parts p.blanks := by
  intro id hid
  obtain ⟨i, hi, hid⟩ := List.mem_flatMap.1 hid
  have hbody : i.bodyParts ⊆ p.parts :=
    List.Subset.trans (List.subset_append_right ..) (Program.parts_sublist hi).subset
  exact (i.introduced_blanks.sub hbody) id hid

end MiddleEnd
