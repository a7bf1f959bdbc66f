/-
  Direct bodies: their operands are made of literals, names and operators only, so nothing happens
  while they are evaluated (`Evaluates.operand`). Blocks, conditionals, assignments and `return`
  stand as statements, as the last expression of a block, as an initial value, as the value of an
  assignment or under `return`.
-/
import MiddleEnd.Proofs.Meaning.Evaluation

namespace MiddleEnd

open Lower (addsItself)

namespace Expr

/-- The expressions in the expression that stand where only a value is asked for. -/
def operands : Expr → List Expr
  | .call _ _ args => args
  | .binary _ _ lhs rhs => [lhs, rhs]
  | .ifOnly _ condition _ => [condition]
  | .ifElse _ condition _ _ => [condition]
  | .ifElseIf _ condition _ _ => [condition]
  | .index _ base position => [base, position]
  | .array _ values => values
  | .copies _ element _ => [element]
  | .struct _ _ fields => fields.map FieldInit.value
  | _ => []

/-- What a direct body asks of the expression, besides its operands: it is neither a call nor an
array of copies, it names none of the globals, it assigns to a name only, the branches of a
conditional with a value are blocks, and fields are given in the order of their declaration. -/
def inForm (k : Checked) (globals : List IrId) : Expr → Bool
  | .call .. | .copies .. => false
  | .identifier h name =>
    match Check.declaration k.scope (.identifier h name) with
    | .ok id => !globals.contains id
    | .error _ => true
  | .assign _ target _ => target.isName
  | .ifElse _ _ thenBody elseBody => thenBody.isBlock && elseBody.isBlock
  | .struct h _ fields =>
    match (k.types.get? h.id.ir).bind Ty.struct? with
    | some (_, decls) => fields.map FieldInit.name == decls.names
    | none => true
  | _ => true

/-- The expression is in form, and no operand adds statements of its own. -/
def isDirect (k : Checked) (globals : List IrId) (e : Expr) : Bool :=
  e.inForm k globals && e.operands.all (!addsItself ·)

end Expr

def Part.isDirect (k : Checked) (globals : List IrId) : Part → Bool
  | .expr e => e.isDirect k globals
  | _ => true

/-- All expressions among the parts are direct. -/
def Direct (k : Checked) (globals : List IrId) (parts : List Part) : Prop :=
  ∀ p ∈ parts, p.isDirect k globals = true

instance (k : Checked) (globals : List IrId) (parts : List Part) :
    Decidable (Direct k globals parts) :=
  inferInstanceAs (Decidable (∀ p ∈ parts, p.isDirect k globals = true))

/-! ## Operands -/

theorem Expr.mem_partsAll {p : Part} {es : List Expr} : p ∈ Expr.partsAll es ↔
    ∃ e ∈ es, p ∈ e.parts := by
  induction es with
  | nil => simp [Expr.partsAll]
  | cons e rest ih => rw [Expr.partsAll, List.mem_append, ih, List.exists_mem_cons_iff]

theorem FieldInit.mem_partsAll {p : Part} {e : Expr} (hp : p ∈ e.parts) :
    ∀ {fs : List FieldInit}, e ∈ fs.map FieldInit.value → p ∈ FieldInit.partsAll fs
  | .mk h name value :: rest, he => by
    rcases List.mem_cons.1 he with rfl | he
    · exact List.mem_cons_of_mem _ (List.mem_append_left _ hp)
    · exact List.mem_cons_of_mem _ (List.mem_append_right _ (FieldInit.mem_partsAll hp he))

theorem Expr.parts_operand {e o : Expr} (ho : o ∈ e.operands) : ∀ p ∈ o.parts, p ∈ e.parts := by
  intro p hp
  cases e with
  | call h callee args =>
    exact List.mem_cons_of_mem _ (List.mem_cons_of_mem _ (Expr.mem_partsAll.2 ⟨o, ho, hp⟩))
  | array h values => exact List.mem_cons_of_mem _ (Expr.mem_partsAll.2 ⟨o, ho, hp⟩)
  | struct h path fields =>
    exact List.mem_cons_of_mem _ (List.mem_cons_of_mem _ (FieldInit.mem_partsAll hp ho))
  | copies h element count =>
    cases List.mem_singleton.1 ho
    exact List.mem_cons_of_mem _ hp
  | ifOnly h condition body =>
    cases List.mem_singleton.1 ho
    exact List.mem_cons_of_mem _ (List.mem_append_left _ hp)
  | ifElse h condition thenBody elseBody =>
    cases List.mem_singleton.1 ho
    exact List.mem_cons_of_mem _ (List.mem_append_left _ hp)
  | ifElseIf h condition thenBody elseIf =>
    cases List.mem_singleton.1 ho
    exact List.mem_cons_of_mem _ (List.mem_append_left _ hp)
  | binary h op lhs rhs =>
    rcases List.mem_cons.1 ho with rfl | ho
    · exact List.mem_cons_of_mem _ (List.mem_append_left _ hp)
    · cases List.mem_singleton.1 ho
      exact List.mem_cons_of_mem _ (List.mem_append_right _ hp)
  | index h base position =>
    rcases List.mem_cons.1 ho with rfl | ho
    · exact List.mem_cons_of_mem _ (List.mem_append_left _ hp)
    · cases List.mem_singleton.1 ho
      exact List.mem_cons_of_mem _ (List.mem_append_right _ hp)
  | literal | identifier | ret | assign | block => cases ho

theorem Expr.strict_subset (e : Expr) : e.strict ⊆ e.operands := by
  intro o ho
  cases e with
  | binary h op lhs rhs =>
    cases op with
    | lazy op => cases ho
    | _ => exact ho
  | index | array | struct => exact ho
  | _ => cases ho

theorem Expr.mem_operands_of_first? {e f : Expr} (h : e.first? = some f) : f ∈ e.operands := by
  cases e with
  | binary g op lhs rhs =>
    cases op with
    | lazy op =>
      cases h
      exact List.mem_cons_self ..
    | _ => cases h
  | ifOnly | ifElse | ifElseIf =>
    cases h
    exact List.mem_cons_self ..
  | _ => cases h

namespace Direct

variable {k : Checked} {globals : List IrId} {parts parts' : List Part} {e o : Expr}

theorem sub (h : Direct k globals parts) (hs : ∀ p ∈ parts', p ∈ parts) :
    Direct k globals parts' :=
  fun p hp => h p (hs p hp)

theorem left (h : Direct k globals (parts ++ parts')) : Direct k globals parts :=
  h.sub fun _ hp => List.mem_append_left _ hp

theorem right (h : Direct k globals (parts ++ parts')) : Direct k globals parts' :=
  h.sub fun _ hp => List.mem_append_right _ hp

theorem inForm (h : Direct k globals e.parts) : e.inForm k globals = true :=
  (Bool.and_eq_true _ _ ▸ h _ e.self_mem_parts).1

/-- An operand is direct, and adds no statements of its own. -/
theorem operand (h : Direct k globals e.parts) (ho : o ∈ e.operands) :
    addsItself o = false ∧ Direct k globals o.parts := by
  have hall := (Bool.and_eq_true _ _ ▸ h _ e.self_mem_parts).2
  refine ⟨?_, h.sub (Expr.parts_operand ho)⟩
  simpa using List.all_eq_true.1 hall o ho

theorem not_global {g : Head} {name : String} {id : IrId}
    (h : Direct k globals (Expr.identifier g name).parts)
    (hd : Check.declaration k.scope (.identifier g name) = .ok id) : id ∉ globals := by
  have hform := h.inForm
  simp only [Expr.inForm, hd, Bool.not_eq_true'] at hform
  intro hmem
  rw [List.contains_iff_mem.2 hmem] at hform
  cases hform

theorem names_eq {g : Head} {path : StructPath} {fields : List FieldInit} {r : IrId} {name : String}
    {decls : Members} (h : Direct k globals (Expr.struct g path fields).parts)
    (ht : k.types.get? g.id.ir = some (.struct r name decls)) :
    fields.map FieldInit.name = decls.names := by
  have hform := h.inForm
  simp only [Expr.inForm, ht, Option.bind_some, Ty.struct?, beq_iff_eq] at hform
  exact hform

theorem branches {g : Head} {condition thenBody elseBody : Expr}
    (h : Direct k globals (Expr.ifElse g condition thenBody elseBody).parts) :
    thenBody.isBlock = true ∧ elseBody.isBlock = true :=
  Bool.and_eq_true _ _ ▸ h.inForm

end Direct

/-! ## Evaluation -/

variable {V : Type}

namespace Code

/-- What only has a value. -/
def IsOperand : Code → Prop
  | .expr e => addsItself e = false
  | .exprs es => ∀ e ∈ es, addsItself e = false
  | _ => False

def parts : Code → List Part
  | .expr e => e.parts
  | .exprs es => Expr.partsAll es
  | .stmt st => st.parts
  | .stmts sts => Stmt.partsAll sts

/-- Operands that are direct. -/
def Quiet (k : Checked) (globals : List IrId) (c : Code) : Prop :=
  c.IsOperand ∧ Direct k globals c.parts

variable {k : Checked} {globals : List IrId} {e f : Expr} {es : List Expr}

theorem Quiet.head (h : Quiet k globals (.exprs (e :: es))) : Quiet k globals (.expr e) :=
  ⟨h.1 e (List.mem_cons_self ..), h.2.left⟩

theorem Quiet.tail (h : Quiet k globals (.exprs (e :: es))) : Quiet k globals (.exprs es) :=
  ⟨fun o ho => h.1 o (List.mem_cons_of_mem _ ho), h.2.right⟩

theorem quiet_operand (h : Direct k globals e.parts) (hf : f ∈ e.operands) :
    Quiet k globals (.expr f) :=
  h.operand hf

theorem quiet_operands (h : Direct k globals e.parts) (hs : es ⊆ e.operands) :
    Quiet k globals (.exprs es) := by
  refine ⟨fun o ho => (h.operand (hs ho)).1, ?_⟩
  intro p hp
  obtain ⟨o, ho, hp⟩ := Expr.mem_partsAll.1 hp
  exact (h.operand (hs ho)).2 p hp

end Code

section

variable {k : Checked} {O : Operators V} {P Q : Expr → Result V → Prop} {globals : List IrId}

/-- Operands leave the store alone and do not return, and nothing is asked about them. -/
theorem Evaluates.operand {s s' : Store V} {c : Code} {r : Result V}
    (h : Evaluates k O P s c r s') : c.Quiet k globals →
      s' = s ∧ (∀ v, r ≠ .returned v) ∧ Evaluates k O Q s c r s' := by
  induction h with
  | literal h lit hl => exact fun _ => ⟨rfl, nofun, .literal h lit hl⟩
  | identifier h name hd hs => exact fun _ => ⟨rfl, nofun, .identifier h name hd hs⟩
  | binary h op lhs rhs hop _ ho ih =>
    intro hq
    obtain ⟨rfl, _, he⟩ := ih (Code.quiet_operands hq.2 (List.Subset.refl _))
    exact ⟨rfl, nofun, .binary h op lhs rhs hop he ho⟩
  | decided h op lhs rhs _ ht ih =>
    intro hq
    obtain ⟨rfl, _, he⟩ := ih (Code.quiet_operand hq.2 (List.mem_cons_self ..))
    exact ⟨rfl, nofun, .decided h op lhs rhs he ht⟩
  | undecided h op lhs rhs _ ht _ ihl ihr =>
    intro hq
    obtain ⟨rfl, _, hl⟩ := ihl (Code.quiet_operand hq.2 (List.mem_cons_self ..))
    obtain ⟨rfl, _, hr⟩ := ihr
      (Code.quiet_operand hq.2 (List.mem_cons_of_mem _ (List.mem_singleton_self _)))
    exact ⟨rfl, nofun, .undecided h op lhs rhs hl ht hr⟩
  | undecidedLeft h op lhs rhs _ _ _ _ ihr =>
    intro hq
    exact absurd rfl ((ihr
      (Code.quiet_operand hq.2 (List.mem_cons_of_mem _ (List.mem_singleton_self _)))).2.1 _)
  | index h base position _ ho ih =>
    intro hq
    obtain ⟨rfl, _, he⟩ := ih (Code.quiet_operands hq.2 (List.Subset.refl _))
    exact ⟨rfl, nofun, .index h base position he ho⟩
  | array h values _ ih =>
    intro hq
    obtain ⟨rfl, _, he⟩ := ih (Code.quiet_operands hq.2 (List.Subset.refl _))
    exact ⟨rfl, nofun, .array h values he⟩
  | struct h path fields hty _ ha ih =>
    intro hq
    obtain ⟨rfl, _, he⟩ := ih (Code.quiet_operands hq.2 (List.Subset.refl _))
    exact ⟨rfl, nofun, .struct h path fields hty he ha⟩
  | strictLeft e _ ih =>
    exact fun hq => absurd rfl ((ih (Code.quiet_operands hq.2 e.strict_subset)).2.1 _)
  | firstLeft e f hf _ ih =>
    exact fun hq =>
      absurd rfl ((ih (Code.quiet_operand hq.2 (Expr.mem_operands_of_first? hf))).2.1 _)
  | exprsNil => exact fun _ => ⟨rfl, nofun, .exprsNil⟩
  | exprsCons e rest _ _ ih ihr =>
    intro hq
    obtain ⟨rfl, _, he⟩ := ih hq.head
    obtain ⟨rfl, _, hr⟩ := ihr hq.tail
    exact ⟨rfl, nofun, .exprsCons e rest he hr⟩
  | exprsLeft e rest _ ih => exact fun hq => absurd rfl ((ih hq.head).2.1 _)
  | exprsRight e rest _ _ _ ihr => exact fun hq => absurd rfl ((ihr hq.tail).2.1 _)
  | retUnit | ret | retLeft | assign | assignLeft | ifTaken | ifSkipped | ifElse | ifElseIf
  | blockUnit | block | blockLeft => exact fun hq => nomatch hq.1
  | effect | declare | bind | bindLeft | stmtsNil | stmtsCons | stmtsLeft =>
    exact fun hq => hq.1.elim

/-- Operands are evaluated one after the other, all in the same store. -/
theorem Evaluates.peel {s s' : Store V} {e : Expr} {rest : List Expr} {us : List V}
    (hq : (Code.expr e).Quiet k globals)
    (h : Evaluates k O P s (.exprs (e :: rest)) (.values us) s') :
    ∃ v vs, us = v :: vs ∧ Evaluates k O P s (.expr e) (.value (.data v)) s ∧
      Evaluates k O P s (.exprs rest) (.values vs) s' := by
  cases h with
  | exprsCons _ _ he hr =>
    obtain ⟨rfl, _, _⟩ := he.operand (Q := P) hq
    exact ⟨_, _, rfl, he, hr⟩

/-- The operand that decides does not return, nor do operands that are all evaluated. -/
theorem Evaluates.not_left {s s' : Store V} {e : Expr} {v : Value V}
    (hd : Direct k globals e.parts) (h : Evaluates k O P s (.exprs e.strict) (.returned v) s' ∨
      ∃ f, e.first? = some f ∧ Evaluates k O P s (.expr f) (.returned v) s') : False := by
  rcases h with h | ⟨f, hf, h⟩
  · exact (h.operand (Q := P) (Code.quiet_operands hd e.strict_subset)).2.1 v rfl
  · exact (h.operand (Q := P) (Code.quiet_operand hd (Expr.mem_operands_of_first? hf))).2.1 v rfl

end

end MiddleEnd
