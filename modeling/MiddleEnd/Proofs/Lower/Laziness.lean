/-
  When the right operand of `&&` and `||` is evaluated. The operator itself ends up in the text of
  a C expression, which is lazy; but statements that lowering the right operand adds stand behind
  those of the left operand and are executed whatever that comes to. So the operators are lazy
  exactly where lowering the right operand adds no statements, which can be seen from the operand
  (`silent`), or where the left operand decides nothing (`Session.lazy_rights`).
-/
import MiddleEnd.Proofs.C.Execution
import MiddleEnd.Proofs.Check.Pass
import MiddleEnd.Proofs.Lower.Places
import MiddleEnd.Proofs.Lower.Renderings
import MiddleEnd.Proofs.Syntax.Samples

namespace MiddleEnd

/-- The truth of the left operand that decides the result. -/
def LazyOp.decisive : LazyOp → Bool
  | .and => false
  | .or => true

namespace Lower

/-! ## Expressions that add no statements -/

mutual

/-- Whether lowering an expression adds no statements. -/
def silent (k : Checked) : Expr → Bool
  | .literal .. | .identifier .. => true
  | .call _ _ args => silentAll k args
  | .binary _ _ lhs rhs => silent k lhs && silent k rhs
  | .index _ base position => silent k base && silent k position
  | .array _ values => silentAll k values
  | .copies _ element _ => silent k element
  | .struct h _ fields =>
    let names := match (k.types.get? h.id.ir).bind Ty.struct? with
      | some (_, decls) => decls.toList.map (·.1)
      | none => []
    silentFields k (fields.map FieldInit.name == names) fields
  | .ret .. | .assign .. | .ifOnly .. | .ifElse .. | .ifElseIf .. | .block .. => false

def silentAll (k : Checked) : List Expr → Bool
  | [] => true
  | e :: rest => silent k e && silentAll k rest

def silentFields (k : Checked) (inOrder : Bool) : List FieldInit → Bool
  | [] => true
  | .mk _ _ value :: rest =>
    silent k value && (staysInPlace k inOrder value && silentFields k inOrder rest)

end

variable {k : Checked} {g : Setting} {B : C.BlockId → List C.Stmt}

/-- A job with operands adds statements unless the operands are silent. -/
def Job.Silent (k : Checked) (a : List C.Stmt) : Job → Prop
  | .expr e _ => a = [] ↔ silent k e = true
  | .exprs es _ => a = [] ↔ silentAll k es = true
  | .fields inOrder fs _ => a = [] ↔ silentFields k inOrder fs = true
  | _ => True

theorem append_silent {a b : List C.Stmt} {x y : Bool} (h : a = [] ↔ x = true)
    (h' : b = [] ↔ y = true) : a ++ b = [] ↔ (x && y) = true := by
  rw [List.append_eq_nil_iff, Bool.and_eq_true, h, h']

theorem append_loud {a b : List C.Stmt} (h : b ≠ []) : a ++ b = [] ↔ false = true :=
  ⟨fun hab => absurd (List.append_eq_nil_iff.1 hab).2 h, nofun⟩

/-- Keeping a value takes statements exactly where the value does not stay in place. -/
theorem keeps_silent {m m' : Slots} {t : Ty} {target : Option C.VarId} {v w : C.Expr}
    {d s : List C.Stmt} {inOrder : Bool} {value : Expr} (hs : (inOrder || isInert value) = false)
    (hty : k.types.get? value.ir = some t) (ht : Temporary g m t target d m')
    (hk : Keeps target v w s) : d ++ s = [] ↔ staysInPlace k inOrder value = true := by
  unfold staysInPlace
  rw [hs, Bool.false_or, hty, Option.any_some]
  cases ht with
  | none hu =>
    cases hk
    exact ⟨fun _ => hu, fun _ => rfl⟩
  | some name declared hu _ =>
    rw [hu]
    exact ⟨nofun, nofun⟩

theorem Emits.silent {m m' : Slots} {j : Job} {a : List C.Stmt} (h : Emits k g B m j a m') :
    j.Silent k a := by
  induction h with
  | literal | use | constant | exprsNil | fieldsNil => exact ⟨fun _ => rfl, fun _ => rfl⟩
  | retUnit => exact ⟨nofun, nofun⟩
  | ret | ifOnly | ifElseIf | block => exact append_loud (List.cons_ne_nil _ _)
  | assign => exact append_loud (List.append_ne_nil_of_right_ne_nil _ (List.cons_ne_nil _ _))
  | ifElse => exact append_loud (List.append_ne_nil_of_right_ne_nil _ (List.cons_ne_nil _ _))
  | call _ _ _ _ _ ih => exact ih
  | binary _ _ _ _ _ _ ih₁ ih₂ => exact append_silent ih₁ ih₂
  | index _ _ _ _ _ ih₁ ih₂ => exact append_silent ih₁ ih₂
  | array _ _ _ _ _ ih => exact ih
  | copies _ _ _ _ ih => exact ih
  | @struct _ _ _ r name decls _ _ a h path fields hty _ _ _ ih =>
    show a = [] ↔ silentFields k (fields.map FieldInit.name ==
      match (k.types.get? h.id.ir).bind Ty.struct? with
      | some (_, decls) => decls.toList.map (·.1)
      | none => []) fields = true
    rw [hty]
    exact ih
  | exprsCons _ _ _ _ ih₁ ih₂ => exact append_silent ih₁ ih₂
  | fieldsCons inOrder h name value rest hs _ _ ih₁ ih₂ =>
    refine append_silent ih₁ ?_
    unfold staysInPlace
    rw [hs, Bool.true_or, Bool.true_and]
    exact ih₂
  | fieldsKeep inOrder h name value rest hs _ hty ht hk _ ih₁ ih₂ =>
    refine append_silent ih₁ ?_
    rw [← List.append_assoc]
    exact append_silent (keeps_silent hs hty ht hk) ih₂
  | _ => trivial

/-! ## Lazy operators -/

section

variable {σ V : Type} (M : C.Machine σ V) (B : C.BlockId → List C.Stmt)

/-- The left operand, with these statements and this value, comes to the truth that decides. -/
def Decides (op : LazyOp) (a : List C.Stmt) (value : C.Expr) (s s' : σ) : Prop :=
  M.Runs B a s (.done s') ∧ ∃ v s₂, M.evaluates value s' v s₂ ∧ M.truth v = op.decisive

/-- Where the left operand decides, execution comes to no statement of the right operand. -/
def StaysLazy (op : LazyOp) (a : List C.Stmt) (value : C.Expr) (b : List C.Stmt) : Prop :=
  ∀ s s', Decides M B op a value s s' → ∀ x, ¬ M.Arrives B x b s'

end

/-- The statements of both operands stand behind one another, so those of the right operand are
executed unless there are none. -/
theorem staysLazy_iff {σ V : Type} {M : C.Machine σ V} {op : LazyOp} {a b : List C.Stmt}
    {value : C.Expr} :
    StaysLazy M B op a value b ↔ b = [] ∨ ∀ s s', ¬ Decides M B op a value s s' := by
  constructor
  · intro h
    cases b with
    | nil => exact .inl rfl
    | cons x rest => exact .inr fun s s' hd => h s s' hd x .here
  · rintro (rfl | h) s s' hd x hx
    · cases hx
    · exact h s s' hd

end Lower

namespace Session

/-- A function item of a program that was lowered, unless an earlier one has the same identity: for
each `&&` and `||` in its body, the statements of the right operand stand directly behind those of
the left operand. The operator stays lazy, however a machine evaluates, if and only if lowering the
right operand adds no statements or the left operand never decides. -/
theorem lazy_rights (s : Session) (target : String) {before after : List Item} {i : Item}
    {d : FunctionDecl} (hp : s.program.items = before ++ i :: after) (hi : i.kind = .function d)
    (hfirst : ∀ j ∈ before, ∀ e, j.kind = .function e → j.head.id.ir ≠ i.head.id.ir)
    (hlow : s.Lowers target) :
    ∃ f x block, (s.lower target).2.functions[i.head.id.ir]? = some f ∧
      (s.lower target).2.c.functions[f.index]? = some x ∧ x.body = some block ∧
      ∀ h op lhs rhs, .expr (.binary h (.lazy op) lhs rhs) ∈ d.body.parts →
        ∃ m m₁ m' lv rv a b,
          Lower.Emits s.checked (Lower.setting (s.lower target).2) (s.lower target).2.c.statements
            m (.expr lhs lv) a m₁ ∧
          Lower.Emits s.checked (Lower.setting (s.lower target).2) (s.lower target).2.c.statements
            m₁ (.expr rhs rv) b m' ∧
          Lower.Stands (s.lower target).2.c.statements (a ++ b)
            ((s.lower target).2.c.statements block) ∧
          ∀ {σ V : Type} (M : C.Machine σ V),
            Lower.StaysLazy M (s.lower target).2.c.statements op a lv b ↔
              Lower.silent s.checked rhs = true ∨
                ∀ p p', ¬ Lower.Decides M (s.lower target).2.c.statements op a lv p p' := by
  obtain ⟨f, vs, block, m, m', hlowered⟩ := hlow.lowered hp hi hfirst
  obtain ⟨x, hx, _, hbody⟩ := hlowered.body
  refine ⟨f, x, block, hlowered.function, hx, hbody, ?_⟩
  intro h op lhs rhs he
  obtain ⟨m, v, c, m', _, hemits, hstands⟩ := hlowered.placed _ he rfl
  cases hemits with
  | binary _ _ _ _ hl hr =>
    have hsilent := Lower.Emits.silent hr
    refine ⟨_, _, _, _, _, _, _, hl, hr, hstands, fun M => ?_⟩
    exact Lower.staysLazy_iff.trans (or_congr_left hsilent)

open Samples in
/-- In `fn f() { let x = 1; false && { x = 2; true }; }`, which is reported clean and lowered, the
statements of the block are executed although `false` decides, on every machine that takes `false`
for what it says. -/
theorem lazy_rights_deciding : (ofUnit deciding).Clean ∧
    (ofUnit deciding).check.2.Lowers "linux" ∧
    ∃ f x block a b,
      ((ofUnit deciding).check.2.lower "linux").2.functions[(head 1).id.ir]? = some f ∧
      ((ofUnit deciding).check.2.lower "linux").2.c.functions[f.index]? = some x ∧
      x.body = some block ∧
      Lower.Stands ((ofUnit deciding).check.2.lower "linux").2.c.statements (a ++ b)
        (((ofUnit deciding).check.2.lower "linux").2.c.statements block) ∧
      ∀ {σ V : Type} (M : C.Machine σ V) (p p' : σ) (v : V),
        M.evaluates (.bool false) p v p' → M.truth v = false →
          ¬ Lower.StaysLazy M ((ofUnit deciding).check.2.lower "linux").2.c.statements .and a
            (.bool false) b := by
  have hclean : (ofUnit deciding).Clean := by decide +kernel
  have hlow : (ofUnit deciding).check.2.Lowers "linux" := by decide +kernel
  refine ⟨hclean, hlow, ?_⟩
  have hp : (ofUnit deciding).check.2.program.items =
      [] ++ function 1 2 "f" none
        [bind 3 4 "x" (some (number 5 "1")), .expr decidedAnd] none :: [] := by
    rw [check_program]
    rfl
  obtain ⟨f, x, block, hf, hx, hb, hlazy⟩ := lazy_rights (ofUnit deciding).check.2 "linux" hp rfl
    (fun j hj => absurd hj List.not_mem_nil) hlow
  obtain ⟨m, m₁, m', lv, rv, a, b, hl, _, hstands, hiff⟩ := hlazy (head 7) .and _ _
    (List.mem_cons_of_mem _ (List.mem_cons_of_mem _ (List.mem_cons_of_mem _ (.head _))))
  cases hl with
  | literal _ _ hs =>
    cases hs with
    | int hk => cases hk
    | float hk => exact absurd rfl hk
    | bool _ hb' =>
      cases hb'
      refine ⟨f, x, block, _, b, hf, hx, hb, hstands, ?_⟩
      intro σ V M p p' v hv ht hstays
      rcases (hiff M).1 hstays with hsilent | hnever
      · exact absurd hsilent Bool.false_ne_true
      · exact hnever p p ⟨.nil, v, p', hv, ht⟩

end Session

end MiddleEnd
