/-
  How often calls are made. Evaluating a C expression makes each call in it once, or not at all
  where a lazy operator is decided before (`C.Expr.Makes`), and a path executes a statement of a
  body once or not at all. So on every path through the body of a function a call of the source is
  made at most as often as it is rendered (`Session.calls_repeated`).

  That is at most once for a call outside of the element of an array of copies and of the target of
  an assignment. The text of these two is used several times: the element once for each copy, and
  the target once more where the value of the assignment is used.
-/
import MiddleEnd.Proofs.C.Paths
import MiddleEnd.Proofs.Lower.Losses
import MiddleEnd.Proofs.Lower.Operands

namespace MiddleEnd

/-! ## Calls that an evaluation makes -/

namespace C

mutual

/-- Evaluating the expression makes these calls. The right operand of a lazy operator may be passed
over. -/
inductive Expr.Makes : Expr → Multiset Expr → Prop
  | call {f : FunctionId} {name : String} {args : List Expr} {made : Multiset Expr} :
    Expr.MakesAll args made → Expr.Makes (.call f name args) (.call f name args ::ₘ made)
  | decided {op : LazyOp} {lhs rhs : Expr} {made : Multiset Expr} :
    Expr.Makes lhs made → Expr.Makes (.binary (.lazy op) lhs rhs) made
  | operands {e : Expr} {made : Multiset Expr} :
    (∀ f name args, e ≠ .call f name args) → Expr.MakesAll e.operands made → Expr.Makes e made

/-- Evaluating the expressions one after the other makes these calls. -/
inductive Expr.MakesAll : List Expr → Multiset Expr → Prop
  | nil : Expr.MakesAll [] 0
  | cons {e : Expr} {rest : List Expr} {a b : Multiset Expr} :
    Expr.Makes e a → Expr.MakesAll rest b → Expr.MakesAll (e :: rest) (a + b)

end

theorem Expr.calls_eq_operands {e : Expr} (h : ∀ f name args, e ≠ .call f name args) :
    e.calls = Expr.callsAll e.operands := by
  cases e with
  | call f name args => exact absurd rfl (h f name args)
  | binary op lhs rhs => exact congrArg (lhs.calls + ·) (add_zero rhs.calls).symm
  | index base position => exact congrArg (base.calls + ·) (add_zero position.calls).symm
  | _ => rfl

mutual

/-- An evaluation makes no call more often than it stands in the expression. -/
theorem Expr.Makes.le {e : Expr} {made : Multiset Expr} : e.Makes made → made ≤ e.calls
  | .call h => Multiset.cons_le_cons _ h.le
  | .decided h => h.le.trans (Multiset.le_add_right _ _)
  | .operands hn h => Expr.calls_eq_operands hn ▸ h.le

theorem Expr.MakesAll.le {es : List Expr} {made : Multiset Expr} :
    Expr.MakesAll es made → made ≤ Expr.callsAll es
  | .nil => le_rfl
  | .cons h h' => add_le_add h.le h'.le

end

mutual

/-- An evaluation that passes over nothing makes every call. -/
theorem Expr.makes_calls : ∀ e : Expr, e.Makes e.calls
  | .call _ _ args => .call (Expr.makesAll_callsAll args)
  | .binary op lhs rhs => by
    rw [Expr.calls_eq_operands (e := .binary op lhs rhs) nofun]
    exact .operands nofun (.cons (Expr.makes_calls lhs) (.cons (Expr.makes_calls rhs) .nil))
  | .index base position => by
    rw [Expr.calls_eq_operands (e := .index base position) nofun]
    exact .operands nofun (.cons (Expr.makes_calls base) (.cons (Expr.makes_calls position) .nil))
  | .array _ values => .operands nofun (Expr.makesAll_callsAll values)
  | .struct _ values => .operands nofun (Expr.makesAll_callsAll values)
  | .verbatim _ | .int _ _ | .float _ _ | .bool _ | .unit | .constant _ | .var _ _ =>
    .operands nofun .nil

theorem Expr.makesAll_callsAll : ∀ es : List Expr, Expr.MakesAll es (Expr.callsAll es)
  | [] => .nil
  | e :: rest => .cons (Expr.makes_calls e) (Expr.makesAll_callsAll rest)

end

/-! ## Calls made on a path -/

/-- The expressions that a statement evaluates itself, not in its blocks. -/
def Stmt.evaluates : Stmt → List Expr
  | .expr e => [e]
  | .declare _ _ _ init => init.toList
  | .assign target value => [target, value]
  | .ret value => value.toList
  | .block _ => []
  | .branch condition _ _ => [condition]

theorem Expr.callsAll_append (es fs : List Expr) :
    Expr.callsAll (es ++ fs) = Expr.callsAll es + Expr.callsAll fs := by
  induction es with
  | nil => exact (zero_add _).symm
  | cons e rest ih => rw [List.cons_append, Expr.callsAll, Expr.callsAll, ih, add_assoc]

theorem Stmt.callsAll_evaluates (s : Stmt) : Expr.callsAll s.evaluates = s.calls := by
  cases s with
  | declare _ _ _ init => cases init <;> simp [evaluates, Expr.callsAll, Stmt.calls]
  | ret value => cases value <;> simp [evaluates, Expr.callsAll, Stmt.calls]
  | _ => simp [evaluates, Expr.callsAll, Stmt.calls]

theorem Stmt.callsAll_flatMap (ss : List Stmt) :
    Expr.callsAll (ss.flatMap Stmt.evaluates) = Stmt.callsAll ss := by
  induction ss with
  | nil => rfl
  | cons s rest ih =>
    rw [List.flatMap_cons, Expr.callsAll_append, ih, Stmt.callsAll_evaluates, Stmt.callsAll_cons]

theorem Stmt.callsAll_mono {ss ts : List Stmt} (h : ss.Sublist ts) :
    Stmt.callsAll ss ≤ Stmt.callsAll ts := by
  induction h with
  | slnil => exact le_rfl
  | cons s _ ih =>
    rw [Stmt.callsAll_cons]
    exact ih.trans (Multiset.le_add_left _ _)
  | cons_cons s _ ih =>
    rw [Stmt.callsAll_cons, Stmt.callsAll_cons]
    exact add_le_add le_rfl ih

end C

namespace Lower

variable {B : C.BlockId → List C.Stmt}

theorem Nested.split {a b all : List C.Stmt} (h : Nested B (a ++ b) all) :
    ∃ x y, all = x ++ y ∧ Nested B a x ∧ Nested B b y := by
  induction a generalizing all with
  | nil => exact ⟨[], all, rfl, .nil, h⟩
  | cons s rest ih =>
    cases h with
    | cons hi h =>
      obtain ⟨x, y, rfl, hx, hy⟩ := ih h
      exact ⟨s :: (_ ++ x), y, by rw [List.cons_append, List.append_assoc], .cons hi hx, hy⟩

/-- The statements that a statement may go on with stand in its blocks. -/
theorem Nested.ways {x : C.Stmt} {inner all : List C.Stmt} (hw : C.Ways B x inner)
    (h : Nested B (x.blocks.flatMap B) all) :
    ∃ within, Nested B inner within ∧ within.Sublist all := by
  cases hw with
  | block b =>
    rw [C.Stmt.blocks, List.flatMap_singleton] at h
    exact ⟨all, h, .refl all⟩
  | taken c b d =>
    cases d with
    | none =>
      rw [C.Stmt.blocks, List.flatMap_singleton] at h
      exact ⟨all, h, .refl all⟩
    | some d =>
      rw [C.Stmt.blocks, List.flatMap_cons] at h
      obtain ⟨y, z, rfl, hy, -⟩ := h.split
      exact ⟨y, hy, List.sublist_append_left y z⟩
  | other c b d =>
    rw [C.Stmt.blocks, List.flatMap_cons, List.flatMap_singleton] at h
    obtain ⟨y, z, rfl, -, hz⟩ := h.split
    exact ⟨z, hz, List.sublist_append_right y z⟩
  | skipped c b => exact ⟨[], .nil, List.nil_sublist all⟩

/-- A path executes every statement once at most. -/
theorem sublist_of_path {ss t : List C.Stmt} {e : C.Ending} (h : C.Path B ss t e) :
    ∀ {all : List C.Stmt}, Nested B ss all → t.Sublist all := by
  induction h with
  | nil | stop => exact fun _ => List.nil_sublist _
  | plain _ _ ih =>
    intro all hn
    cases hn with
    | cons _ hrest => exact ((ih hrest).trans (List.sublist_append_right _ _)).cons_cons _
  | ret =>
    intro all hn
    cases hn with
    | cons _ _ => exact (List.nil_sublist _).cons_cons _
  | inside hw _ _ ihi ih =>
    intro all hn
    cases hn with
    | cons hi hrest =>
      obtain ⟨within, hwithin, hsub⟩ := hi.ways hw
      exact (((ihi hwithin).trans hsub).append (ih hrest)).cons_cons _
  | leave _ hw _ _ ih =>
    intro all hn
    cases hn with
    | cons hi _ =>
      obtain ⟨within, hwithin, hsub⟩ := hi.ways hw
      exact (((ih hwithin).trans hsub).trans (List.sublist_append_left _ _)).cons_cons _

/-- Through plain statements there is a path that executes all of them. -/
theorem path_of_plain {ss : List C.Stmt} (h : ss.all C.Stmt.isPlain = true) :
    C.Path B ss ss .through := by
  induction ss with
  | nil => exact .nil
  | cons x rest ih =>
    rw [List.all_cons, Bool.and_eq_true] at h
    exact .plain h.1 (ih h.2)

/-! ## Calls that are rendered several times -/

/-- The call stands where the text of an expression is used several times: in the element of an
array of several copies, or in the target of an assignment. -/
def Repeated (ps : List Part) (c : Expr) : Prop :=
  (∃ h element count, .expr (.copies h element count) ∈ ps ∧ 2 ≤ count.toNat ∧
    c ∈ Part.calls element.parts) ∨
  ∃ h target value, .expr (.assign h target value) ∈ ps ∧ c ∈ Part.calls target.parts

/-- A call is rendered once at most, unless it is one of those. -/
def Sparing (rs : List (Expr × Nat)) (ps : List Part) : Prop := ∀ r ∈ rs, r.2 ≤ 1 ∨ Repeated ps r.1

variable {k : Checked} {rs rs' : List (Expr × Nat)} {ps qs : List Part}

theorem Repeated.mono {c : Expr} (h : Repeated ps c) (hsub : ps ⊆ qs) : Repeated qs c :=
  h.imp (fun ⟨h, element, count, hm, hrest⟩ => ⟨h, element, count, hsub hm, hrest⟩)
    fun ⟨h, target, value, hm, hc⟩ => ⟨h, target, value, hsub hm, hc⟩

theorem Sparing.mono (h : Sparing rs ps) (hsub : ps ⊆ qs) : Sparing rs qs :=
  fun r hr => (h r hr).imp_right fun hc => hc.mono hsub

theorem Sparing.append (h : Sparing rs ps) (h' : Sparing rs' qs) : Sparing (rs ++ rs') (ps ++ qs) :=
  List.forall_mem_append.2 ⟨h.mono (List.subset_append_left ..),
    h'.mono (List.subset_append_right ..)⟩

theorem Sparing.within {p : Part} (h : Sparing rs ps) : Sparing rs (p :: ps) :=
  h.mono (List.subset_cons_self ..)

theorem sparing_nil (ps : List Part) : Sparing [] ps := fun _ hr => absurd hr List.not_mem_nil

theorem uses_le (k : Checked) (id : IrId) : uses k id ≤ 1 := by
  unfold uses
  split <;> omega

theorem effectUses_le (e : Expr) : effectUses e ≤ 1 := by
  unfold effectUses
  split <;> omega

/-- The renderings of an expression whose value is used once at most, by itself and as a branch. -/
def SparingAll (k : Checked) (e : Expr) : Prop :=
  (∀ n ≤ 1, Sparing (renderings k n e) e.parts) ∧ ∀ n ≤ 1, Sparing (branchRenderings k n e) e.parts

theorem sparingAll_of_expr {e : Expr} (hb : ∀ h ss tail, e ≠ .block h ss tail)
    (h : ∀ n ≤ 1, Sparing (renderings k n e) e.parts) : SparingAll k e := by
  have heffect := h (effectUses e) (effectUses_le e)
  refine ⟨h, fun n _ => ?_⟩
  cases e with
  | block g ss tail => exact absurd rfl (hb g ss tail)
  | _ => exact heffect

/-- A call that is listed for an expression is a call in it. -/
theorem mem_calls_of_renderings {n : Nat} {e : Expr} {r : Expr × Nat} (h : r ∈ renderings k n e) :
    r.1 ∈ Part.calls e.parts := by
  have hlists : (renderings k n e).map Prod.fst = Part.calls e.parts := (listsAll k e).1 n
  exact hlists ▸ List.mem_map_of_mem h

mutual

theorem sparingAll (k : Checked) : ∀ e : Expr, SparingAll k e
  | .literal .. => sparingAll_of_expr nofun fun _ _ => sparing_nil _
  | .identifier .. => sparingAll_of_expr nofun fun _ _ => sparing_nil _
  | .ret _ none => sparingAll_of_expr nofun fun _ _ => sparing_nil _
  | .ret _ (some value) => sparingAll_of_expr nofun fun _ _ =>
    ((sparingAll k value).1 1 le_rfl).within
  | .call h f args => sparingAll_of_expr nofun fun n hn =>
    List.forall_mem_cons.2 ⟨.inl hn, (sparing_exprs k n hn args).within.within⟩
  | .assign h target value => sparingAll_of_expr nofun fun n _ => by
    have htarget : Sparing (renderings k (n + 1) target) (Expr.assign h target value).parts :=
      fun r hr => .inr (.inr ⟨h, target, value, List.mem_cons_self, mem_calls_of_renderings hr⟩)
    have hvalue := ((sparingAll k value).1 1 le_rfl).mono (List.subset_append_right target.parts _)
    exact List.forall_mem_append.2 ⟨htarget, hvalue.within⟩
  | .binary _ _ lhs rhs => sparingAll_of_expr nofun fun n hn =>
    (((sparingAll k lhs).1 n hn).append ((sparingAll k rhs).1 n hn)).within
  | .ifOnly h condition body => sparingAll_of_expr nofun fun n _ => by
    rw [renderings_ifOnly]
    exact (((sparingAll k condition).1 1 le_rfl).append ((sparingAll k body).2 0 zero_le_one)).within
  | .ifElse h condition thenBody elseBody => sparingAll_of_expr nofun fun n _ => by
    have huses := uses_le k h.id.ir
    rw [renderings_ifElse]
    exact (((sparingAll k condition).1 1 le_rfl).append
      (((sparingAll k thenBody).2 _ huses).append ((sparingAll k elseBody).2 _ huses))).within
  | .ifElseIf h condition thenBody elseIf => sparingAll_of_expr nofun fun n _ => by
    rw [renderings_ifElseIf]
    exact (((sparingAll k condition).1 1 le_rfl).append
      (((sparingAll k thenBody).2 0 zero_le_one).append ((sparingAll k elseIf).2 0 zero_le_one))).within
  | .block h ss none => by
    have hinner : ∀ n, Sparing (branchRenderings k n (.block h ss none))
        (Expr.block h ss none).parts := fun n =>
      Sparing.within (List.forall_mem_append.2 ⟨sparing_stmts k ss, sparing_nil _⟩)
    exact ⟨fun _ _ => hinner _, fun n _ => hinner n⟩
  | .block h ss (some e) => by
    have hinner : ∀ n ≤ 1, Sparing (branchRenderings k n (.block h ss (some e)))
        (Expr.block h ss (some e)).parts := by
      intro n hn
      refine ((sparing_stmts k ss).append ((sparingAll k e).1 _ ?_)).within
      split
      · exact hn
      · exact effectUses_le e
    exact ⟨fun _ _ => hinner _ (uses_le k h.id.ir), hinner⟩
  | .index _ base position => sparingAll_of_expr nofun fun n hn =>
    (((sparingAll k base).1 n hn).append ((sparingAll k position).1 n hn)).within
  | .array _ values => sparingAll_of_expr nofun fun n hn => (sparing_exprs k n hn values).within
  | .copies h element count => sparingAll_of_expr nofun fun n hn => by
    by_cases hcount : 2 ≤ count.toNat
    · exact fun r hr => .inr (.inl ⟨h, element, count, List.mem_cons_self, hcount,
        mem_calls_of_renderings hr⟩)
    · have hle : n * count.toNat ≤ 1 := Nat.mul_le_mul hn (by omega : count.toNat ≤ 1)
      exact ((sparingAll k element).1 _ hle).within
  | .struct h path fields => sparingAll_of_expr nofun fun n hn =>
    (sparing_fields k _ n hn _ fields).within.within

theorem sparing_exprs (k : Checked) (n : Nat) (hn : n ≤ 1) :
    ∀ es : List Expr, Sparing (renderingsAll k n es) (Expr.partsAll es)
  | [] => sparing_nil _
  | e :: rest => ((sparingAll k e).1 n hn).append (sparing_exprs k n hn rest)

theorem sparing_fields (k : Checked) (inOrder : Bool) (n : Nat) (hn : n ≤ 1) (names : List String) :
    ∀ fs : List FieldInit, Sparing (fieldRenderings k inOrder n names fs) (FieldInit.partsAll fs)
  | [] => sparing_nil _
  | .mk _ name value :: rest => by
    refine (((sparingAll k value).1 _ ?_).append (sparing_fields k inOrder n hn names rest)).within
    split
    · split <;> omega
    · exact le_rfl

theorem sparing_stmt (k : Checked) : ∀ st : Stmt, Sparing (stmtRenderings k st) st.parts
  | .expr e => (sparingAll k e).1 _ (effectUses_le e)
  | .bind h pattern ascribed none => sparing_nil _
  | .bind h pattern ascribed (some init) => by
    have hinit : Sparing (stmtRenderings k (.bind h pattern ascribed (some init))) init.parts := by
      refine (sparingAll k init).1 _ ?_
      split
      · exact effectUses_le init
      · exact le_rfl
    exact (hinit.mono (List.subset_append_right _ _)).within

theorem sparing_stmts (k : Checked) :
    ∀ sts : List Stmt, Sparing (stmtRenderingsAll k sts) (Stmt.partsAll sts)
  | [] => sparing_nil _
  | st :: rest => (sparing_stmt k st).append (sparing_stmts k rest)

end

/-- Where every call is listed with 1 at most, there are no more than those of the body. -/
theorem expand_le (h : ∀ r ∈ rs, r.2 ≤ 1) : expand rs ≤ (rs.map Prod.fst : Multiset Expr) := by
  induction rs with
  | nil => exact le_rfl
  | cons r rest ih =>
    obtain ⟨hr, hrest⟩ := List.forall_mem_cons.1 h
    rw [expand_cons, List.map_cons, ← Multiset.cons_coe, ← Multiset.singleton_add]
    refine add_le_add ?_ (ih hrest)
    obtain hzero | hone := Nat.le_one_iff_eq_zero_or_eq_one.1 hr
    · rw [hzero, zero_nsmul]
      exact Multiset.zero_le _
    · rw [hone, one_nsmul]

/-- Multisets that are related have related parts. -/
theorem rel_of_le {α β : Type} {R : α → β → Prop} {s : Multiset α} {t u : Multiset β}
    (h : Multiset.Rel R s t) (hu : u ≤ t) : ∃ r ≤ s, Multiset.Rel R r u := by
  obtain ⟨v, rfl⟩ := Multiset.le_iff_exists_add.1 hu
  obtain ⟨r, w, hr, -, rfl⟩ := Multiset.rel_add_right.1 h
  exact ⟨r, Multiset.le_add_right r w, hr⟩

end Lower

namespace Session

/-- How often calls are made. A function item of a program that was lowered, unless an earlier one
has the same identity, has a function of the C program with a body. Take any path through the body,
and calls that evaluating the statements on it makes: they come from calls of the source, each made
at most as often as it is listed. It is listed once at most if it stands neither in the element of an
array of several copies nor in the target of an assignment; where that holds of all calls, no call
of the source is made more than once. -/
theorem calls_repeated (s : Session) (target : String) {before after : List Item} {i : Item}
    {d : FunctionDecl} (hp : s.program.items = before ++ i :: after) (hi : i.kind = .function d)
    (hfirst : ∀ j ∈ before, ∀ e, j.kind = .function e → j.head.id.ir ≠ i.head.id.ir)
    (hok : s.Lowers target) :
    ∃ f x b rs, (s.lower target).2.functions[i.head.id.ir]? = some f ∧
      (s.lower target).2.c.functions[f.index]? = some x ∧ x.body = some b ∧
      rs = Lower.branchRenderings s.checked 1 d.body ∧
      rs.map Prod.fst = Part.calls d.body.parts ∧
      (∀ r ∈ rs, r.2 ≤ 1 ∨ Lower.Repeated d.body.parts r.1) ∧
      ∀ t e made, C.Path (s.lower target).2.c.statements ((s.lower target).2.c.statements b) t e →
        C.Expr.MakesAll (t.flatMap C.Stmt.evaluates) made →
        ∃ calls, Multiset.Rel (Lower.Renders s.checked (Lower.setting (s.lower target).2)
            (s.lower target).2.c.statements) calls made ∧
          calls ≤ Lower.expand rs ∧
          ((∀ c ∈ Part.calls d.body.parts, ¬ Lower.Repeated d.body.parts c) →
            calls ≤ (Part.calls d.body.parts : Multiset Expr)) := by
  obtain ⟨f, vs, block, m, m', h⟩ := hok.lowered hp hi hfirst
  obtain ⟨x, b, all, hx, hb, hnested, hrel⟩ := h.rendersCalls.calls
  have hlists : (Lower.branchRenderings s.checked 1 d.body).map Prod.fst = Part.calls d.body.parts :=
    (Lower.listsAll s.checked d.body).2 1
  have hsparing := (Lower.sparingAll s.checked d.body).2 1 le_rfl
  refine ⟨f, x, b, _, h.function, hx, hb, rfl, hlists, hsparing, ?_⟩
  intro t e made hpath hmade
  have hle : made ≤ C.Stmt.callsAll all := by
    calc made ≤ C.Expr.callsAll (t.flatMap C.Stmt.evaluates) := hmade.le
      _ = C.Stmt.callsAll t := C.Stmt.callsAll_flatMap t
      _ ≤ C.Stmt.callsAll all := C.Stmt.callsAll_mono (Lower.sublist_of_path hpath hnested)
  obtain ⟨calls, hcalls, hmatched⟩ := Lower.rel_of_le hrel hle
  refine ⟨calls, hmatched, hcalls, fun hnone => ?_⟩
  rw [← hlists] at hnone ⊢
  refine hcalls.trans (Lower.expand_le fun r hr => ?_)
  exact (hsparing r hr).resolve_right (hnone _ (List.mem_map_of_mem hr))

open Samples in
/-- In `fn f() -> i32 { 1 }  fn g() { let a = [f(); 2]; }`, which is reported clean and lowered, the
body of `g` has one call, and there is a path on which two calls are made. -/
theorem calls_repeated_copying : (ofUnit copying).Clean ∧
    (ofUnit copying).check.2.Lowers "linux" ∧
    (Part.calls copyingBody.parts).length = 1 ∧
    ∃ f x b t e made calls,
      ((ofUnit copying).check.2.lower "linux").2.functions[(head 5).id.ir]? = some f ∧
      ((ofUnit copying).check.2.lower "linux").2.c.functions[f.index]? = some x ∧
      x.body = some b ∧
      C.Path ((ofUnit copying).check.2.lower "linux").2.c.statements
        (((ofUnit copying).check.2.lower "linux").2.c.statements b) t e ∧
      C.Expr.MakesAll (t.flatMap C.Stmt.evaluates) made ∧
      Multiset.Rel (Lower.Renders (ofUnit copying).check.2.checked
        (Lower.setting ((ofUnit copying).check.2.lower "linux").2)
        ((ofUnit copying).check.2.lower "linux").2.c.statements) calls made ∧
      calls.card = 2 := by
  have hclean : (ofUnit copying).Clean := by decide +kernel
  have hok : (ofUnit copying).check.2.Lowers "linux" := by decide +kernel
  have hp : (ofUnit copying).check.2.program.items =
      [function 1 2 "f" (some (.path (head 3) "i32")) [] (some (number 4 "1"))] ++
        ⟨head 5, .function ⟨"g", [], none, copyingBody⟩⟩ :: [] := by
    rw [check_program]
    rfl
  have hfirst : ∀ j ∈ [function 1 2 "f" (some (.path (head 3) "i32")) [] (some (number 4 "1"))],
      ∀ e, j.kind = .function e → j.head.id.ir ≠ (head 5).id.ir := by
    intro j hj _ _
    rw [List.mem_singleton.1 hj]
    decide
  obtain ⟨f, x, b, rs, hf, hx, hb, -, -, -, hmade⟩ := calls_repeated (ofUnit copying).check.2 "linux"
    hp rfl hfirst hok
  -- the body is one declaration, with two calls in its initial value
  have hbody : (((ofUnit copying).check.2.lower "linux").2.functions[(head 5).id.ir]?.bind fun f =>
      (((ofUnit copying).check.2.lower "linux").2.c.functions[f.index]?).bind fun x =>
        x.body.map fun b =>
          ((((ofUnit copying).check.2.lower "linux").2.c.statements b).all C.Stmt.isPlain,
            (C.Stmt.callsAll (((ofUnit copying).check.2.lower "linux").2.c.statements b)).card)) =
      some (true, 2) := by
    decide +kernel
  rw [hf, Option.bind_some, hx, Option.bind_some, hb, Option.map_some, Option.some.injEq,
    Prod.mk.injEq] at hbody
  have hpath := Lower.path_of_plain (B := ((ofUnit copying).check.2.lower "linux").2.c.statements)
    hbody.1
  have hall := C.Expr.makesAll_callsAll
    ((((ofUnit copying).check.2.lower "linux").2.c.statements b).flatMap C.Stmt.evaluates)
  obtain ⟨calls, hrel, -, -⟩ := hmade _ _ _ hpath hall
  refine ⟨hclean, hok, rfl, f, x, b, _, _, _, calls, hf, hx, hb, hpath, hall, hrel, ?_⟩
  rw [Multiset.card_eq_card_of_rel hrel, C.Stmt.callsAll_flatMap]
  exact hbody.2

end Session

end MiddleEnd
