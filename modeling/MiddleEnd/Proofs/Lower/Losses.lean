/-
  The calls that lowering keeps and those that it loses. The text of a function that was lowered
  has exactly the calls of its body, each as often as `renderings` lists it (`calls_rendered`): a
  call that is listed with 0 is lost.

  Lowering means to lose none: the last expression of a function whose result is not kept becomes a
  statement. The block of a branch does not do the same, so in `if c { f() }` the call is lost.
-/
import MiddleEnd.Proofs.C.Lines
import MiddleEnd.Proofs.Check.Pass
import MiddleEnd.Proofs.Lower.Whole
import MiddleEnd.Proofs.Syntax.Samples

namespace MiddleEnd

namespace Lower

variable {k : Checked} {l : Lowering}

/-! ## Where calls are lost -/

/-- Whether the block of a branch ends in a value. -/
def endsInValue (k : Checked) : Expr → Bool
  | .block _ _ (some tail) => isValued k tail
  | _ => false

/-- Whether the last field of a list is followed by none of its name, and so on for all of them,
and all are declared. -/
def allTaken (names : List String) : List FieldInit → Bool
  | [] => true
  | .mk _ name _ :: rest =>
    isTaken names name (rest.map FieldInit.name) && allTaken names rest

/-- Whether an expression drops a value: that of a branch, of all copies or of a field. -/
def drops (k : Checked) : Expr → Bool
  | .ifOnly _ _ body => endsInValue k body
  | .ifElse h _ thenBody elseBody =>
    uses k h.id.ir == 0 && (endsInValue k thenBody || endsInValue k elseBody)
  | .ifElseIf _ _ thenBody elseIf => endsInValue k thenBody || endsInValue k elseIf
  | .block h ss tail => uses k h.id.ir == 0 && endsInValue k (.block h ss tail)
  | .copies _ _ count => count.toNat == 0
  | .struct h _ fields => match (k.types.get? h.id.ir).bind Ty.struct? with
    | some (_, decls) => !allTaken (decls.toList.map (·.1)) fields
    | none => true
  | _ => false

/-- No expression among the parts drops a value. -/
def Thrifty (k : Checked) (ps : List Part) : Prop := ∀ e, .expr e ∈ ps → drops k e = false

/-- Every call of a list of renderings is rendered. -/
def AllRendered (rs : List (Expr × Nat)) : Prop := ∀ r ∈ rs, r.2 ≠ 0

theorem AllRendered.append {rs rs' : List (Expr × Nat)} (h : AllRendered rs)
    (h' : AllRendered rs') : AllRendered (rs ++ rs') :=
  List.forall_mem_append.2 ⟨h, h'⟩

theorem Thrifty.left {ps qs : List Part} (h : Thrifty k (ps ++ qs)) : Thrifty k ps :=
  fun e he => h e (List.mem_append_left _ he)

theorem Thrifty.right {ps qs : List Part} (h : Thrifty k (ps ++ qs)) : Thrifty k qs :=
  fun e he => h e (List.mem_append_right _ he)

theorem Thrifty.tail {p : Part} {ps : List Part} (h : Thrifty k (p :: ps)) : Thrifty k ps :=
  fun e he => h e (List.mem_cons_of_mem _ he)

/-- What holds of an expression in which no value is dropped: its calls are rendered if its value is
used, if it is evaluated for its effects, and if it is a branch that leaves no value unused. -/
structure KeepsCalls (k : Checked) (e : Expr) : Prop where
  used : ∀ n, n ≠ 0 → AllRendered (renderings k n e)
  effect : AllRendered (renderings k (effectUses e) e)
  branch : ∀ n, n ≠ 0 ∨ endsInValue k e = false → AllRendered (branchRenderings k n e)

theorem keepsCalls_of_effect {e : Expr} (hb : ∀ h ss tail, e ≠ .block h ss tail)
    (h : ∀ n, n ≠ 0 → AllRendered (renderings k n e))
    (he : AllRendered (renderings k (effectUses e) e)) : KeepsCalls k e := by
  refine ⟨h, he, fun n _ => ?_⟩
  cases e with
  | block g ss tail => exact absurd rfl (hb g ss tail)
  | _ => exact he

/-- An expression that is a statement of its own when it is evaluated for its effects. -/
theorem keepsCalls_of_value {e : Expr} (hb : ∀ h ss tail, e ≠ .block h ss tail)
    (ha : addsItself e = false) (h : ∀ n, n ≠ 0 → AllRendered (renderings k n e)) :
    KeepsCalls k e := by
  refine keepsCalls_of_effect hb h (h _ ?_)
  unfold effectUses
  rw [ha]
  exact Nat.one_ne_zero

/-- An expression whose calls are rendered even where its value is not used. -/
theorem keepsCalls_of_any {e : Expr} (hb : ∀ h ss tail, e ≠ .block h ss tail)
    (h : ∀ n, AllRendered (renderings k n e)) : KeepsCalls k e :=
  keepsCalls_of_effect hb (fun n _ => h n) (h _)

theorem allRendered_nil : AllRendered [] := fun _ hr => absurd hr List.not_mem_nil

mutual

theorem keepsCalls (k : Checked) : ∀ e : Expr, Thrifty k e.parts → KeepsCalls k e
  | .literal .., _ => keepsCalls_of_value nofun rfl fun _ _ => allRendered_nil
  | .identifier .., _ => keepsCalls_of_value nofun rfl fun _ _ => allRendered_nil
  | .ret _ none, _ => keepsCalls_of_any nofun fun _ => allRendered_nil
  | .ret _ (some value), ht => keepsCalls_of_any nofun fun _ =>
    (keepsCalls k value ht.tail).used 1 Nat.one_ne_zero
  | .call h f args, ht => keepsCalls_of_value nofun rfl fun n hn =>
    List.forall_mem_cons.2 ⟨hn, keepsCalls_exprs k args ht.tail.tail n hn⟩
  | .assign _ target value, ht => keepsCalls_of_any nofun fun n =>
    ((keepsCalls k target ht.tail.left).used (n + 1) (Nat.succ_ne_zero n)).append
      ((keepsCalls k value ht.tail.right).used 1 Nat.one_ne_zero)
  | .binary _ _ lhs rhs, ht => keepsCalls_of_value nofun rfl fun n hn =>
    ((keepsCalls k lhs ht.tail.left).used n hn).append ((keepsCalls k rhs ht.tail.right).used n hn)
  | .ifOnly h condition body, ht => keepsCalls_of_any nofun fun n => by
    have hself : endsInValue k body = false := ht _ (List.mem_cons_self ..)
    rw [renderings_ifOnly]
    exact ((keepsCalls k condition ht.tail.left).used 1 Nat.one_ne_zero).append
      ((keepsCalls k body ht.tail.right).branch 0 (.inr hself))
  | .ifElse h condition thenBody elseBody, ht => keepsCalls_of_any nofun fun n => by
    have hself : (uses k h.id.ir == 0 && (endsInValue k thenBody || endsInValue k elseBody)) = false :=
      ht _ (List.mem_cons_self ..)
    rw [Bool.and_eq_false_iff, beq_eq_false_iff_ne, Bool.or_eq_false_iff] at hself
    rw [renderings_ifElse]
    exact ((keepsCalls k condition ht.tail.left).used 1 Nat.one_ne_zero).append
      (((keepsCalls k thenBody ht.tail.right.left).branch _ (hself.imp_right (·.1))).append
        ((keepsCalls k elseBody ht.tail.right.right).branch _ (hself.imp_right (·.2))))
  | .ifElseIf h condition thenBody elseIf, ht => keepsCalls_of_any nofun fun n => by
    have hself : (endsInValue k thenBody || endsInValue k elseIf) = false :=
      ht _ (List.mem_cons_self ..)
    rw [Bool.or_eq_false_iff] at hself
    rw [renderings_ifElseIf]
    exact ((keepsCalls k condition ht.tail.left).used 1 Nat.one_ne_zero).append
      (((keepsCalls k thenBody ht.tail.right.left).branch 0 (.inr hself.1)).append
        ((keepsCalls k elseIf ht.tail.right.right).branch 0 (.inr hself.2)))
  | .block h ss none, ht => by
    have hinner : ∀ n, AllRendered (branchRenderings k n (.block h ss none)) := fun n =>
      (keepsCalls_stmts k ss ht.tail).append allRendered_nil
    exact ⟨fun _ _ => hinner _, hinner _, fun n _ => hinner n⟩
  | .block h ss (some tail), ht => by
    have htail := keepsCalls k tail ht.tail.right
    have hself : (uses k h.id.ir == 0 && isValued k tail) = false := ht _ (List.mem_cons_self ..)
    rw [Bool.and_eq_false_iff, beq_eq_false_iff_ne] at hself
    have hinner : ∀ n, n ≠ 0 ∨ isValued k tail = false →
        AllRendered (branchRenderings k n (.block h ss (some tail))) := by
      intro n hn
      refine (keepsCalls_stmts k ss ht.tail.left).append ?_
      rw [tailRenderings]
      cases hv : isValued k tail with
      | true =>
        rw [hv] at hn
        exact htail.used n (hn.resolve_right nofun)
      | false => exact htail.effect
    exact ⟨fun _ _ => hinner _ hself, hinner _ hself, hinner⟩
  | .index _ base position, ht => keepsCalls_of_value nofun rfl fun n hn =>
    ((keepsCalls k base ht.tail.left).used n hn).append
      ((keepsCalls k position ht.tail.right).used n hn)
  | .array _ values, ht => keepsCalls_of_value nofun rfl fun n hn =>
    keepsCalls_exprs k values ht.tail n hn
  | .copies h element count, ht => keepsCalls_of_value nofun rfl fun n hn => by
    have hself : (count.toNat == 0) = false := ht _ (List.mem_cons_self ..)
    exact (keepsCalls k element ht.tail).used _ (Nat.mul_ne_zero hn (beq_eq_false_iff_ne.1 hself))
  | .struct h path fields, ht => keepsCalls_of_value nofun rfl fun n hn => by
    have hself : (match (k.types.get? h.id.ir).bind Ty.struct? with
      | some (_, decls) => !allTaken (decls.toList.map (·.1)) fields
      | none => true) = false := ht _ (List.mem_cons_self ..)
    show AllRendered (fieldRenderings k _ n (match (k.types.get? h.id.ir).bind Ty.struct? with
      | some (_, decls) => decls.toList.map (·.1)
      | none => []) fields)
    cases hs : (k.types.get? h.id.ir).bind Ty.struct? with
    | none =>
      rw [hs] at hself
      cases hself
    | some found =>
      rw [hs] at hself
      exact keepsCalls_fields k _ _ fields ht.tail.tail (by simpa using hself) n hn

theorem keepsCalls_exprs (k : Checked) : ∀ es : List Expr, Thrifty k (Expr.partsAll es) →
    ∀ n, n ≠ 0 → AllRendered (renderingsAll k n es)
  | [], _, _, _ => allRendered_nil
  | e :: rest, ht, n, hn =>
    ((keepsCalls k e ht.left).used n hn).append (keepsCalls_exprs k rest ht.right n hn)

theorem keepsCalls_fields (k : Checked) (inOrder : Bool) (names : List String) :
    ∀ fs : List FieldInit, Thrifty k (FieldInit.partsAll fs) → allTaken names fs = true →
      ∀ n, n ≠ 0 → AllRendered (fieldRenderings k inOrder n names fs)
  | [], _, _, _, _ => allRendered_nil
  | .mk _ name value :: rest, ht, ha, n, hn => by
    rw [allTaken, Bool.and_eq_true] at ha
    refine AllRendered.append ((keepsCalls k value ht.tail.left).used _ ?_)
      (keepsCalls_fields k inOrder names rest ht.tail.right ha.2 n hn)
    rw [ha.1]
    split
    · exact hn
    · exact Nat.one_ne_zero

theorem keepsCalls_stmt (k : Checked) :
    ∀ st : Stmt, Thrifty k st.parts → AllRendered (stmtRenderings k st)
  | .expr e, ht => (keepsCalls k e ht).effect
  | .bind _ _ _ none, _ => allRendered_nil
  | .bind h _ ascribed (some init), ht => by
    have hinit := keepsCalls k init ht.tail.right
    rw [stmtRenderings]
    cases isNothing k h.id.ir with
    | true => exact hinit.effect
    | false => exact hinit.used 1 Nat.one_ne_zero

theorem keepsCalls_stmts (k : Checked) :
    ∀ sts : List Stmt, Thrifty k (Stmt.partsAll sts) → AllRendered (stmtRenderingsAll k sts)
  | [], _ => allRendered_nil
  | st :: rest, ht => (keepsCalls_stmt k st ht.left).append (keepsCalls_stmts k rest ht.right)

end

/-! ## Functions -/

/-- The body of a function holds its calls, with the last expression used once. -/
theorem EmitsFunction.rendered {g : Setting} {B : C.BlockId → List C.Stmt}
    (hconst : ∀ id e, g.constants id = some e → ∃ name, e = C.Expr.constant name) {id : IrId}
    {d : FunctionDecl} {m m' : Slots} {vs : List C.VarId} {b : C.BlockId}
    (h : EmitsFunction k g B id d m vs b m') :
    Rendered k g B (B b) (fun _ => branchRenderings k 1 d.body) 0 := by
  cases h with
  | @intro _ _ _ _ _ _ _ _ _ v a e s h ss tail hbody _ _ _ hslot hinner hfinish hb =>
    have hin : Rendered k g B e (branchRenderings k · (.block h ss tail)) (C.Expr.callsAll v.toList) :=
      hinner.rendered hconst
    have hrest : Rendered k g B (e ++ s) (fun _ => branchRenderings k 1 (.block h ss tail)) 0 := by
      cases hfinish with
      | noValue slot =>
        rw [List.append_nil]
        exact hin.fix 1
      | effect value =>
        refine hin.use (s := .expr value) (n := 1) rfl ?_
        rw [one_nsmul]
        exact (add_zero _).symm
      | returned x name spelled value =>
        have hstore := hin.use (s := .assign (.var x name) value) (n := 1) rfl (by
          rw [one_nsmul]
          exact (zero_add _).trans (add_zero _).symm)
        have hret := hstore.use (s := .ret (some (.var x spelled))) (n := 0) rfl (zero_nsmul _).symm
        rw [List.append_assoc] at hret
        exact hret
    have hall := (Rendered.temporary hslot).both hrest
    rw [add_zero] at hall
    rw [hb, hbody]
    exact hall

/-- The text of function `f` has the calls of a list of renderings, each as often as listed. -/
structure RendersCalls (k : Checked) (l : Lowering) (f : C.FunctionId) (rs : List (Expr × Nat)) :
    Prop where
  /-- One call in the blocks of the function for every time that a call is rendered. -/
  calls : ∃ x b all, l.c.functions[f.index]? = some x ∧ x.body = some b ∧
    Nested l.c.statements (l.c.statements b) all ∧
    Multiset.Rel (Renders k (setting l) l.c.statements) (expand rs) (C.Stmt.callsAll all)
  /-- What is rendered at all stands in the text of some line. -/
  text : ∀ e n, (e, n) ∈ rs → n ≠ 0 → ∃ c, Renders k (setting l) l.c.statements e c ∧
    ∃ line ∈ l.c.functionLines f, Contains line c.text

theorem Lowered.rendersCalls {ids : List IrId} {id : IrId} {d : FunctionDecl} {f : C.FunctionId}
    {vs : List C.VarId} {b : C.BlockId} {m m' : Slots} (h : Lowered k ids id d l f vs b m m') :
    RendersCalls k l f (branchRenderings k 1 d.body) := by
  obtain ⟨size, hsetting⟩ := h.setting
  obtain ⟨x, hx, _, hb⟩ := h.body
  obtain ⟨all, hnested, hrel⟩ := h.emits.rendered hsetting.constants
  have hrel := hrel 0
  rw [nsmul_zero, add_zero] at hrel
  refine ⟨⟨x, b, all, hx, hb, hnested, hrel⟩, ?_⟩
  intro e n he hn
  obtain ⟨c, hc, hrenders⟩ := Multiset.exists_mem_of_rel_of_mem hrel (mem_expand.2 ⟨n, hn, he⟩)
  obtain ⟨s, hs, hc⟩ := C.Stmt.mem_callsAll.1 hc
  obtain ⟨line, hline, hcontains⟩ := C.Stmt.contains_firstLine hc
  obtain ⟨high, hhigh, hlt, hdeeper⟩ := h.deeper
  obtain ⟨level, hin⟩ := C.Program.mem_bodyLines hhigh hlt hdeeper hnested s hs line hline
  refine ⟨c, hrenders, C.indentLine level line, ?_, hcontains.prepend _⟩
  unfold C.Program.functionLines
  rw [hx]
  dsimp only
  rw [hb]
  exact List.mem_cons_of_mem _ (List.mem_append_left _ hin)

end Lower

namespace Session

/-- A function item of a program that was lowered, unless an earlier one has the same identity, has
a function of the C program with exactly the calls of its body, each as often as it is listed. In
particular all calls of a body that drops no value are rendered in some line. -/
theorem calls_rendered (s : Session) (target : String) {before after : List Item} {i : Item}
    {d : FunctionDecl} (hp : s.program.items = before ++ i :: after) (hi : i.kind = .function d)
    (hfirst : ∀ j ∈ before, ∀ e, j.kind = .function e → j.head.id.ir ≠ i.head.id.ir)
    (hok : (s.lower target).1 = .ok ()) :
    ∃ f rs, (s.lower target).2.functions[i.head.id.ir]? = some f ∧
      f ∈ (s.lower target).2.declared.functions ∧
      rs = Lower.branchRenderings s.checked 1 d.body ∧
      rs.map Prod.fst = Part.calls d.body.parts ∧
      Lower.RendersCalls s.checked (s.lower target).2 f rs ∧
      (Lower.Thrifty s.checked d.body.parts → ∀ e ∈ Part.calls d.body.parts,
        ∃ c, Lower.Renders s.checked (Lower.setting (s.lower target).2)
          (s.lower target).2.c.statements e c ∧
        ∃ line ∈ (s.lower target).2.c.functionLines f, Contains line c.text) := by
  have hr : Lower.Runs (do Lower.enterPrimitives s.checked; Lower.program s.checked s.program)
      (.empty target) () (s.lower target).2 := Prod.ext hok rfl
  obtain ⟨f, vs, b, m, m', h⟩ := Lower.lowered_of_runs hp hi hfirst hr
  have hcalls := h.rendersCalls
  have hlists := (Lower.listsAll s.checked d.body).2 1
  refine ⟨f, _, h.function, h.written, rfl, hlists, hcalls, ?_⟩
  intro hthrifty e he
  rw [← hlists] at he
  obtain ⟨⟨_, n⟩, hin, rfl⟩ := List.mem_map.1 he
  have hkept := (Lower.keepsCalls s.checked d.body hthrifty).branch 1 (.inl Nat.one_ne_zero)
  exact hcalls.text _ n hin (hkept _ hin)

open Samples in
/-- In `fn f() -> i32 { 1 }  fn g() { if true { f() } }`, which is reported clean and lowered, the
body of `g` has a call and the blocks of its function have none. -/
theorem calls_rendered_dropping : (ofUnit dropping).Clean ∧
    ((ofUnit dropping).check.2.lower "linux").1.toBool = true ∧
    (Part.calls droppedCall.parts).length = 1 ∧
    ∃ f x b all, ((ofUnit dropping).check.2.lower "linux").2.functions[(head 5).id.ir]? = some f ∧
      ((ofUnit dropping).check.2.lower "linux").2.c.functions[f.index]? = some x ∧
      x.body = some b ∧
      Lower.Nested ((ofUnit dropping).check.2.lower "linux").2.c.statements
        (((ofUnit dropping).check.2.lower "linux").2.c.statements b) all ∧
      C.Stmt.callsAll all = 0 := by
  have hclean : (ofUnit dropping).Clean := by decide +kernel
  have hok : ((ofUnit dropping).check.2.lower "linux").1.toBool = true := by decide +kernel
  have hrun : ((ofUnit dropping).check.2.lower "linux").1 = .ok () := by
    generalize ((ofUnit dropping).check.2.lower "linux").1 = r at hok
    cases r with
    | error e => cases hok
    | ok a => rfl
  refine ⟨hclean, hok, rfl, ?_⟩
  have hp : (ofUnit dropping).check.2.program.items =
      [function 1 2 "f" (some (.path (head 3) "i32")) [] (some (number 4 "1"))] ++
        function 5 6 "g" none [] (some droppedCall) :: [] := by
    rw [check_program]
    rfl
  have hfirst : ∀ j ∈ [function 1 2 "f" (some (.path (head 3) "i32")) [] (some (number 4 "1"))],
      ∀ e, j.kind = .function e →
        j.head.id.ir ≠ (function 5 6 "g" none [] (some droppedCall)).head.id.ir := by
    intro j hj _ _
    rw [List.mem_singleton.1 hj]
    decide
  obtain ⟨f, rs, hf, _, hrs, _, hcalls, _⟩ := calls_rendered (ofUnit dropping).check.2 "linux"
    hp rfl hfirst hrun
  have hzero : ((Lower.branchRenderings (ofUnit dropping).check.2.checked 1
      (.block (head 6) [] (some droppedCall))).map Prod.snd) = [0] := by
    decide +kernel
  obtain ⟨x, b, all, hx, hb, hnested, hrel⟩ := hcalls.calls
  refine ⟨f, x, b, all, hf, hx, hb, hnested, ?_⟩
  have hnone : Lower.expand rs = 0 := by
    refine Lower.expand_eq_zero fun r hr => ?_
    rw [hrs] at hr
    exact List.mem_singleton.1 (hzero ▸ List.mem_map_of_mem hr)
  rw [hnone] at hrel
  exact Multiset.rel_zero_left.1 hrel

end Session

end MiddleEnd
