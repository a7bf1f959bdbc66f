/-
  The calls of the C program against those of the checked tree. What lowering emits for a body
  holds exactly the calls of the body, each as often as `renderings` says (`Emits.rendered`).
-/
import Mathlib.Algebra.Order.Group.Multiset
import Mathlib.Tactic.Abel
import MiddleEnd.Proofs.Lower.Changes
import MiddleEnd.Proofs.Lower.Renderings

namespace MiddleEnd

namespace C

mutual

/-- The calls in an expression, those in their arguments included. -/
def Expr.calls : Expr → Multiset Expr
  | .call f name args => .call f name args ::ₘ Expr.callsAll args
  | .binary _ lhs rhs => lhs.calls + rhs.calls
  | .index base position => base.calls + position.calls
  | .array _ values => Expr.callsAll values
  | .struct _ values => Expr.callsAll values
  | _ => 0

def Expr.callsAll : List Expr → Multiset Expr
  | [] => 0
  | e :: rest => e.calls + Expr.callsAll rest

end

theorem Expr.callsAll_perm {es fs : List Expr} (h : es.Perm fs) :
    Expr.callsAll es = Expr.callsAll fs := by
  induction h with
  | nil => rfl
  | cons e _ ih => exact congrArg (e.calls + ·) ih
  | swap e f rest => exact add_left_comm ..
  | trans _ _ ih ih' => exact ih.trans ih'

theorem Expr.callsAll_replicate (n : Nat) (e : Expr) :
    Expr.callsAll (List.replicate n e) = n • e.calls := by
  induction n with
  | zero => exact (zero_nsmul _).symm
  | succ n ih =>
    rw [List.replicate_succ, Expr.callsAll, ih, succ_nsmul']

/-- The calls that a statement makes itself, not in its blocks. -/
def Stmt.calls : Stmt → Multiset Expr
  | .expr e => e.calls
  | .declare _ _ _ (some e) => e.calls
  | .assign target value => target.calls + value.calls
  | .ret (some e) => e.calls
  | .branch condition _ _ => condition.calls
  | _ => 0

/-- The calls that statements make themselves. -/
def Stmt.callsAll (ss : List Stmt) : Multiset Expr := (ss.map Stmt.calls).sum

theorem Stmt.callsAll_append (a b : List Stmt) :
    Stmt.callsAll (a ++ b) = Stmt.callsAll a + Stmt.callsAll b := by
  unfold Stmt.callsAll
  rw [List.map_append, List.sum_append]

theorem Stmt.callsAll_cons (s : Stmt) (ss : List Stmt) :
    Stmt.callsAll (s :: ss) = s.calls + Stmt.callsAll ss :=
  List.sum_cons

theorem Stmt.mem_callsAll {c : Expr} {ss : List Stmt} :
    c ∈ Stmt.callsAll ss ↔ ∃ s ∈ ss, c ∈ s.calls := by
  induction ss with
  | nil => exact ⟨fun h => absurd h (Multiset.notMem_zero _), nofun⟩
  | cons s rest ih =>
    rw [Stmt.callsAll_cons, Multiset.mem_add, ih]
    simp only [List.mem_cons, exists_eq_or_imp]

end C

namespace Lower

/-- The calls that a list of renderings comes to. -/
def expand (rs : List (Expr × Nat)) : Multiset Expr :=
  (rs.map fun r => r.2 • ({r.1} : Multiset Expr)).sum

theorem expand_append (rs rs' : List (Expr × Nat)) : expand (rs ++ rs') = expand rs + expand rs' := by
  unfold expand
  rw [List.map_append, List.sum_append]

theorem expand_cons (r : Expr × Nat) (rs : List (Expr × Nat)) :
    expand (r :: rs) = r.2 • ({r.1} : Multiset Expr) + expand rs :=
  List.sum_cons

theorem mem_expand {rs : List (Expr × Nat)} {e : Expr} :
    e ∈ expand rs ↔ ∃ n, n ≠ 0 ∧ (e, n) ∈ rs := by
  induction rs with
  | nil => exact ⟨fun h => absurd h (Multiset.notMem_zero _), nofun⟩
  | cons r rs ih =>
    rw [expand_cons, Multiset.mem_add, Multiset.mem_nsmul, Multiset.mem_singleton, ih]
    constructor
    · rintro (⟨hn, rfl⟩ | ⟨n, hn, hm⟩)
      · exact ⟨r.2, hn, List.mem_cons_self ..⟩
      · exact ⟨n, hn, List.mem_cons_of_mem _ hm⟩
    · rintro ⟨n, hn, hm⟩
      rcases List.mem_cons.1 hm with rfl | hm
      · exact .inl ⟨hn, rfl⟩
      · exact .inr ⟨n, hn, hm⟩

theorem expand_eq_zero {rs : List (Expr × Nat)} (h : ∀ r ∈ rs, r.2 = 0) : expand rs = 0 := by
  refine Multiset.eq_zero_of_forall_notMem fun e he => ?_
  obtain ⟨n, hn, hm⟩ := mem_expand.1 he
  exact hn (h _ hm)

/-- Statements with those in their blocks, in the order in which they stand in the text. -/
inductive Nested (B : C.BlockId → List C.Stmt) : List C.Stmt → List C.Stmt → Prop
  | nil : Nested B [] []
  | cons {s : C.Stmt} {rest inner all : List C.Stmt} :
    Nested B (s.blocks.flatMap B) inner →
    Nested B rest all →
    Nested B (s :: rest) (s :: (inner ++ all))

variable {k : Checked} {g : Setting} {B : C.BlockId → List C.Stmt}

theorem Nested.append {a b x y : List C.Stmt} (h : Nested B a x) (h' : Nested B b y) :
    Nested B (a ++ b) (x ++ y) := by
  induction h with
  | nil => exact h'
  | cons hi _ _ ih =>
    rw [List.cons_append, List.cons_append, List.append_assoc]
    exact .cons hi ih

theorem Nested.single {s : C.Stmt} {inner : List C.Stmt} (h : Nested B (s.blocks.flatMap B) inner) :
    Nested B [s] (s :: inner) := by
  have hs := Nested.cons h .nil
  rw [List.append_nil] at hs
  exact hs

/-- The C expression is what the expression is lowered to. -/
def Renders (k : Checked) (g : Setting) (B : C.BlockId → List C.Stmt) (e : Expr) (c : C.Expr) :
    Prop :=
  ∃ m a m', Emits k g B m (.expr e c) a m'

/-- These statements, and their values used `n` times, hold the calls listed for `n`. -/
def Rendered (k : Checked) (g : Setting) (B : C.BlockId → List C.Stmt) (a : List C.Stmt)
    (rs : Nat → List (Expr × Nat)) (values : Multiset C.Expr) : Prop :=
  ∃ all, Nested B a all ∧ ∀ n, Multiset.Rel (Renders k g B) (expand (rs n))
    (C.Stmt.callsAll all + n • values)

namespace Rendered

variable {a b : List C.Stmt} {rs rs' : Nat → List (Expr × Nat)} {v w : Multiset C.Expr}

theorem nothing : Rendered k g B [] (fun _ => []) 0 :=
  ⟨[], .nil, fun n => by
    rw [nsmul_zero]
    exact .zero⟩

theorem both (h : Rendered k g B a rs v) (h' : Rendered k g B b rs' w) :
    Rendered k g B (a ++ b) (fun n => rs n ++ rs' n) (v + w) := by
  obtain ⟨x, hx, hr⟩ := h
  obtain ⟨y, hy, hr'⟩ := h'
  refine ⟨x ++ y, hx.append hy, fun n => ?_⟩
  rw [expand_append, C.Stmt.callsAll_append, nsmul_add, add_add_add_comm]
  exact (hr n).add (hr' n)

/-- The value is used up by one more statement, which may have blocks. -/
theorem enclose (h : Rendered k g B a rs v) {s : C.Stmt}
    (hi : Rendered k g B (s.blocks.flatMap B) rs' 0) {n : Nat} (hs : s.calls = n • v) :
    Rendered k g B (a ++ [s]) (fun i => rs n ++ rs' i) 0 := by
  obtain ⟨x, hx, hr⟩ := h
  obtain ⟨y, hy, hr'⟩ := hi
  refine ⟨x ++ (s :: y), hx.append (.single hy), fun i => ?_⟩
  rw [expand_append, C.Stmt.callsAll_append, C.Stmt.callsAll_cons, hs, ← add_assoc, add_assoc]
  exact (hr n).add (hr' i)

/-- The value is used up by one more statement without blocks. -/
theorem use (h : Rendered k g B a rs v) {s : C.Stmt} (hb : s.blocks = []) {n : Nat}
    (hs : s.calls = n • v) : Rendered k g B (a ++ [s]) (fun _ => rs n) 0 := by
  have hnone : Rendered k g B (s.blocks.flatMap B) (fun _ => []) 0 := by
    rw [hb]
    exact .nothing
  have huse := h.enclose hnone hs
  simp only [List.append_nil] at huse
  exact huse

/-- The value is not used at all. -/
theorem drop (h : Rendered k g B a rs v) : Rendered k g B a (fun _ => rs 0) 0 := by
  obtain ⟨x, hx, hr⟩ := h
  refine ⟨x, hx, fun n => ?_⟩
  have hnone := hr 0
  rw [zero_nsmul] at hnone
  rw [nsmul_zero]
  exact hnone

/-- A declaration of a temporary variable calls nothing. -/
theorem temporary {m m' : Slots} {t : Ty} {target : Option C.VarId} {d : List C.Stmt}
    (h : Temporary g m t target d m') : Rendered k g B d (fun _ => []) 0 := by
  cases h with
  | none => exact .nothing
  | some name declared _ _ => exact Rendered.nothing.use (n := 0) rfl (zero_nsmul ..).symm

end Rendered

/-- What the statements of a job, and the values it comes to, hold of its calls. -/
def Job.Rendered (k : Checked) (g : Setting) (B : C.BlockId → List C.Stmt) (a : List C.Stmt) :
    Job → Prop
  | .expr e v => Lower.Rendered k g B a (renderings k · e) v.calls
  | .exprs es vs => Lower.Rendered k g B a (renderingsAll k · es) (C.Expr.callsAll vs)
  | .fields inOrder fs vs => vs.map (·.1) = fs.map FieldInit.name ∧ ∀ names,
    Lower.Rendered k g B a (fieldRenderings k inOrder · names fs) (C.Expr.callsAll (taken names vs))
  | .tail e v => Lower.Rendered k g B a (tailRenderings k · e) (C.Expr.callsAll v.toList)
  | .inner e v => Lower.Rendered k g B a (branchRenderings k · e) (C.Expr.callsAll v.toList)
  | .branch target e =>
    Lower.Rendered k g B a (fun _ => branchRenderings k (if target.isSome then 1 else 0) e) 0
  | .stmt st => Lower.Rendered k g B a (fun _ => stmtRenderings k st) 0
  | .stmts sts => Lower.Rendered k g B a (fun _ => stmtRenderingsAll k sts) 0

theorem rel_nsmul {α β : Type} {r : α → β → Prop} {s : Multiset α} {t : Multiset β}
    (h : Multiset.Rel r s t) (n : Nat) : Multiset.Rel r (n • s) (n • t) := by
  induction n with
  | zero =>
    rw [zero_nsmul, zero_nsmul]
    exact .zero
  | succ n ih =>
    rw [succ_nsmul, succ_nsmul]
    exact ih.add h

namespace Rendered

variable {a b : List C.Stmt} {rs rs' : Nat → List (Expr × Nat)} {v w : Multiset C.Expr}

/-- Where there is no value, it does not matter how often it is used. -/
theorem fix (h : Rendered k g B a rs 0) (n : Nat) : Rendered k g B a (fun _ => rs n) 0 := by
  obtain ⟨x, hx, hr⟩ := h
  refine ⟨x, hx, fun i => ?_⟩
  have hn := hr n
  rw [nsmul_zero] at hn ⊢
  exact hn

/-- A call is rendered together with its arguments. -/
theorem call {e : Expr} {f : C.FunctionId} {name : String} {vs : List C.Expr}
    (h : Rendered k g B a rs (C.Expr.callsAll vs)) (he : Renders k g B e (.call f name vs)) :
    Rendered k g B a (fun n => (e, n) :: rs n) (C.Expr.call f name vs).calls := by
  obtain ⟨x, hx, hr⟩ := h
  refine ⟨x, hx, fun n => ?_⟩
  have hone : Multiset.Rel (Renders k g B) {e} {.call f name vs} := .cons he .zero
  rw [expand_cons, C.Expr.calls, ← Multiset.singleton_add, nsmul_add, add_left_comm]
  exact (rel_nsmul hone n).add (hr n)

/-- An assignment uses its target, which is its value as well. -/
theorem assign {t u : C.Expr} (ht : Rendered k g B a rs t.calls)
    (hu : Rendered k g B b rs' u.calls) :
    Rendered k g B (a ++ (b ++ [.assign t u])) (fun n => rs (n + 1) ++ rs' 1) t.calls := by
  obtain ⟨x, hx, hr⟩ := ht
  obtain ⟨y, hy, hr'⟩ := hu
  have hlast : Nested B [.assign t u] [.assign t u] := .single .nil
  refine ⟨x ++ (y ++ [.assign t u]), hx.append (hy.append hlast), fun n => ?_⟩
  have hcalls : C.Stmt.callsAll (x ++ (y ++ [.assign t u])) + n • t.calls =
      (C.Stmt.callsAll x + (n + 1) • t.calls) + (C.Stmt.callsAll y + 1 • u.calls) := by
    rw [C.Stmt.callsAll_append, C.Stmt.callsAll_append, succ_nsmul, one_nsmul]
    show C.Stmt.callsAll x + (C.Stmt.callsAll y + (t.calls + u.calls + 0)) + n • t.calls = _
    abel
  rw [expand_append, hcalls]
  exact (hr (n + 1)).add (hr' 1)

/-- Statements of conditionals and blocks: what the statement reads, a temporary variable, and
the blocks. -/
theorem blocks (h : Rendered k g B a rs v) {m m' : Slots} {t : Ty} {target : Option C.VarId}
    {d : List C.Stmt} (ht : Temporary g m t target d m') {s : C.Stmt}
    (hi : Rendered k g B (s.blocks.flatMap B) rs' 0) {n : Nat} (hs : s.calls = n • v) :
    Rendered k g B (a ++ (d ++ [s])) (fun i => rs n ++ rs' i) 0 := by
  have hboth := (h.both (temporary ht)).enclose hi (n := n) (by rw [hs, add_zero])
  simp only [List.append_nil] at hboth
  rw [List.append_assoc] at hboth
  exact hboth

/-- Copies of a value hold its calls as often. -/
theorem replicate {u : C.Expr} (h : Rendered k g B a rs u.calls) (count : Nat) :
    Rendered k g B a (fun n => rs (n * count)) (C.Expr.callsAll (List.replicate count u)) := by
  obtain ⟨x, hx, hr⟩ := h
  refine ⟨x, hx, fun n => ?_⟩
  rw [C.Expr.callsAll_replicate, ← mul_nsmul']
  exact hr (n * count)

/-- The two blocks of a conditional. -/
theorem two_blocks {c : C.Expr} {x y : C.BlockId} (hx : Rendered k g B (B x) rs 0)
    (hy : Rendered k g B (B y) rs' 0) :
    Rendered k g B ((C.Stmt.branch c x (some y)).blocks.flatMap B) (fun n => rs n ++ rs' n) 0 := by
  have hboth := hx.both hy
  rw [add_zero] at hboth
  rw [show (C.Stmt.branch c x (some y)).blocks.flatMap B = B x ++ (B y ++ []) from rfl,
    List.append_nil]
  exact hboth

/-- The value of a field that stays where it is, in front of those of other fields. -/
theorem field (name : String) {e : Expr} {u : C.Expr} {inOrder : Bool} {rest : List FieldInit}
    {vs : List (String × C.Expr)} {names : List String}
    (h : Rendered k g B a (renderings k · e) u.calls) (hs : staysInPlace k inOrder e = true)
    (hnames : vs.map (·.1) = rest.map FieldInit.name)
    (hr : Rendered k g B b rs' (C.Expr.callsAll (taken names vs))) :
    Rendered k g B (a ++ b) (fun n => renderings k (if staysInPlace k inOrder e then
      if isTaken names name (rest.map FieldInit.name) then n else 0 else 1) e ++ rs' n)
      (C.Expr.callsAll (taken names ((name, u) :: vs))) := by
  rw [taken, hnames, hs]
  cases isTaken names name (rest.map FieldInit.name) with
  | true => exact h.both hr
  | false =>
    have hboth := h.drop.both hr
    rw [zero_add] at hboth
    exact hboth

end Rendered

theorem uses_of_temporary {m m' : Slots} {id : IrId} {t : Ty} {target : Option C.VarId}
    {d : List C.Stmt} (ht : k.types.get? id = some t) (h : Temporary g m t target d m') :
    uses k id = if target.isSome then 1 else 0 := by
  unfold uses
  rw [ht]
  cases h with
  | none hu =>
    rw [Option.any_some, hu]
    rfl
  | some name declared hu _ =>
    rw [Option.any_some, hu]
    rfl

theorem calls_of_taken_var {names : List String} {name spelled : String} {v : C.VarId}
    {vs : List (String × C.Expr)} : C.Expr.callsAll (taken names ((name, .var v spelled) :: vs)) =
      C.Expr.callsAll (taken names vs) := by
  rw [taken]
  split
  · exact zero_add _
  · rfl

theorem calls_of_loads {target : Option C.VarId} {v : C.Expr} (h : Loads target v) :
    v.calls = 0 := by
  cases h <;> rfl

theorem isValued_of_valued {e : Expr} (h : Valued k e) : isValued k e = true := by
  cases e with
  | ret => exact absurd h id
  | _ =>
    obtain ⟨t, ht, hu⟩ := h
    show Option.any _ (k.types.get? _) = _
    rw [ht, Option.any_some, hu]
    rfl

theorem isValued_of_valueless {e : Expr} (h : Valueless k e) : isValued k e = false := by
  cases e with
  | ret => rfl
  | _ =>
    obtain ⟨t, ht, hu⟩ := h
    show Option.any _ (k.types.get? _) = _
    rw [ht, Option.any_some, hu]
    rfl

theorem Compiles.not_nothing {t : Ty} {ct : C.Ty} (h : Compiles g t ct) :
    (t.isUnit || t.isInfer) = false := by
  cases h with
  | entered he _ => cases t <;> first | rfl | cases he
  | array _ => rfl

theorem Emits.rendered (hconst : ∀ id e, g.constants id = some e → ∃ name, e = C.Expr.constant name)
    {m m' : Slots} {j : Job} {a : List C.Stmt} (h : Emits k g B m j a m') :
    j.Rendered k g B a := by
  induction h with
  | literal h lit hs =>
    cases hs <;> exact .nothing
  | use | exprsNil | tailNone | stmtsNil => exact .nothing
  | constant h name _ _ hv =>
    obtain ⟨_, rfl⟩ := hconst _ _ hv
    exact .nothing
  | retUnit h => exact Rendered.nothing.use (n := 0) rfl (zero_nsmul _).symm
  | ret h value _ ih => exact ih.use (n := 1) rfl (one_nsmul _).symm
  | call h callee args hc he ih => exact ih.call ⟨_, _, _, .call h callee args hc he⟩
  | assign h target value _ _ iht ihv => exact iht.assign ihv
  | binary h op lhs rhs _ _ ihl ihr => exact ihl.both ihr
  | ifOnly h condition body b _ _ ihc ihb =>
    show Rendered k g B _ (fun n => renderings k n (.ifOnly h condition body)) 0
    simp only [renderings_ifOnly]
    refine ihc.enclose (s := .branch _ b none) ?_ (n := 1) (one_nsmul _).symm
    rw [show (C.Stmt.branch _ b none).blocks.flatMap B = B b from List.append_nil _]
    exact ihb
  | ifElse h condition thenBody elseBody x y ht _ htemp _ _ hl ihc ihx ihy =>
    show Rendered k g B _ (fun n => renderings k n (.ifElse h condition thenBody elseBody)) _
    simp only [renderings_ifElse, uses_of_temporary ht htemp]
    rw [calls_of_loads hl]
    refine ihc.blocks htemp (s := .branch _ x (some y)) ?_ (n := 1) (one_nsmul _).symm
    exact Rendered.two_blocks ihx ihy
  | ifElseIf h condition thenBody elseIf x y _ _ _ ihc ihx ihy =>
    show Rendered k g B _ (fun n => renderings k n (.ifElseIf h condition thenBody elseIf)) 0
    simp only [renderings_ifElseIf]
    refine ihc.enclose (s := .branch _ x (some y)) ?_ (n := 1) (one_nsmul _).symm
    exact Rendered.two_blocks ihx ihy
  | block h ss tail x ht htemp _ hl ih =>
    show Rendered k g B _ (fun n => renderings k n (.block h ss tail)) _
    simp only [renderings_block, uses_of_temporary ht htemp]
    rw [calls_of_loads hl]
    refine Rendered.nothing.blocks htemp (s := .block x) ?_ (n := 0) (zero_nsmul _).symm
    rw [show (C.Stmt.block x).blocks.flatMap B = B x from List.append_nil _]
    exact ih
  | index h base position _ _ ihb ihp => exact ihb.both ihp
  | array h values _ _ _ ih => exact ih
  | copies h element count _ ih => exact ih.replicate count.toNat
  | struct h path fields ht _ _ hd ih =>
    show Rendered k g B _ (fun n => renderings k n (.struct h path fields)) (C.Expr.callsAll _)
    simp only [fun n => renderings_struct k n h path fields ht]
    rw [C.Expr.callsAll_perm (taken_perm hd)]
    exact ih.2 _
  | exprsCons e es _ _ ihe ihr => exact ihe.both ihr
  | fieldsNil inOrder => exact ⟨rfl, fun _ => .nothing⟩
  | fieldsCons inOrder h name value rest hi _ _ ihv ihr =>
    have hstays : staysInPlace k inOrder value = true := by
      unfold staysInPlace
      rw [hi, Bool.true_or]
    refine ⟨congrArg (name :: ·) ihr.1, fun names => ?_⟩
    exact ihv.field name hstays ihr.1 (ihr.2 names)
  | fieldsKeep inOrder h name value rest hi _ ht htemp hk _ ihv ihr =>
    refine ⟨congrArg (name :: ·) ihr.1, fun names => ?_⟩
    have hkept := ihv.both (Rendered.temporary htemp)
    rw [add_zero] at hkept
    simp only [List.append_nil] at hkept
    cases hk with
    | asItIs =>
      have hstays : staysInPlace k inOrder value = true := by
        cases htemp with
        | none hu =>
          unfold staysInPlace
          rw [ht, Option.any_some, hu, Bool.or_true]
      have hfield := hkept.field name hstays ihr.1 (ihr.2 names)
      rw [List.append_assoc] at hfield
      exact hfield
    | moved x n spelled =>
      have hmoves : staysInPlace k inOrder value = false := by
        cases htemp with
        | some n' declared hu _ =>
          unfold staysInPlace
          rw [hi, ht, Option.any_some, hu]
          rfl
      have hstored := hkept.use (s := .assign (.var x spelled) _) (n := 1) rfl (by
        rw [one_nsmul]
        exact zero_add _)
      have hboth := hstored.both (ihr.2 names)
      rw [zero_add, List.append_assoc, List.append_assoc] at hboth
      show Rendered k g B _ (fun n => renderings k (if staysInPlace k inOrder value then _ else 1)
        value ++ fieldRenderings k inOrder n names rest) _
      rw [hmoves, calls_of_taken_var]
      exact hboth
  | tailValue e hv _ ih =>
    show Rendered k g B _ (fun n => tailRenderings k n (some e)) _
    simp only [tailRenderings, isValued_of_valued hv, if_true]
    rw [Option.toList_some, C.Expr.callsAll, C.Expr.callsAll, add_zero]
    exact ih
  | tailEffect e hv _ ih =>
    show Rendered k g B _ (fun n => tailRenderings k n (some e)) _
    simp only [tailRenderings, isValued_of_valueless hv]
    exact ih
  | innerBlock h ss tail _ _ ihs iht =>
    have hboth := Rendered.both ihs iht
    rw [zero_add] at hboth
    exact hboth
  | innerOther e hb _ ih =>
    cases e with
    | block g ss tail => exact absurd rfl (hb g ss tail)
    | _ => exact ih
  | branch e _ hs ih =>
    cases hs with
    | noTarget value =>
      rw [List.append_nil]
      exact Rendered.drop ih
    | noValue target =>
      rw [List.append_nil]
      exact Rendered.fix ih _
    | both v name value =>
      refine Rendered.use ih (n := 1) rfl ?_
      show 0 + value.calls = 1 • (value.calls + 0)
      rw [one_nsmul, zero_add, add_zero]
  | effectItself e ha _ ih =>
    show Rendered k g B _ (fun _ => renderings k (effectUses e) e) 0
    unfold effectUses
    rw [ha]
    exact Rendered.drop ih
  | effect e ha _ ih =>
    show Rendered k g B _ (fun _ => renderings k (effectUses e) e) 0
    unfold effectUses
    rw [ha]
    exact ih.use (n := 1) rfl (one_nsmul _).symm
  | declareNothing h pattern ascribed _ _ => exact .nothing
  | declare h pattern ascribed _ _ => exact Rendered.nothing.use (n := 0) rfl (zero_nsmul _).symm
  | bindNothing h pattern ascribed init ht hn _ ih =>
    show Rendered k g B _ (fun _ => renderings k (if isNothing k h.id.ir then _ else 1) init) 0
    unfold isNothing
    rw [ht, Option.any_some, hn]
    exact ih
  | bind h pattern ascribed init ht hc _ ih =>
    show Rendered k g B _ (fun _ => renderings k (if isNothing k h.id.ir then _ else 1) init) 0
    unfold isNothing
    rw [ht, Option.any_some, hc.not_nothing]
    exact ih.use (n := 1) rfl (one_nsmul _).symm
  | stmtsCons st rest _ _ ihs ihr => exact ihs.both ihr

end Lower

end MiddleEnd
