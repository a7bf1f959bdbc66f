/-
  Where the statements of an expression stand. Lowering a body lowers every expression in it once,
  and what that adds stands in a row, in the body's block or in a block inside it
  (`Lowered.placed`). The blocks of branches are no exception: their contents are lowered, not
  themselves.

  Where the identities of declarations are distinct, no `let` of the expression has a variable when
  its lowering begins (`Slots.Ready`).
-/
import MiddleEnd.Proofs.Lower.Whole

namespace MiddleEnd.Lower

variable {k : Checked} {g : Setting} {B : C.BlockId → List C.Stmt}

/-! ## Declarations to come -/

/-- These declarations are distinct and have no variables yet. -/
structure Slots.Ready (ids : List IrId) (m : Slots) : Prop where
  proper : m.Proper
  distinct : ids.Nodup
  new : ∀ id ∈ ids, m.vars id = none

namespace Slots.Ready

variable {ids ids' : List IrId} {m m' : Slots}

theorem of_sublist (h : m.Ready ids) (hs : ids'.Sublist ids) : m.Ready ids' :=
  ⟨h.proper, h.distinct.sublist hs, fun id hid => h.new id (hs.subset hid)⟩

theorem left (h : m.Ready (ids ++ ids')) : m.Ready ids := h.of_sublist (List.sublist_append_left ..)

/-- Declaring some leaves the others to come. -/
theorem right (h : m.Ready (ids ++ ids')) (hg : Grows ids m m') : m'.Ready ids' where
  proper := hg.proper h.proper
  distinct := h.distinct.sublist (List.sublist_append_right ..)
  new id hid := by
    rw [hg.others id fun hin => (List.nodup_append.1 h.distinct).2.2 id hin id hid rfl]
    exact h.new id (List.mem_append_right _ hid)

theorem after (h : m.Ready ids) (hg : Grows [] m m') : m'.Ready ids := by
  have hnothing : m.Ready ([] ++ ids) := h
  exact hnothing.right hg

end Slots.Ready

/-- What has a variable keeps it. -/
def Slots.Stays (m m' : Slots) : Prop := ∀ id v, m.vars id = some v → m'.vars id = some v

namespace Slots.Stays

variable {m m₁ m' : Slots}

theorem refl (m : Slots) : m.Stays m := fun _ _ h => h

theorem trans (h : m.Stays m₁) (h' : m₁.Stays m') : m.Stays m' :=
  fun id v hv => h' id v (h id v hv)

theorem of_grows (h : Grows [] m m') : m.Stays m' :=
  fun _ _ hv => h.keeps List.not_mem_nil hv

end Slots.Stays

/-- Declaring what is to come leaves all others as they are. -/
theorem Slots.Ready.stays {ids : List IrId} {m m' : Slots} (h : m.Ready ids)
    (hg : Grows ids m m') : m.Stays m' := by
  intro id v hv
  refine hg.keeps (fun hid => ?_) hv
  rw [h.new id hid] at hv
  cases hv

theorem Slots.Ready.partsLeft {m : Slots} {ps qs : List Part}
    (h : m.Ready (Part.declaredAll (ps ++ qs))) : m.Ready (Part.declaredAll ps) := by
  rw [Part.declaredAll_append] at h
  exact h.left

theorem Slots.Ready.partsRight {m m' : Slots} {ps qs : List Part}
    (h : m.Ready (Part.declaredAll (ps ++ qs))) (hg : Grows (Part.declaredAll ps) m m') :
    m'.Ready (Part.declaredAll qs) := by
  rw [Part.declaredAll_append] at h
  exact h.right hg

/-- The declarations in the initial value of a `let` are among those of the `let`. -/
theorem sublist_declared_init (h : Head) (pattern : Pattern) (ascribed : Option TypeExpr)
    (ps : List Part) : (Part.declaredAll ps).Sublist
      (Part.declaredAll (.bind h pattern :: (TypeExpr.partsOf ascribed ++ ps))) := by
  have hinit : (Part.declaredAll ps).Sublist
      (Part.declaredAll (TypeExpr.partsOf ascribed ++ ps)) := by
    rw [Part.declaredAll_append]
    exact List.sublist_append_right ..
  exact hinit.cons h.id.ir

/-! ## Rows of statements -/

/-- The statements `x` stand in a row among others, or in a block inside these. -/
inductive Stands (B : C.BlockId → List C.Stmt) (x : List C.Stmt) : List C.Stmt → Prop
  | here (before after : List C.Stmt) : Stands B x (before ++ (x ++ after))
  | inside {s : C.Stmt} {b : C.BlockId} {ss : List C.Stmt} :
    s ∈ ss → b ∈ s.blocks → Stands B x (B b) → Stands B x ss

namespace Stands

variable {x a b : List C.Stmt}

theorem refl (B : C.BlockId → List C.Stmt) (x : List C.Stmt) : Stands B x x := by
  have h := here (B := B) (x := x) [] []
  rw [List.nil_append, List.append_nil] at h
  exact h

theorem left (h : Stands B x a) : Stands B x (a ++ b) := by
  cases h with
  | here before after =>
    rw [List.append_assoc, List.append_assoc]
    exact .here before (after ++ b)
  | inside hs hb hx => exact .inside (List.mem_append_left _ hs) hb hx

theorem right (h : Stands B x b) : Stands B x (a ++ b) := by
  cases h with
  | here before after =>
    rw [← List.append_assoc]
    exact .here (a ++ before) after
  | inside hs hb hx => exact .inside (List.mem_append_right _ hs) hb hx

theorem block {s : C.Stmt} {c : C.BlockId} (h : Stands B x (B c)) (hc : c ∈ s.blocks) :
    Stands B x [s] :=
  .inside (List.mem_singleton_self s) hc h

end Stands

/-! ## Expressions -/

/-- The expression is lowered, and its statements stand among these. If `P` holds, its own
declarations are still to come then, and what has variables afterwards has the same at the end. -/
def Placed (k : Checked) (g : Setting) (B : C.BlockId → List C.Stmt) (P : Prop) (last : Slots)
    (e : Expr) (ss : List C.Stmt) : Prop :=
  ∃ m v a m', (P → m.Ready (Part.declaredAll e.parts) ∧ m'.Stays last) ∧
    Emits k g B m (.expr e v) a m' ∧ Stands B a ss

namespace Placed

variable {P Q : Prop} {last m₁ : Slots} {e : Expr} {a b : List C.Stmt}

theorem left (h : Placed k g B P last e a) : Placed k g B P last e (a ++ b) := by
  obtain ⟨m, v, x, m', hm, hx, hs⟩ := h
  exact ⟨m, v, x, m', hm, hx, hs.left⟩

theorem right (h : Placed k g B P last e b) : Placed k g B P last e (a ++ b) := by
  obtain ⟨m, v, x, m', hm, hx, hs⟩ := h
  exact ⟨m, v, x, m', hm, hx, hs.right⟩

theorem block {s : C.Stmt} {c : C.BlockId} (h : Placed k g B P last e (B c)) (hc : c ∈ s.blocks) :
    Placed k g B P last e [s] := by
  obtain ⟨m, v, x, m', hm, hx, hs⟩ := h
  exact ⟨m, v, x, m', hm, hx, hs.block hc⟩

theorem assuming (h : Placed k g B P last e a) (hq : Q → P ∧ last.Stays m₁) :
    Placed k g B Q m₁ e a := by
  obtain ⟨m, v, x, m', hm, hx, hs⟩ := h
  refine ⟨m, v, x, m', fun q => ?_, hx, hs⟩
  obtain ⟨hp, hl⟩ := hq q
  exact ⟨(hm hp).1, (hm hp).2.trans hl⟩

end Placed

/-- All expressions among the parts are placed among these statements. -/
def AllPlaced (k : Checked) (g : Setting) (B : C.BlockId → List C.Stmt) (P : Prop) (last : Slots)
    (ps : List Part) (ss : List C.Stmt) : Prop :=
  ∀ e, .expr e ∈ ps → e.isBlock = false → Placed k g B P last e ss

namespace AllPlaced

variable {P Q : Prop} {last m₁ : Slots} {ps qs : List Part} {a b : List C.Stmt}

theorem nil (a : List C.Stmt) : AllPlaced k g B P last [] a :=
  fun _ he => absurd he List.not_mem_nil

theorem left (h : AllPlaced k g B P last ps a) : AllPlaced k g B P last ps (a ++ b) :=
  fun e he hb => (h e he hb).left

theorem right (h : AllPlaced k g B P last ps b) : AllPlaced k g B P last ps (a ++ b) :=
  fun e he hb => (h e he hb).right

theorem assuming (h : AllPlaced k g B P last ps a) (hq : Q → P ∧ last.Stays m₁) :
    AllPlaced k g B Q m₁ ps a :=
  fun e he hb => (h e he hb).assuming hq

theorem block {s : C.Stmt} {c : C.BlockId} (h : AllPlaced k g B P last ps (B c))
    (hc : c ∈ s.blocks) : AllPlaced k g B P last ps [s] :=
  fun e he hb => (h e he hb).block hc

/-- Parts in front and parts behind are placed among the same statements. -/
theorem both (h : AllPlaced k g B P last ps a) (h' : AllPlaced k g B P last qs a) :
    AllPlaced k g B P last (ps ++ qs) a :=
  fun e he hb => (List.mem_append.1 he).elim (h e · hb) (h' e · hb)

/-- Parts that are lowered one after the other. -/
theorem append (h : AllPlaced k g B P last ps a) (h' : AllPlaced k g B P last qs b) :
    AllPlaced k g B P last (ps ++ qs) (a ++ b) :=
  h.left.both h'.right

/-- The two blocks of a conditional. -/
theorem branches {c : C.Expr} {x y : C.BlockId} (hx : AllPlaced k g B P last ps (B x))
    (hy : AllPlaced k g B P last qs (B y)) :
    AllPlaced k g B P last (ps ++ qs) [.branch c x (some y)] :=
  (hx.block (List.mem_cons_self ..)).both
    (hy.block (List.mem_cons_of_mem _ (List.mem_singleton_self _)))

/-- A part that is no expression of its own. -/
theorem skip {p : Part} (h : AllPlaced k g B P last ps a) (hp : ∀ e, p ≠ .expr e) :
    AllPlaced k g B P last (p :: ps) a := fun e he hb =>
  (List.mem_cons.1 he).elim (fun heq => absurd heq.symm (hp e)) (h e · hb)

/-- Annotations have no expressions. -/
theorem annotation (t : Option TypeExpr) (a : List C.Stmt) :
    AllPlaced k g B P last (TypeExpr.partsOf t) a :=
  fun e he _ => absurd he (TypeExpr.noExpr_partsOf t e)

/-- A block whose contents are placed. -/
theorem inner (h : AllPlaced k g B P last ps a) (g' : Head) (ss : List Stmt) (tail : Option Expr) :
    AllPlaced k g B P last (.expr (.block g' ss tail) :: ps) a := by
  intro e he hb
  rcases List.mem_cons.1 he with he | he
  · cases he
    cases hb
  · exact h e he hb

/-- An expression is placed with what is in it. -/
theorem self {e : Expr} {v : C.Expr} {m m' : Slots} (he : Emits k g B m (.expr e v) a m')
    (h : AllPlaced k g B (m.Ready (Part.declaredAll e.parts)) m' ps a) :
    AllPlaced k g B (m.Ready (Part.declaredAll e.parts)) m' (.expr e :: ps) a := by
  intro f hf hb
  rcases List.mem_cons.1 hf with hf | hf
  · cases hf
    exact ⟨m, v, a, m', fun r => ⟨r, .refl m'⟩, he, .refl B a⟩
  · exact h f hf hb

end AllPlaced

/-! ## Emission -/

/-- A `let` has no variable yet after its initial value. -/
theorem stays_bind {m m' : Slots} {h : Head} {pattern : Pattern} {ascribed : Option TypeExpr}
    {init : Expr} {v : C.Expr} {a : List C.Stmt}
    (hr : m.Ready (Part.declaredAll (.bind h pattern :: (TypeExpr.partsOf ascribed ++ init.parts))))
    (he : Emits k g B m (.expr init v) a m') : m'.Stays (m'.declare h.id.ir) := by
  intro id v hv
  have hnew : m'.vars h.id.ir = none := by
    rw [he.grows.others _ fun hin => (List.nodup_cons.1 hr.distinct).1
      (Part.mem_declaredAll_init ascribed hin)]
    exact hr.new _ (List.mem_cons_self ..)
  rw [m'.declare_other fun heq => ?_]
  · exact hv
  · rw [heq, hnew] at hv
    cases hv

section

variable {m m₁ m' : Slots} {ps qs : List Part} {a b : List C.Stmt}

/-- Jobs one after the other: each is placed as it would be by itself. -/
theorem AllPlaced.sequence (hg : Grows (Part.declaredAll ps) m m₁)
    (hg' : Grows (Part.declaredAll qs) m₁ m')
    (h : AllPlaced k g B (m.Ready (Part.declaredAll ps)) m₁ ps a)
    (h' : AllPlaced k g B (m₁.Ready (Part.declaredAll qs)) m' qs b) :
    AllPlaced k g B (m.Ready (Part.declaredAll (ps ++ qs))) m' ps a ∧
      AllPlaced k g B (m.Ready (Part.declaredAll (ps ++ qs))) m' qs b :=
  ⟨h.assuming fun r => ⟨r.partsLeft, (r.partsRight hg).stays hg'⟩,
    h'.assuming fun r => ⟨r.partsRight hg, .refl m'⟩⟩

/-- A job in front of which a variable is made for no declaration. -/
theorem AllPlaced.behind {ids : List IrId} {last : Slots} (hg : Grows [] m m₁)
    (h : AllPlaced k g B (m₁.Ready ids) last ps a) : AllPlaced k g B (m.Ready ids) last ps a :=
  h.assuming fun r => ⟨r.after hg, .refl last⟩

end

/-- Lowering a job lowers every expression in it. -/
theorem Emits.placed {m m' : Slots} {j : Job} {a : List C.Stmt} (h : Emits k g B m j a m') :
    AllPlaced k g B (m.Ready j.declared) m' j.parts a := by
  induction h with
  | literal h lit hs => exact .self (.literal h lit hs) (.nil _)
  | use h name spelled hd hv => exact .self (.use h name spelled hd hv) (.nil _)
  | constant h name hd hn hv => exact .self (.constant h name hd hn hv) (.nil _)
  | retUnit h => exact .self (.retUnit h) (.nil _)
  | ret h value he ih => exact .self (.ret h value he) ih.left
  | call h callee args hc he ih => exact .self (.call h callee args hc he) (ih.skip nofun)
  | assign h target value ht hv iht ihv =>
    obtain ⟨htarget, hvalue⟩ := AllPlaced.sequence ht.grows hv.grows iht ihv
    exact .self (.assign h target value ht hv) (htarget.append hvalue.left)
  | binary h op lhs rhs hl hr ihl ihr =>
    obtain ⟨hlhs, hrhs⟩ := AllPlaced.sequence hl.grows hr.grows ihl ihr
    exact .self (.binary h op lhs rhs hl hr) (hlhs.append hrhs)
  | ifOnly h condition body b hc hb ihc ihb =>
    obtain ⟨hcondition, hbody⟩ := AllPlaced.sequence hc.grows hb.grows ihc ihb
    exact .self (.ifOnly h condition body b hc hb)
      (hcondition.append (hbody.block (List.mem_cons_self ..)))
  | ifElse h condition thenBody elseBody x y hty hc ht hx hy hl ihc ihx ihy =>
    obtain ⟨hthen, helse⟩ := AllPlaced.sequence hx.grows hy.grows ihx ihy
    obtain ⟨hcondition, hblocks⟩ := AllPlaced.sequence hc.grows
      (ht.grows.trans (hx.grows.both hy.grows)) ihc ((hthen.branches helse).behind ht.grows)
    exact .self (.ifElse h condition thenBody elseBody x y hty hc ht hx hy hl)
      (hcondition.append hblocks.right)
  | ifElseIf h condition thenBody elseIf x y hc hx hy ihc ihx ihy =>
    obtain ⟨hthen, helse⟩ := AllPlaced.sequence hx.grows hy.grows ihx ihy
    obtain ⟨hcondition, hblocks⟩ := AllPlaced.sequence hc.grows (hx.grows.both hy.grows) ihc
      (hthen.branches helse)
    exact .self (.ifElseIf h condition thenBody elseIf x y hc hx hy) (hcondition.append hblocks)
  | block h ss tail x hty ht hx hl ih =>
    exact ((ih.behind ht.grows).block (List.mem_cons_self ..)).right
  | index h base position hb hp ihb ihp =>
    obtain ⟨hbase, hposition⟩ := AllPlaced.sequence hb.grows hp.grows ihb ihp
    exact .self (.index h base position hb hp) (hbase.append hposition)
  | array h values hty hc he ih => exact .self (.array h values hty hc he) ih
  | @copies m m' ct v a h element count he ih =>
    have hself : Emits k g B m
      (.expr (.copies h element count) (.array ct (List.replicate count.toNat v))) a m' :=
      .copies h element count he
    exact .self hself ih
  | struct h path fields hty hc hf ho ih =>
    exact .self (.struct h path fields hty hc hf ho) (ih.skip nofun)
  | exprsNil | fieldsNil | tailNone | stmtsNil => exact .nil _
  | exprsCons e es he hes ih ihs =>
    obtain ⟨hfirst, hrest⟩ := AllPlaced.sequence he.grows hes.grows ih ihs
    exact hfirst.append hrest
  | fieldsCons inOrder h name value rest hs he hr ih ihr =>
    obtain ⟨hfirst, hrest⟩ := AllPlaced.sequence he.grows hr.grows ih ihr
    exact (hfirst.append hrest).skip nofun
  | fieldsKeep inOrder h name value rest hs he hty ht hk hr ih ihr =>
    obtain ⟨hfirst, hrest⟩ := AllPlaced.sequence he.grows (ht.grows.trans hr.grows) ih
      (ihr.behind ht.grows)
    exact (hfirst.append hrest.right.right).skip nofun
  | tailValue e hv he ih => exact ih
  | tailEffect e hv he ih => exact ih
  | innerBlock h ss tail hs ht ihs iht =>
    cases tail with
    | none =>
      exact (ihs.assuming fun r => ⟨r, .of_grows ht.grows⟩).left.inner h ss none
    | some e =>
      obtain ⟨hstmts, htail⟩ := AllPlaced.sequence hs.grows ht.grows ihs iht
      exact (hstmts.append htail).inner h ss (some e)
  | innerOther e hb he ih => exact ih
  | branch e he hs ih => exact ih.left
  | effectItself e ha he ih => exact ih
  | effect e ha he ih => exact ih.left
  | declareNothing h pattern ascribed hty hn => exact (AllPlaced.annotation ascribed _).skip nofun
  | declare h pattern ascribed hty hc => exact (AllPlaced.annotation ascribed _).skip nofun
  | @bindNothing m m' t a h pattern ascribed init hty hn he ih =>
    have hinit := ih.assuming (Q := m.Ready _) fun r =>
      ⟨r.of_sublist (sublist_declared_init h pattern ascribed _), .refl m'⟩
    exact ((AllPlaced.annotation ascribed _).both hinit).skip nofun
  | @bind m m' t ct declared spelled v a h pattern ascribed init hty hc he ih =>
    have hinit : AllPlaced k g B (m.Ready (Part.declaredAll
        (.bind h pattern :: (TypeExpr.partsOf ascribed ++ init.parts)))) (m'.declare h.id.ir)
        init.parts a := by
      exact ih.assuming fun r =>
        ⟨r.of_sublist (sublist_declared_init h pattern ascribed _), stays_bind r he⟩
    exact ((AllPlaced.annotation ascribed _).both hinit.left).skip nofun
  | stmtsCons st rest hs hr ihs ihr =>
    obtain ⟨hfirst, hrest⟩ := AllPlaced.sequence hs.grows hr.grows ihs ihr
    exact hfirst.append hrest

/-! ## Functions -/

theorem EmitsFunction.placed {id : IrId} {d : FunctionDecl} {m m' : Slots} {vs : List C.VarId}
    {b : C.BlockId} (h : EmitsFunction k g B id d m vs b m') :
    AllPlaced k g B (m.Ready d.declared) m' d.body.parts (B b) := by
  cases h with
  | intro h ss tail hbody _ _ hparams hslot hinner _ hb =>
    unfold FunctionDecl.declared
    rw [hbody, hb]
    exact (hinner.placed.assuming fun r =>
      ⟨(Slots.Ready.right r hparams.grows).after hslot.grows, .refl m'⟩).left.right

/-- Where a function is lowered, its own declarations are still to come. -/
theorem Lowered.ready {ids : List IrId} {id : IrId} {d : FunctionDecl} {l : Lowering}
    {f : C.FunctionId} {vs : List C.VarId} {b : C.BlockId} {m m' : Slots}
    (h : Lowered k ids id d l f vs b m m') (hn : (ids ++ d.declared).Nodup) :
    m.Ready d.declared := by
  obtain ⟨_, hown, hapart⟩ := List.nodup_append.1 hn
  refine ⟨h.proper, hown, fun id hid => ?_⟩
  by_contra hne
  exact hapart id (h.keys id hne) id hid rfl

/-- Every expression in the body of a function is lowered, and its statements stand in a row in
the body or in a block inside it. -/
theorem Lowered.placed {ids : List IrId} {id : IrId} {d : FunctionDecl} {l : Lowering}
    {f : C.FunctionId} {vs : List C.VarId} {b : C.BlockId} {m m' : Slots}
    (h : Lowered k ids id d l f vs b m m') :
    AllPlaced k (Lower.setting l) l.c.statements ((ids ++ d.declared).Nodup) m' d.body.parts
      (l.c.statements b) :=
  h.emits.placed.assuming fun hn => ⟨h.ready hn, .refl m'⟩

/-- After a function is lowered, only what was declared before and what it declares itself have
variables. -/
theorem Lowered.keys_after {ids : List IrId} {id : IrId} {d : FunctionDecl} {l : Lowering}
    {f : C.FunctionId} {vs : List C.VarId} {b : C.BlockId} {m m' : Slots}
    (h : Lowered k ids id d l f vs b m m') : ∀ id, m'.vars id ≠ none → id ∈ ids ++ d.declared := by
  intro id hid
  by_cases hd : id ∈ d.declared
  · exact List.mem_append_right _ hd
  · rw [h.emits.grows.others id hd] at hid
    exact List.mem_append_left _ (h.keys id hid)

end MiddleEnd.Lower

namespace MiddleEnd.Session

/-- Lowering for a platform ends without a fault. -/
def Lowers (s : Session) (target : String) : Prop := (s.lower target).1 = .ok ()

instance (s : Session) (target : String) : Decidable (s.Lowers target) :=
  decidable_of_iff ((s.lower target).1.toBool = true) (by
    unfold Lowers
    cases (s.lower target).1 with
    | ok a => simp [Except.toBool]
    | error e => simp [Except.toBool])

theorem Lowers.runs {s : Session} {target : String} (h : s.Lowers target) :
    Lower.Runs (do Lower.enterPrimitives s.checked; Lower.program s.checked s.program)
      (.empty target) () (s.lower target).2 :=
  Prod.ext h rfl

/-- A function item of a program that lowers, unless an earlier one has the same identity, is
lowered to a function of the C program. -/
theorem Lowers.lowered {s : Session} {target : String} (h : s.Lowers target)
    {before after : List Item} {i : Item} {d : FunctionDecl}
    (hp : s.program.items = before ++ i :: after) (hi : i.kind = .function d)
    (hfirst : ∀ j ∈ before, ∀ e, j.kind = .function e → j.head.id.ir ≠ i.head.id.ir) :
    ∃ f vs b m m', Lower.Lowered s.checked ((before ++ after).flatMap Item.declared) i.head.id.ir d
      (s.lower target).2 f vs b m m' :=
  Lower.lowered_of_runs hp hi hfirst h.runs

end MiddleEnd.Session
