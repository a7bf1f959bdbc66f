/-
  Lowering preserves what direct bodies mean: running the statements that are emitted for a piece of
  a body comes to what evaluating the piece comes to (`Emits.simulates`). If evaluation returns, so
  do the statements, and with the same value. Otherwise they come to their end with a store that
  represents that of the program, and the value is left where the rest of the text looks for it.

  Branches that are not taken give variables to declarations all the same. Nothing has been stored
  for these declarations, and that is part of what is shown (`Spares`).
-/
import MiddleEnd.Proofs.Meaning.Conformance
import MiddleEnd.Proofs.Meaning.Operands

namespace MiddleEnd.Lower

open Check (Obeys)

variable {V : Type} {k : Checked} {g : Setting} {B : C.BlockId → List C.Stmt} {O : Operators V}
  {globals ids ids' : List IrId} {m m₁ m' : Slots} {s s₁ s' : Store V} {c : C.Store V}

/-! ## Stores -/

/-- These declarations are still to come, so nothing is stored for them. -/
structure Awaits (ids : List IrId) (m : Slots) (s : Store V) : Prop where
  ready : m.Ready ids
  unset : ∀ id ∈ ids, s id = none

/-- Only variables and these declarations have been assigned. -/
def Spares (ids : List IrId) (m : Slots) (s s' : Store V) : Prop :=
  ∀ id, id ∉ ids → m.vars id = none → s id = none → s' id = none

namespace Spares

theorem refl (ids : List IrId) (m : Slots) (s : Store V) : Spares ids m s s := fun _ _ _ h => h

theorem trans (h : Spares ids m s s₁) (hg : Grows ids m m₁) (h' : Spares ids' m₁ s₁ s') :
    Spares (ids ++ ids') m s s' := by
  intro id hid hm hs
  rw [List.mem_append, not_or] at hid
  exact h' id hid.2 ((hg.others id hid.1).trans hm) (h id hid.1 hm hs)

theorem mono (h : Spares ids m s s') (hs : ids ⊆ ids') : Spares ids' m s s' :=
  fun id hid => h id fun hm => hid (hs hm)

/-- Storing a value for one of the declarations. -/
theorem update {id : IrId} (h : Spares ids m s s') (hid : id ∈ ids ∨ m.vars id ≠ none)
    (v : Option (Value V)) : Spares ids m s (Function.update s' id v) := by
  intro other ho hm hs
  have hne : other ≠ id := fun he => hid.elim (he ▸ ho) fun hv => hv (he ▸ hm)
  rw [Function.update_of_ne hne]
  exact h other ho hm hs

end Spares

namespace Awaits

theorem left (h : Awaits (ids ++ ids') m s) : Awaits ids m s :=
  ⟨h.ready.left, fun id hid => h.unset id (List.mem_append_left _ hid)⟩

theorem right (h : Awaits (ids ++ ids') m s) (hg : Grows ids m m') (hs : Spares ids m s s') :
    Awaits ids' m' s' where
  ready := h.ready.right hg
  unset id hid := by
    have hm := List.mem_append_right ids hid
    refine hs id (fun hin => ?_) (h.ready.new id hm) (h.unset id hm)
    exact (List.nodup_append.1 h.ready.distinct).2.2 id hin id hid rfl

theorem after (h : Awaits ids m s) (hg : Grows [] m m') : Awaits ids m' s :=
  ⟨h.ready.after hg, h.unset⟩

theorem of_sublist (h : Awaits ids m s) (hs : ids'.Sublist ids) : Awaits ids' m s :=
  ⟨h.ready.of_sublist hs, fun id hid => h.unset id (hs.subset hid)⟩

/-- What is declared last is still to come after all others. -/
theorem head {id : IrId} (h : Awaits (id :: ids) m s) (hg : Grows ids m m')
    (hs : Spares ids m s s') : Awaits [id] m' s' := by
  have hid := (List.nodup_cons.1 h.ready.distinct).1
  have hnew := h.ready.new id (List.mem_cons_self ..)
  refine ⟨⟨hg.proper h.ready.proper, List.nodup_singleton id, ?_⟩, ?_⟩
  · intro other ho
    cases List.mem_singleton.1 ho
    exact (hg.others id hid).trans hnew
  · intro other ho
    cases List.mem_singleton.1 ho
    exact hs id hid hnew (h.unset id (List.mem_cons_self ..))

theorem partsLeft {ps qs : List Part} (h : Awaits (Part.declaredAll (ps ++ qs)) m s) :
    Awaits (Part.declaredAll ps) m s := by
  rw [Part.declaredAll_append] at h
  exact h.left

theorem partsRight {ps qs : List Part} (h : Awaits (Part.declaredAll (ps ++ qs)) m s)
    (hg : Grows (Part.declaredAll ps) m m') (hs : Spares (Part.declaredAll ps) m s s') :
    Awaits (Part.declaredAll qs) m' s' := by
  rw [Part.declaredAll_append] at h
  exact h.right hg hs

end Awaits

namespace Represents

variable {id : IrId} {x : C.VarId}

/-- Variables for declarations for which nothing is stored. -/
theorem skip (h : Represents m s c) (hw : Awaits ids m s) (hg : Grows ids m m') :
    Represents m' s c := by
  intro id x v hx hv
  have hid : id ∉ ids := fun hm => by
    rw [hw.unset id hm] at hv
    cases hv
  exact h id x v ((hg.others id hid).symm.trans hx) hv

/-- A value for a variable that belongs to no declaration. -/
theorem spare (h : Represents m s c) (hx : ∀ id, m.vars id ≠ some x) (v : Option (Value V)) :
    Represents m s (Function.update c x v) := by
  intro id y w hy hw
  have hne : y ≠ x := fun he => hx id (he ▸ hy)
  rw [Function.update_of_ne hne]
  exact h id y w hy hw

theorem before (h : Represents m' s c) (hg : Grows [] m m') : Represents m s c :=
  fun id x v hx => h id x v ((hg.others id List.not_mem_nil).trans hx)

/-- A value for a declaration without a variable. -/
theorem forget (h : Represents m s c) (hid : m.vars id = none) (v : Option (Value V)) :
    Represents m (Function.update s id v) c := by
  intro other y w hy hw
  have hne : other ≠ id := fun he => by
    rw [he, hid] at hy
    cases hy
  rw [Function.update_of_ne hne] at hw
  exact h other y w hy hw

/-- The same value for a declaration and for its variable. -/
theorem assign (h : Represents m s c) (hp : m.Proper) (hx : m.vars id = some x)
    (v : Option (Value V)) : Represents m (Function.update s id v) (Function.update c x v) := by
  intro other y w hy hw
  by_cases he : other = id
  · rw [he] at hy hw
    rw [Function.update_self] at hw
    cases hx.symm.trans hy
    rw [Function.update_self, hw]
  · have hne : y ≠ x := fun hxy => he (hp.distinct other id x (hxy ▸ hy) hx)
    rw [Function.update_of_ne he] at hw
    rw [Function.update_of_ne hne]
    exact h other y w hy hw

/-- A new variable for a declaration. -/
theorem declare (h : Represents m s c) (hw : Awaits [id] m s) (v : Option (Value V)) :
    Represents (m.declare id) (Function.update s id v) (Function.update c m.var v) :=
  have hg := Grows.declare m id
  (h.skip hw hg).assign (hg.proper hw.ready.proper) (m.declare_self id) v

end Represents

/-- A variable that belongs to no declaration. -/
def Spare (m : Slots) (target : Option C.VarId) : Prop :=
  ∀ x, target = some x → x.index < m.next ∧ ∀ id, m.vars id ≠ some x

theorem Spare.after {target : Option C.VarId} (h : Spare m target) (hg : Grows ids m m') :
    Spare m' target := by
  intro x hx
  obtain ⟨hlt, hne⟩ := h x hx
  refine ⟨Nat.lt_of_lt_of_le hlt hg.next, fun id hid => ?_⟩
  rcases hg.fresh id x hid with hid | hle
  · exact hne id hid
  · exact absurd hlt (Nat.not_lt.2 hle)

theorem spare_none (m : Slots) : Spare m none := nofun

/-! ## Outcomes -/

/-- What the statements end in where what is lowered comes to `r` and only these declarations are
assigned; `L` says where the value is left. -/
def ComesTo (O : Operators V) (B : C.BlockId → List C.Stmt) (ids : List IrId)
    (L : C.Store V → Value V → Prop) (a : List C.Stmt) (m m' : Slots) (s s' : Store V)
    (c : C.Store V) : Result V → Prop
  | .value w => ∃ c', O.machine.Runs B a c (.done c') ∧ Represents m' s' c' ∧ Spares ids m s s' ∧
    L c' w
  | .returned w => ∃ x c', O.machine.Runs B a c (.returned x c') ∧ x.getD .unit = w
  | .values _ => False

namespace ComesTo

variable {L L' : C.Store V → Value V → Prop} {a b : List C.Stmt} {r : Result V} {w : Value V}

theorem imp (h : ComesTo O B ids L a m m' s s' c r) (hL : ∀ c' w, r = .value w → L c' w → L' c' w)
    (hs : ids ⊆ ids') : ComesTo O B ids' L' a m m' s s' c r := by
  cases r with
  | value w =>
    obtain ⟨c', hrun, hrep, hsp, hl⟩ := h
    exact ⟨c', hrun, hrep, hsp.mono hs, hL c' w rfl hl⟩
  | values ws => exact h
  | returned w => exact h

theorem dropped (h : ComesTo O B ids L a m m' s s' c r) (hL : ∀ c' w, L c' w → L' c' .unit) :
    ComesTo O B ids L' a m m' s s' c r.dropped := by
  cases r with
  | value w =>
    obtain ⟨c', hrun, hrep, hsp, hl⟩ := h
    exact ⟨c', hrun, hrep, hsp, hL c' w hl⟩
  | values ws => exact h
  | returned w => exact h

theorem undropped (h : ComesTo O B ids L a m m' s s' c r.dropped)
    (hL : ∀ c' w, r = .value w → L' c' w) : ComesTo O B ids L' a m m' s s' c r := by
  cases r with
  | value w =>
    obtain ⟨c', hrun, hrep, hsp, _⟩ := h
    exact ⟨c', hrun, hrep, hsp, hL c' w rfl⟩
  | values ws => exact h
  | returned w => exact h

theorem both {ps qs : List Part}
    (h : ComesTo O B (Part.declaredAll ps ++ Part.declaredAll qs) L a m m' s s' c r) :
    ComesTo O B (Part.declaredAll (ps ++ qs)) L a m m' s s' c r := by
  rw [Part.declaredAll_append]
  exact h

/-- Nothing happens. -/
theorem nothing (h : Represents m' s c) (hl : L c w) : ComesTo O B ids L [] m m' s s c (.value w) :=
  ⟨c, .nil, h, .refl _ _ _, hl⟩

/-- Statements that come to their end, and others behind them. -/
theorem append (h : ComesTo O B ids L a m m₁ s s₁ c (.value w)) (hg : Grows ids m m₁)
    (h' : ∀ c₁, Represents m₁ s₁ c₁ → Spares ids m s s₁ → L c₁ w →
      ComesTo O B ids' L' b m₁ m' s₁ s' c₁ r) :
    ComesTo O B (ids ++ ids') L' (a ++ b) m m' s s' c r := by
  obtain ⟨c₁, hrun, hrep, hsp, hl⟩ := h
  have h' := h' c₁ hrep hsp hl
  cases r with
  | value w =>
    obtain ⟨c', hrun', hrep', hsp', hl'⟩ := h'
    exact ⟨c', hrun.append hrun', hrep', hsp.trans hg hsp', hl'⟩
  | values ws => exact h'
  | returned w =>
    obtain ⟨x, c', hrun', hx⟩ := h'
    exact ⟨x, c', hrun.append hrun', hx⟩

/-- Statements that return do not come to what is behind them. -/
theorem early {s'' : Store V} {m'' : Slots} (h : ComesTo O B ids L a m m₁ s s₁ c (.returned w))
    (b : List C.Stmt) : ComesTo O B ids' L' (a ++ b) m m'' s s'' c (.returned w) := by
  obtain ⟨x, c', hrun, hx⟩ := h
  exact ⟨x, c', hrun.before b, hx⟩

/-- A statement that goes on with a block. -/
theorem inside {x : C.Stmt} (hx : O.machine.Enters B x c a c)
    (h : ComesTo O B ids L a m m' s s' c r) : ComesTo O B ids L [x] m m' s s' c r := by
  cases r with
  | value w =>
    obtain ⟨c', hrun, hrest⟩ := h
    exact ⟨c', .through hx hrun, hrest⟩
  | values ws => exact h
  | returned w =>
    obtain ⟨x, c', hrun, hrest⟩ := h
    exact ⟨x, c', .through hx hrun, hrest⟩

/-- More variables, for declarations for which nothing has been stored. -/
theorem skip (h : ComesTo O B ids L a m m₁ s s' c r) (hw : ∀ w, r = .value w → Spares ids m s s' →
    Awaits ids' m₁ s') (hg : Grows ids' m₁ m') : ComesTo O B ids L a m m' s s' c r := by
  cases r with
  | value w =>
    obtain ⟨c', hrun, hrep, hsp, hl⟩ := h
    exact ⟨c', hrun, hrep.skip (hw w rfl hsp) hg, hsp, hl⟩
  | values ws => exact h
  | returned w => exact h

end ComesTo

/-! ## Statements of their own -/

section

variable {t : Ty} {target : Option C.VarId} {d : List C.Stmt}

theorem Temporary.spare (h : Temporary g m t target d m') (hp : m.Proper) : Spare m' target := by
  cases h with
  | none => exact spare_none m
  | some =>
    rintro x ⟨⟩
    exact ⟨Nat.lt_succ_self _, fun id hid => Nat.lt_irrefl _ (hp.below id _ hid)⟩

/-- A variable of which nothing is expected. -/
theorem Temporary.comesTo (h : Temporary g m t target d m') (hp : m.Proper)
    (hc : Represents m s c) :
    ComesTo O B [] (fun _ _ => True) d m m' s s c (.value .unit) := by
  cases h with
  | none => exact ⟨c, .nil, hc, .refl _ _ _, trivial⟩
  | some name declared =>
    have hnew : ∀ id, m.vars id ≠ Option.some m.var := fun id hid =>
      Nat.lt_irrefl _ (hp.below id _ hid)
    exact ⟨_, .act (.declare rfl) .nil, hc.spare hnew _, .refl _ _ _, trivial⟩

end

/-- What is left in the variable, or unit if there is none. -/
theorem Temporary.loads (h : Temporary g m t target d m') {v : C.Expr} (hl : Loads target v)
    {w : Value V} (hunit : t.isUnit = true → w = .unit)
    (hleft : t.isUnit = false → ∀ x, target = Option.some x → c x = Option.some w) :
    v.value? O c = Option.some w := by
  cases h with
  | none hu =>
    cases hl
    exact congrArg Option.some (hunit hu).symm
  | some name declared hu _ =>
    cases hl
    exact hleft hu _ rfl

/-- What a condition chooses. -/
theorem enters_branch {v : C.Expr} {a : V} (hv : v.value? O c = some (.data a)) (x y : C.BlockId) :
    O.machine.Enters B (.branch v x (some y)) c (B (if O.truth a then x else y)) c := by
  cases ha : O.truth a with
  | true => exact .taken ⟨hv, rfl⟩ ha
  | false => exact .other ⟨hv, rfl⟩ ha

theorem declaredAll_right (ps qs : List Part) :
    Part.declaredAll qs ⊆ Part.declaredAll (ps ++ qs) := by
  rw [Part.declaredAll_append]
  exact List.subset_append_right ..

/-- Of the declarations in a `let`, its own and those in its initial value. -/
theorem sublist_declared_bind (h : Head) (pattern : Pattern) (ascribed : Option TypeExpr)
    (ps : List Part) : (h.id.ir :: Part.declaredAll ps).Sublist
      (Part.declaredAll (.bind h pattern :: (TypeExpr.partsOf ascribed ++ ps))) := by
  have hinit : (Part.declaredAll ps).Sublist
      (Part.declaredAll (TypeExpr.partsOf ascribed ++ ps)) := by
    rw [Part.declaredAll_append]
    exact List.sublist_append_right ..
  exact hinit.cons_cons h.id.ir

/-! ## What is lowered -/

/-- The code that a job is about. -/
def Job.code? : Job → Option Code
  | .expr e _ | .tail (some e) _ | .inner e _ | .branch _ e => some (.expr e)
  | .tail none _ => some (.stmts [])
  | .stmt st => some (.stmt st)
  | .stmts sts => some (.stmts sts)
  | .exprs .. | .fields .. => none

/-- Where the value of a job is left. A value of a block is there to be taken unless the block has
the unit type. -/
def Job.Leaves (k : Checked) (O : Operators V) (c : C.Store V) (w : Value V) : Job → Prop
  | .expr _ v => v.value? O c = some w
  | .tail (some e) v => (∀ x, v = some x → x.value? O c = some w) ∧
    (¬ k.types.IsUnit e.ir → v ≠ none)
  | .inner e v => (∀ x, v = some x → x.value? O c = some w) ∧
    (e.isBlock = true → ¬ k.types.IsUnit e.ir → v ≠ none)
  | .branch target e => e.isBlock = true → ¬ k.types.IsUnit e.ir → ∀ x, target = some x →
    c x = some w
  | .tail none _ | .stmt _ | .stmts _ => w = .unit
  | .exprs .. | .fields .. => True

/-- The variable that a job leaves its value in belongs to no declaration. -/
def Job.Spare (m : Slots) : Job → Prop
  | .branch target _ => Lower.Spare m target
  | _ => True

/-- Running these statements comes to what evaluation comes to. -/
def Simulates (k : Checked) (g : Setting) (O : Operators V) (B : C.BlockId → List C.Stmt)
    (globals : List IrId) (m : Slots) (j : Job) (a : List C.Stmt) (m' : Slots) : Prop :=
  ∀ ⦃code : Code⦄ ⦃s s' : Store V⦄ ⦃c : C.Store V⦄ ⦃r : Result V⦄, j.code? = some code →
    Plain k g globals j.parts → Awaits j.declared m s → j.Spare m → Represents m s c →
    Evaluates k O (Obeys k.types) s code r s' →
    ComesTo O B j.declared (fun c' w => j.Leaves k O c' w) a m m' s s' c r

/-- A condition needs no statements. -/
theorem Emits.condition {P : Expr → Result V → Prop} {e f : Expr} {v : C.Expr} {a : List C.Stmt}
    (hconst : ∀ id, g.constants id ≠ none → id ∈ globals) (h : Emits k g B m (.expr f v) a m')
    (hp : Plain k g globals e.parts) (hf : f ∈ e.operands) :
    a = [] ∧ m' = m ∧ ∀ {s s' : Store V} {c : C.Store V} {w : Value V}, Represents m s c →
      Evaluates k O P s (.expr f) (.value w) s' → s' = s ∧ v.value? O c = some w := by
  obtain ⟨hq, hp⟩ := hp.operand hf
  obtain ⟨rfl, rfl, hv⟩ := h.computes (O := O) (P := P) hconst rfl hq hp
  exact ⟨rfl, rfl, fun hrep hev => ⟨(hev.operand (Q := P) ⟨hq, hp.direct⟩).1, hv hrep hev⟩⟩

/-- Operands. -/
theorem Simulates.of_operand {e : Expr} {v : C.Expr} {a : List C.Stmt}
    (hconst : ∀ id, g.constants id ≠ none → id ∈ globals) (ha : addsItself e = false)
    (h : Emits k g B m (.expr e v) a m') : Simulates k g O B globals m (.expr e v) a m' := by
  rintro _ s s' c r ⟨⟩ hp _ _ hrep hev
  obtain ⟨rfl, rfl, hv⟩ := h.computes (O := O) (P := Obeys k.types) hconst rfl ha hp
  obtain ⟨rfl, hleft, _⟩ := hev.operand (Q := Obeys k.types) ⟨ha, hp.direct⟩
  cases r with
  | value w => exact .nothing hrep (hv hrep hev)
  | values ws => exact absurd rfl (hev.comes ws)
  | returned w => exact absurd rfl (hleft w)

/-- One of two branches. -/
theorem Simulates.either {x y : C.BlockId} {ex ey : Expr} {target : Option C.VarId} {v : C.Expr}
    {a : V} {r : Result V} (hx : Simulates k g O B globals m (.branch target ex) (B x) m₁)
    (hy : Simulates k g O B globals m₁ (.branch target ey) (B y) m')
    (gx : Grows (Part.declaredAll ex.parts) m m₁) (gy : Grows (Part.declaredAll ey.parts) m₁ m')
    (hp : Plain k g globals (ex.parts ++ ey.parts))
    (haw : Awaits (Part.declaredAll (ex.parts ++ ey.parts)) m s) (ht : Spare m target)
    (hrep : Represents m s c) (hv : v.value? O c = some (.data a))
    (hev : Evaluates k O (Obeys k.types) s (.expr (if O.truth a then ex else ey)) r s') :
    ComesTo O B (Part.declaredAll (ex.parts ++ ey.parts))
      (fun c' w => Job.Leaves k O c' w (.branch target (if O.truth a then ex else ey)))
      [.branch v x (some y)] m m' s s' c r := by
  refine ComesTo.inside (enters_branch hv x y) (ComesTo.both ?_)
  generalize O.truth a = taken at hev ⊢
  cases taken with
  | true =>
    have htaken := hx rfl hp.left haw.partsLeft ht hrep hev
    exact (htaken.skip (fun _ _ hs => haw.partsRight gx hs) gy).imp (fun _ _ _ h => h)
      (List.subset_append_left ..)
  | false =>
    have hnothing : ComesTo O B (Part.declaredAll ex.parts) (fun _ _ => True) [] m m₁ s s c
      (.value .unit) := .nothing (hrep.skip haw.partsLeft gx) trivial
    exact hnothing.append gx fun c₁ hrep₁ hs _ =>
      hy rfl hp.right (haw.partsRight gx hs) (ht.after gx) hrep₁ hev

/-- A block of the unit type has no value but unit. -/
theorem unit_of_block {h : Head} {ss : List Stmt} {tail : Option Expr} {w : Value V}
    (hev : Evaluates k O (Obeys k.types) s (.expr (.block h ss tail)) (.value w) s')
    (hu : k.types.IsUnit h.id.ir) : w = .unit := by
  cases hev with
  | blockUnit _ _ he _ => exact he.comes.2 w rfl
  | block _ _ _ _ _ hobeys => exact hobeys.2 hu w rfl

/-- What has a value, but none that a block may leave behind, has the unit type. -/
theorem Valueless.isUnit {P : Expr → Result V → Prop} {e : Expr} {w : Value V}
    (h : Valueless k e) (hev : Evaluates k O P s (.expr e) (.value w) s') :
    k.types.IsUnit e.ir := by
  cases e with
  | ret => cases hev
  | _ => exact h

/-- Lowering preserves what direct bodies mean. -/
theorem Emits.simulates (hconst : ∀ id, g.constants id ≠ none → id ∈ globals)
    {j : Job} {a : List C.Stmt} (h : Emits k g B m j a m') :
    Simulates k g O B globals m j a m' := by
  induction h with
  | literal h lit hl => exact .of_operand hconst rfl (.literal h lit hl)
  | use h name spelled hd hv => exact .of_operand hconst rfl (.use h name spelled hd hv)
  | constant h name hd hv hc => exact .of_operand hconst rfl (.constant h name hd hv hc)
  | binary h op lhs rhs hl hr => exact .of_operand hconst rfl (.binary h op lhs rhs hl hr)
  | index h base position hb hi => exact .of_operand hconst rfl (.index h base position hb hi)
  | array h values ht hc hvs => exact .of_operand hconst rfl (.array h values ht hc hvs)
  | struct h path fields ht hc hf ho =>
    exact .of_operand hconst rfl (.struct h path fields ht hc hf ho)
  | call | copies =>
    intro _ _ _ _ _ _ hp
    exact absurd hp.direct.inForm Bool.false_ne_true
  | exprsNil | exprsCons | fieldsNil | fieldsCons | fieldsKeep => exact nofun
  | retUnit h =>
    rintro _ s s' c r ⟨⟩ _ _ _ _ hev
    cases hev with
    | retUnit => exact ⟨none, c, .retUnit, rfl⟩
    | strictLeft _ he => cases he
    | firstLeft _ _ hf => cases hf
  | ret h value _ ih =>
    rintro _ s s' c r ⟨⟩ hp haw _ hrep hev
    cases hev with
    | ret _ _ he =>
      obtain ⟨c', hrun, _, _, hv⟩ := ih rfl hp.tail haw trivial hrep he
      exact ⟨some _, c', hrun.append (.ret ⟨hv, rfl⟩), rfl⟩
    | retLeft _ _ he => exact (ih rfl hp.tail haw trivial hrep he).early _
    | strictLeft _ he => cases he
    | firstLeft _ _ hf => cases hf
  | @assign m m₁ m' t v a b h target value ht hv _ ih =>
    rintro _ s s' c r ⟨⟩ hp haw _ hrep hev
    have hname : target.isName = true := hp.direct.inForm
    cases ht with
    | constant g' name hd _ hc =>
      exact absurd (hconst _ (hc ▸ Option.some_ne_none _)) (hp.tail.left.direct.not_global hd)
    | @use _ id x g' name spelled hd hx =>
      cases hev with
      | @assign _ s₁ id' w _ _ _ _ hd' he =>
        cases hd.symm.trans hd'
        obtain ⟨c', hrun, hrep', hsp, hl⟩ := ih rfl hp.tail.right haw trivial hrep he
        have hx' := haw.ready.stays hv.grows id x hx
        have hproper := hv.grows.proper haw.ready.proper
        exact ⟨_, hrun.append (.act (.assign ⟨hl, rfl⟩ ⟨x, spelled, rfl, rfl⟩) .nil),
          hrep'.assign hproper hx' _, hsp.update (.inr (hx ▸ Option.some_ne_none x)) _,
          Function.update_self ..⟩
      | assignLeft _ _ _ _ he => exact (ih rfl hp.tail.right haw trivial hrep he).early _
      | strictLeft _ he => cases he
      | firstLeft _ _ hf => cases hf
    | _ => cases hname
  | @ifOnly m m₁ m' v a h condition body x hc hb _ ih =>
    rintro _ s s' c r ⟨⟩ hp haw _ hrep hev
    obtain ⟨rfl, rfl, hv⟩ := hc.condition hconst hp (List.mem_cons_self ..)
    have hbody : Awaits (Part.declaredAll body.parts) m₁ s := haw.partsRight hc.grows (.refl _ _ _)
    cases hev with
    | ifTaken _ _ _ hec ht heb =>
      obtain ⟨rfl, hv⟩ := hv hrep hec
      have hbranch := ih rfl hp.tail.right hbody (spare_none m₁) hrep heb
      exact ((hbranch.inside (.taken ⟨hv, rfl⟩ ht)).imp (fun _ _ _ h => h)
        (declaredAll_right ..)).dropped fun _ _ _ => rfl
    | ifSkipped _ _ _ hec ht =>
      obtain ⟨rfl, hv⟩ := hv hrep hec
      exact .inside (.skipped ⟨hv, rfl⟩ ht) (.nothing (hrep.skip hbody hb.grows) rfl)
    | strictLeft _ he => exact (Evaluates.not_left hp.direct (.inl he)).elim
    | firstLeft _ f hf he => exact (Evaluates.not_left hp.direct (.inr ⟨f, hf, he⟩)).elim
  | @ifElse m m₁ m₂ m₃ m' t v lv target a d h condition thenBody elseBody x y ht hc htmp hx hy hl _
      ihx ihy =>
    rintro _ s s' c r ⟨⟩ hp haw _ hrep hev
    obtain ⟨rfl, rfl, hv⟩ := hc.condition hconst hp (List.mem_cons_self ..)
    have hproper := haw.ready.proper
    have hbranches : Awaits (Part.declaredAll (thenBody.parts ++ elseBody.parts)) m₂ s :=
      (haw.partsRight hc.grows (.refl _ _ _)).after htmp.grows
    cases hev with
    | ifElse _ _ _ _ ht' hec heb hobeys =>
      cases ht.symm.trans ht'
      obtain ⟨rfl, _⟩ := hv hrep hec
      have hchosen := (htmp.comesTo (B := B) (O := O) hproper hrep).append htmp.grows
        fun c₁ hrep₁ _ _ => Simulates.either ihx ihy hx.grows hy.grows hp.tail.right hbranches
          (htmp.spare hproper) hrep₁ (hv (hrep₁.before htmp.grows) hec).2 heb
      have hchosen := hchosen.imp (fun _ _ _ h => h) (declaredAll_right condition.parts _)
      by_cases hu : t.isUnit = true
      · rw [if_pos hu]
        exact hchosen.dropped fun c' w _ => htmp.loads hl (fun _ => rfl) fun hne => by
          rw [hu] at hne
          cases hne
      · rw [if_neg hu]
        refine hchosen.imp (fun c' w _ hleaves => htmp.loads hl (absurd · hu) fun _ =>
          hleaves ?_ fun hunit => hu ?_) (List.Subset.refl _)
        · split
          · exact hp.direct.branches.1
          · exact hp.direct.branches.2
        · split at hunit
          · exact (TypeTable.isUnit_iff ht).1 (hobeys (.inl hunit))
          · exact (TypeTable.isUnit_iff ht).1 (hobeys (.inr hunit))
    | strictLeft _ he => exact (Evaluates.not_left hp.direct (.inl he)).elim
    | firstLeft _ f hf he => exact (Evaluates.not_left hp.direct (.inr ⟨f, hf, he⟩)).elim
  | @ifElseIf m m₁ m₂ m' v a h condition thenBody elseIf x y hc hx hy _ ihx ihy =>
    rintro _ s s' c r ⟨⟩ hp haw _ hrep hev
    obtain ⟨rfl, rfl, hv⟩ := hc.condition hconst hp (List.mem_cons_self ..)
    have hbranches : Awaits (Part.declaredAll (thenBody.parts ++ elseIf.parts)) m₁ s :=
      haw.partsRight hc.grows (.refl _ _ _)
    cases hev with
    | ifElseIf _ _ _ _ hec heb =>
      obtain ⟨rfl, hv⟩ := hv hrep hec
      have hchosen := Simulates.either ihx ihy hx.grows hy.grows hp.tail.right hbranches
        (spare_none m₁) hrep hv heb
      exact (hchosen.imp (fun _ _ _ h => h) (declaredAll_right ..)).dropped fun _ _ _ => rfl
    | strictLeft _ he => exact (Evaluates.not_left hp.direct (.inl he)).elim
    | firstLeft _ f hf he => exact (Evaluates.not_left hp.direct (.inr ⟨f, hf, he⟩)).elim
  | @block m m₁ m' t v target d h ss tail x ht htmp hb hl ih =>
    rintro _ s s' c r ⟨⟩ hp haw _ hrep hev
    have hproper := haw.ready.proper
    have hinside := (htmp.comesTo (B := B) (O := O) hproper hrep).append htmp.grows
      fun c₁ hrep₁ _ _ =>
        (ih rfl hp (haw.after htmp.grows) (htmp.spare hproper) hrep₁ hev).inside .block
    refine hinside.imp ?_ (List.Subset.refl _)
    rintro c' w rfl hleaves
    refine htmp.loads hl (fun hu => unit_of_block hev ⟨t, ht, hu⟩) fun hne =>
      hleaves rfl fun hunit => ?_
    rw [(TypeTable.isUnit_iff ht).1 hunit] at hne
    cases hne
  | tailNone =>
    rintro _ s s' c r ⟨⟩ _ _ _ hrep hev
    cases hev with
    | stmtsNil => exact .nothing hrep rfl
  | tailValue e _ _ ih =>
    rintro _ s s' c r ⟨⟩ hp haw _ hrep hev
    refine (ih rfl hp haw trivial hrep hev).imp ?_ (List.Subset.refl _)
    intro c' w _ hl
    refine ⟨?_, fun _ => nofun⟩
    rintro x ⟨⟩
    exact hl
  | tailEffect e hval _ ih =>
    rintro _ s s' c r ⟨⟩ hp haw _ hrep hev
    refine (ih rfl hp haw trivial hrep (.effect e hev)).undropped ?_
    rintro c' w rfl
    exact ⟨nofun, fun hne => absurd (hval.isUnit hev) hne⟩
  | @innerBlock m m₁ m' v a b h ss tail hs ht ihs iht =>
    rintro _ s s' c r ⟨⟩ hp haw _ hrep hev
    cases hev with
    | blockUnit _ _ he hobeys =>
      cases ht
      rw [List.append_nil]
      exact (ihs rfl hp.tail haw trivial hrep he).imp
        (fun _ _ _ _ => ⟨nofun, fun _ hne => absurd hobeys hne⟩) (List.Subset.refl _)
    | block _ _ tail he het hobeys =>
      have hboth := (ihs rfl hp.tail.left haw.partsLeft trivial hrep he).append hs.grows
        fun c₁ hrep₁ hsp _ =>
          iht rfl hp.tail.right (haw.partsRight hs.grows hsp) trivial hrep₁ het
      refine hboth.both.imp ?_ (List.Subset.refl _)
      intro c' w _ hl
      refine ⟨hl.1, fun _ hne => hl.2 ?_⟩
      rintro ⟨t, ht, hu⟩
      exact hne ⟨t, hobeys.1.symm.trans ht, hu⟩
    | blockLeft _ _ tail he => exact (ihs rfl hp.tail.left haw.partsLeft trivial hrep he).early _
    | strictLeft _ he => cases he
    | firstLeft _ _ hf => cases hf
  | innerOther e hne _ ih =>
    rintro _ s s' c r ⟨⟩ hp haw _ hrep hev
    refine (ih rfl hp haw trivial hrep (.effect e hev)).undropped ?_
    rintro c' w rfl
    refine ⟨nofun, fun hblock => ?_⟩
    cases e with
    | block h ss tail => exact absurd rfl (hne h ss tail)
    | _ => cases hblock
  | @branch m m' target v a b e hi hst ih =>
    rintro _ s s' c r ⟨⟩ hp haw hspare hrep hev
    have hinner := ih rfl hp haw trivial hrep hev
    cases r with
    | values ws => exact absurd rfl (hev.comes ws)
    | returned w => exact hinner.early _
    | value w =>
      obtain ⟨c', hrun, hrep', hsp, hvalue, hthere⟩ := hinner
      cases hst with
      | noTarget => exact ⟨c', hrun.append .nil, hrep', hsp, fun _ _ => nofun⟩
      | noValue =>
        exact ⟨c', hrun.append .nil, hrep', hsp, fun hb hne => absurd rfl (hthere hb hne)⟩
      | both x name value =>
        refine ⟨_, hrun.append (.act (.assign ⟨hvalue _ rfl, rfl⟩ ⟨x, name, rfl, rfl⟩) .nil),
          hrep'.spare ((hspare.after hi.grows) x rfl).2 _, hsp, ?_⟩
        rintro _ _ _ ⟨⟩
        exact Function.update_self ..
  | effectItself e _ _ ih =>
    rintro _ s s' c r ⟨⟩ hp haw _ hrep hev
    cases hev with
    | effect _ he => exact (ih rfl hp haw trivial hrep he).dropped fun _ _ _ => rfl
  | @effect m m' v a e _ hv ih =>
    rintro _ s s' c r ⟨⟩ hp haw _ hrep hev
    cases hev with
    | @effect _ _ r _ he =>
      have hexpr := ih rfl hp haw trivial hrep he
      cases r with
      | values ws => exact absurd rfl (he.comes ws)
      | returned w => exact hexpr.early _
      | value w =>
        obtain ⟨c', hrun, hrep', hsp, hl⟩ := hexpr
        exact ⟨c', hrun.append (.act (.expr ⟨hl, rfl⟩) .nil), hrep', hsp, rfl⟩
  | declareNothing h pattern ascribed _ _ =>
    rintro _ s s' c r ⟨⟩ _ haw _ hrep hev
    cases hev with
    | declare =>
      have hmem : h.id.ir ∈ (Job.stmt (.bind h pattern ascribed none)).declared :=
        List.mem_cons_self ..
      exact ⟨c, .nil, hrep.forget (haw.ready.new _ hmem) _,
        (Spares.refl _ _ _).update (.inl hmem) _, rfl⟩
  | declare h pattern ascribed _ _ =>
    rintro _ s s' c r ⟨⟩ _ haw _ hrep hev
    cases hev with
    | declare =>
      have hself : Awaits [h.id.ir] _ s := haw.of_sublist (.cons_cons _ (List.nil_sublist _))
      exact ⟨_, .act (.declare rfl) .nil, hrep.declare hself none,
        (Spares.refl _ _ _).update (.inl (List.mem_cons_self ..)) _, rfl⟩
  | bindNothing h pattern ascribed init _ _ he ih =>
    rintro _ s s' c r ⟨⟩ hp haw _ hrep hev
    have haw := haw.of_sublist (sublist_declared_bind h pattern ascribed init.parts)
    have hinit := haw.of_sublist (List.sublist_cons_self ..)
    cases hev with
    | bind _ _ _ _ hei =>
      obtain ⟨c', hrun, hrep', hsp, _⟩ := ih rfl hp.tail.right hinit trivial hrep (.effect init hei)
      have hself := haw.head he.grows hsp
      refine ⟨c', hrun, hrep'.forget (hself.ready.new _ (List.mem_singleton_self _)) _, ?_, rfl⟩
      exact (hsp.mono (sublist_declared_init h pattern ascribed init.parts).subset).update
        (.inl (List.mem_cons_self ..)) _
    | bindLeft _ _ _ _ hei => exact ih rfl hp.tail.right hinit trivial hrep (.effect init hei)
  | bind h pattern ascribed init _ _ he ih =>
    rintro _ s s' c r ⟨⟩ hp haw _ hrep hev
    have haw := haw.of_sublist (sublist_declared_bind h pattern ascribed init.parts)
    have hinit := haw.of_sublist (List.sublist_cons_self ..)
    cases hev with
    | bind _ _ _ _ hei =>
      obtain ⟨c', hrun, hrep', hsp, hl⟩ := ih rfl hp.tail.right hinit trivial hrep hei
      have hself := haw.head he.grows hsp
      refine ⟨_, hrun.append (.act (.start ⟨hl, rfl⟩ rfl) .nil), hrep'.declare hself _, ?_, rfl⟩
      exact (hsp.mono (sublist_declared_init h pattern ascribed init.parts).subset).update
        (.inl (List.mem_cons_self ..)) _
    | bindLeft _ _ _ _ hei => exact (ih rfl hp.tail.right hinit trivial hrep hei).early _
  | stmtsNil =>
    rintro _ s s' c r ⟨⟩ _ _ _ hrep hev
    cases hev with
    | stmtsNil => exact .nothing hrep rfl
  | stmtsCons st rest hst _ ihs ihr =>
    rintro _ s s' c r ⟨⟩ hp haw _ hrep hev
    cases hev with
    | stmtsCons _ _ hes her =>
      have hfirst := ihs rfl hp.left haw.partsLeft trivial hrep hes
      exact (hfirst.append hst.grows fun c₁ hrep₁ hsp _ =>
        ihr rfl hp.right (haw.partsRight hst.grows hsp) trivial hrep₁ her).both
    | stmtsLeft _ _ hes => exact (ihs rfl hp.left haw.partsLeft trivial hrep hes).early _

end MiddleEnd.Lower
