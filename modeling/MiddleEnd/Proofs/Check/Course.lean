/-
  What ends a check, and what a check that is ended leaves behind. Whatever happens, the primitive
  types stay as they are, return types are taken away again, and all that is reported is errors, but
  for the fatal problem that a check ends with (`Framed`). In expressions there are few reasons to
  end (`Cause`): an index into a value that is no array, an index that is no `i32`, a `return` where
  there is no function, and a literal without a primitive type.

  What holds from step to step is a `Course`: which nodes have a type, which of them the type of a
  function, and which function. Such a node may not be one that an expression records its own type
  for, and no place may be bound to it (`Course.Spares`). A name as a target is no danger: its declaration gets
  another type only where it has none that is settled.
-/
import MiddleEnd.Proofs.Check.Coverage
import MiddleEnd.Proofs.Check.Silence

namespace MiddleEnd

/-- What is reported of a fault as it arises. -/
def Fault.reports : Fault → List Diagnostic
  | .fatal l p => [⟨.fatal, p, l⟩]
  | _ => []

namespace Check

/-- Primitive types and return types are as in `b`, and since `ds` errors were reported, and `last`
after them. -/
structure Framed (b : TypeTable) (ds last : List Diagnostic) (p : Progress) : Prop where
  builtins : p.types.builtins = b.builtins
  returns : p.types.returns = b.returns
  reported : ∃ es : List Diagnostic,
    (∀ d ∈ es, d.severity = .error) ∧ p.diagnostics = ds ++ es ++ last

namespace Framed

variable {b : TypeTable} {ds : List Diagnostic} {p : Progress}

theorem refl (p : Progress) : Framed p.types p.diagnostics [] p where
  builtins := rfl
  returns := rfl
  reported := ⟨[], nofun, by rw [List.append_nil, List.append_nil]⟩

theorem report (h : Framed b ds [] p) (l : Location) (q : Problem) :
    Framed b ds [] (p.report ⟨.error, q, l⟩) where
  builtins := h.builtins
  returns := h.returns
  reported := by
    obtain ⟨es, hes, hd⟩ := h.reported
    refine ⟨es ++ [⟨.error, q, l⟩], fun d hd => ?_, ?_⟩
    · rcases List.mem_append.1 hd with hd | hd
      · exact hes d hd
      · rw [List.mem_singleton.1 hd]
    · show p.diagnostics ++ [_] = _
      rw [hd]
      simp only [List.append_assoc, List.append_nil]

theorem fatal (h : Framed b ds [] p) (l : Location) (q : Problem) :
    Framed b ds [⟨.fatal, q, l⟩] (p.report ⟨.fatal, q, l⟩) where
  builtins := h.builtins
  returns := h.returns
  reported := by
    obtain ⟨es, hes, hd⟩ := h.reported
    refine ⟨es, hes, ?_⟩
    show p.diagnostics ++ [_] = _
    rw [hd, List.append_nil]

/-- A function is left again. -/
theorem pop {t : Ty} {last : List Diagnostic} (h : Framed (b.pushReturn t) ds last p) :
    Framed b ds last { p with types := p.types.popReturn.2 } where
  builtins := h.builtins
  returns := congrArg List.tail h.returns
  reported := h.reported

end Framed

/-- Why a check of the parts, begun with table `b`, ends in a fault and leaves table `t`. -/
inductive Cause (parts : List Part) (b t : TypeTable) : Fault → Prop
  | notAnArray {h : Head} {base position : Expr} {ty : Ty}
      (part : .expr (.index h base position) ∈ parts) (typed : t.get? base.ir = some ty)
      (array : ty.array? = none) (error : ty.isError = false) :
      Cause parts b t (.fatal base.locus .notAnArray)
  | indexType {h : Head} {base position : Expr} {ty : Ty} {m : Mismatch}
      (part : .expr (.index h base position) ∈ parts) (typed : t.get? position.ir = some ty)
      (mismatch : (Ty.int position.ir .w32).combine ty = .error m) :
      Cause parts b t (.internal (.indexType m))
  | returnOutside {h : Head} {value : Option Expr} (part : .expr (.ret h value) ∈ parts)
      (outside : b.returns = []) : Cause parts b t (.internal .returnOutside)
  | missingBuiltin {q : Primitive} (missing : b.builtin? q.name = none) :
      Cause parts b t (.internal (.missingBuiltin q.name))

theorem Cause.congr {parts : List Part} {b t u : TypeTable} {e : Fault} (h : Cause parts b t e)
    (hget : ∀ id, u.get? id = t.get? id) : Cause parts b u e := by
  cases h with
  | notAnArray part typed array error =>
    exact .notAnArray part ((hget _).trans typed) array error
  | indexType part typed mismatch => exact .indexType part ((hget _).trans typed) mismatch
  | returnOutside part outside => exact .returnOutside part outside
  | missingBuiltin missing => exact .missingBuiltin missing

/-- What has to hold from step to step of a check. -/
structure Course where
  /-- The table and the reports that the check began with. -/
  start : TypeTable
  before : List Diagnostic
  /-- Nodes that have a type. -/
  typed : IrId → Prop
  /-- Nodes that have the type of a function. -/
  functions : IrId → Prop
  /-- Which types these may have. -/
  allowed : IrId → Ty → Prop := fun _ _ => True

namespace Course

variable {k : Course} {s : Scope} {parts : List Part} {p : Progress} {E : Fault → Progress → Prop}

structure On (k : Course) (p : Progress) : Prop extends Framed k.start k.before [] p where
  typed : ∀ id, k.typed id → p.types.Has id
  functions : ∀ id, k.functions id →
    ∃ r ps t, p.types.get? id = some (.fn r ps t) ∧ k.allowed id (.fn r ps t)

/-- How a check of the parts ends early. -/
structure Ends (k : Course) (parts : List Part) (e : Fault) (p : Progress) : Prop
    extends Framed k.start k.before e.reports p where
  cause : Cause parts k.start p.types e

/-- No type but that of a function comes to the nodes of functions. -/
structure Spares (k : Course) (s : Scope) (parts : List Part) : Prop where
  nodes : ∀ q ∈ parts, ∀ id ∈ q.irs, ¬ k.functions id
  places : ∀ q ∈ parts, ∀ e, q.place? = some e → ∀ id, declaration s e = .ok id →
    ¬ k.functions id

theorem Spares.node (h : k.Spares s parts) {e : Expr} (he : .expr e ∈ parts) :
    ¬ k.functions e.ir :=
  h.nodes _ he _ (List.mem_singleton_self _)

/-- The step stays on the course, or ends with `E`. -/
abbrev Stays {α : Type} (k : Course) (E : Fault → Progress → Prop) (m : Check α) : Prop :=
  Triple k.On m (fun _ => k.On) E

namespace On

theorem note (h : k.On p) (es : List Event) : k.On (p.note es) where
  toFramed := ⟨h.builtins, h.returns, h.reported⟩
  typed := h.typed
  functions := h.functions

theorem report (h : k.On p) (l : Location) (q : Problem) : k.On (p.report ⟨.error, q, l⟩) where
  toFramed := h.toFramed.report l q
  typed := h.typed
  functions := h.functions

theorem record (h : k.On p) {id : IrId} {t : Ty}
    (ht : k.functions id → (∃ r ps u, t = .fn r ps u) ∧ k.allowed id t) :
    k.On (p.record id t) where
  toFramed := ⟨h.builtins, h.returns, h.reported⟩
  typed other ho := TypeTable.has_record.2 (.inr (h.typed other ho))
  functions other ho := by
    show ∃ r ps u, (p.types.record id t).get? other = _ ∧ _
    rw [TypeTable.get?_record]
    split
    · rename_i he
      subst other
      obtain ⟨⟨r, ps, u, rfl⟩, hallowed⟩ := ht ho
      exact ⟨r, ps, u, rfl, hallowed⟩
    · exact h.functions other ho

end On

/-! ## Single steps -/

theorem stays_pure {α : Type} (a : α) : k.Stays E (pure a) := .pure fun _ h => h

theorem stays_note (e : Event) : k.Stays E (Check.note e) := .modify fun _ h => h.note [e]

theorem stays_report (l : Location) (q : Problem) : k.Stays E (Check.report l q) :=
  .modify fun _ h => h.report l q

theorem stays_reject (l : Location) (q : Problem) : k.Stays E (reject l q) :=
  (stays_report l q).bind fun _ => stays_pure none

theorem stays_record {id : IrId} (hid : ¬ k.functions id) (t : Ty) : k.Stays E (record id t) :=
  .modify fun _ h => h.record fun hf => absurd hf hid

theorem stays_recording {id : IrId} {m : Check (Option Ty)} (hid : ¬ k.functions id)
    (h : k.Stays E m) : k.Stays E (recording id m) := by
  refine h.bind fun r => ?_
  cases r with
  | none => exact stays_pure none
  | some t => exact (stays_record hid t).bind fun _ => stays_pure (some t)

/-- Recording what satisfies `T` leaves it so. -/
theorem triple_recording {T : Option Ty → Prop} {id : IrId} {m : Check (Option Ty)}
    (hid : ¬ k.functions id) (h : Triple k.On m (fun r p => k.On p ∧ T r) E) :
    Triple k.On (recording id m) (fun r p => k.On p ∧ T r) E := by
  refine h.bind fun r => .given fun hr => ?_
  cases r with
  | none => exact .pure fun _ hp => ⟨hp, hr⟩
  | some t => exact (stays_record hid t).bind fun _ => .pure fun _ hp => ⟨hp, hr⟩

theorem stays_reconcile (x y : Ty) (l : Location) : k.Stays E (reconcile x y l) := by
  have hcombine : k.Stays E (combine x y) :=
    Triple.bind (.modify fun _ h => h.note _) fun _ => stays_pure _
  refine hcombine.bind fun r => ?_
  cases r with
  | ok t => exact stays_pure (some t)
  | error m => exact stays_reject l _

theorem stays_fits (x : Ty) (r : Option Ty) (l : Location) : k.Stays E (fits x r l) := by
  cases r with
  | none => exact stays_pure false
  | some t => exact (stays_reconcile x t l).bind fun _ => stays_pure _

/-- Inside a function the course is the same but for the return type. -/
def inside (k : Course) (t : Ty) : Course := { k with start := k.start.pushReturn t }

theorem stays_inFunction {α : Type} {t : Ty} {m : Check α} {E' : Fault → Progress → Prop}
    (h : (k.inside t).Stays E' m)
    (hE : ∀ e q, E' e q → E e { q with types := q.types.popReturn.2 }) :
    k.Stays E (inFunction t m) := by
  have hpush : ∀ p, k.On p → (k.inside t).On { p with types := p.types.pushReturn t } :=
    fun p hp => ⟨⟨hp.builtins, congrArg (t :: ·) hp.returns, hp.reported⟩, hp.typed, hp.functions⟩
  constructor
  · intro p hp a q hr
    rw [run_inFunction] at hr
    rcases hm : m.run.run { p with types := p.types.pushReturn t } with ⟨e | b, v⟩ <;> rw [hm] at hr
    · cases hr
    · have hv := h.result _ (hpush p hp) b v hm
      cases hr
      exact ⟨hv.toFramed.pop, hv.typed, hv.functions⟩
  · intro p hp e q hr
    rw [run_inFunction] at hr
    rcases hm : m.run.run { p with types := p.types.pushReturn t } with ⟨e' | b, v⟩ <;>
      rw [hm] at hr
    · have hv := h.fault _ (hpush p hp) e' v hm
      cases hr
      exact hE _ _ hv
    · cases hr

/-- What the course tells of the type that is found for the node. -/
structure Finds (k : Course) (id : IrId) (r : Option Ty) : Prop where
  typed : k.typed id → r ≠ none
  function : k.functions id → ∃ ref ps t, r = some (.fn ref ps t)

theorem triple_typeOf? (id : IrId) :
    Triple k.On (typeOf? id) (fun r p => k.On p ∧ k.Finds id r) E :=
  .get fun p hp => .pure fun _ hq => ⟨hq,
    { typed := fun ht hn => by
        have hhas := hp.typed id ht
        unfold TypeTable.Has at hhas
        rw [hn] at hhas
        cases hhas
      function := fun hf => by
        obtain ⟨r, ps, t, hget, -⟩ := hp.functions id hf
        exact ⟨r, ps, t, hget⟩ }⟩

theorem stays_typeOf? (id : IrId) : k.Stays E (typeOf? id) :=
  .get fun _ _ => stays_pure _

/-- There is a return type for every function that a step is in. -/
theorem triple_return? : Triple k.On return?
    (fun r p => k.On p ∧ (r = none → k.start.returns = [])) E :=
  .get fun _ hp => .pure fun _ hq => ⟨hq, fun hnone => hp.returns ▸ List.head?_eq_none_iff.1 hnone⟩

theorem stays_returnOutside {α : Type} {h : Head} {value : Option Expr}
    (hp : .expr (.ret h value) ∈ parts) (hr : k.start.returns = []) :
    k.Stays (k.Ends parts) (defect .returnOutside : Check α) :=
  .throw fun _ hq => ⟨hq.toFramed, .returnOutside hp hr⟩

/-! ## Names -/

/-- A name is given the type of its declaration. A declaration without a settled type is no
function. -/
theorem triple_identifier (e : Expr) (isTarget : Bool) :
    Triple k.On (identifier s e isTarget) (fun r p => k.On p ∧ ∀ t ∈ r, t.isInfer = true →
      ∀ id, declaration s e = .ok id → ¬ k.functions id) E := by
  have hreject : ∀ l q, Triple k.On (reject l q) (fun r p => k.On p ∧ ∀ t ∈ r, t.isInfer = true →
      ∀ id, declaration s e = .ok id → ¬ k.functions id) E := fun l q =>
    (stays_report l q).bind fun _ => .pure fun p hp => ⟨hp, nofun⟩
  unfold identifier
  split
  · exact hreject _ _
  · rename_i id hid
    refine (triple_typeOf? id).bind fun r => .given fun hr => ?_
    cases r with
    | none => exact hreject _ _
    | some t =>
      dsimp only
      split
      · exact hreject _ _
      · refine .pure fun p hp => ⟨hp, fun u hu hinfer other ho hf => ?_⟩
        cases hu
        obtain rfl : id = other := Except.ok.inj (hid.symm.trans ho)
        obtain ⟨ref, ps, v, hfn⟩ := hr.function hf
        cases hfn
        cases hinfer

theorem stays_identifier (e : Expr) (isTarget : Bool) : k.Stays E (identifier s e isTarget) :=
  (triple_identifier e isTarget).mono fun _ _ h => h.1

theorem stays_calleeType (e callee : Expr) : k.Stays E (calleeType s e callee) := by
  unfold calleeType
  split
  · exact stays_reject _ _
  · split
    · exact stays_reject _ _
    · refine (stays_typeOf? _).bind fun r => ?_
      cases r with
      | none => exact stays_reject _ _
      | some t => exact stays_pure _

theorem stays_structType (e : Expr) (path : StructPath) : k.Stays E (structType s e path) := by
  unfold structType
  split
  · exact stays_reject _ _
  · split
    · exact stays_reject _ _
    · refine (stays_typeOf? _).bind fun r => ?_
      cases r with
      | none => exact stays_reject _ _
      | some t => exact stays_pure _

theorem stays_literal (lit : Literal) : k.Stays (k.Ends parts) (literal lit) := by
  refine .get fun p hp => ?_
  cases ht : p.types.builtin? lit.primitive.name with
  | none =>
    refine .throw fun q hq => ⟨hq.toFramed, .missingBuiltin ?_⟩
    rw [← ht, TypeTable.builtin?, TypeTable.builtin?, hp.builtins]
  | some t => exact stays_pure t

/-! ## Several types at once -/

theorem stays_settle : ∀ (types : List (Ty × Location)) (element : Ty),
    k.Stays E (settle element types)
  | [], _ => stays_pure _
  | (t, l) :: rest, element => by
    refine (stays_reconcile element t l).bind fun r => ?_
    cases r with
    | none => exact stays_pure none
    | some next => exact stays_settle rest next

theorem stays_missingFields (l : Location) (struct : String) (given : List String) :
    ∀ decls : Members, k.Stays E (missingFields l struct given decls)
  | .nil => stays_pure true
  | .cons name t rest => by
    unfold missingFields
    split
    · exact stays_missingFields l struct given rest
    · exact (stays_report l _).bind fun _ =>
        (stays_missingFields l struct given rest).discard.bind fun _ => stays_pure false

theorem stays_fieldInit {h : Head} (declared value : Option Ty) (q : Problem)
    (hid : ¬ k.functions h.id.ir) : k.Stays E (fieldInit h declared q value) := by
  cases declared with
  | none => exact (stays_report _ q).bind fun _ => stays_pure false
  | some t =>
    cases value with
    | none => exact stays_pure false
    | some v => exact (stays_recording hid (stays_reconcile t v _)).bind fun _ => stays_pure _

theorem stays_combined (l : Location) (lhs rhs : Option Ty) : k.Stays E (combined l lhs rhs) := by
  unfold combined
  split
  · exact stays_reconcile _ _ l
  · exact stays_pure none

theorem stays_branches (expected : Ty) (thenType elseType : Option Ty) (l₁ l₂ : Location) :
    k.Stays E (branches expected thenType elseType l₁ l₂) := by
  unfold branches
  split
  · refine (stays_reconcile expected _ l₁).bind fun r => ?_
    cases r with
    | none => exact stays_pure none
    | some t => exact stays_reconcile t _ l₂
  · exact stays_pure none

theorem stays_arrayOf (id : IrId) (first : Option Ty) (rest : List (Option Ty))
    (loci : List Location) : k.Stays E (arrayOf id first rest loci) := by
  unfold arrayOf
  split
  · refine (stays_settle _ _).bind fun r => ?_
    cases r with
    | none => exact stays_pure none
    | some element => exact stays_pure _
  · exact stays_pure none

theorem stays_letType (id : IrId) (annotated : Option Ty) (init : Option (Option Ty × Location)) :
    k.Stays E (letType id annotated init) := by
  unfold letType
  split
  · refine (stays_reconcile _ _ _).bind fun r => ?_
    cases r with
    | none => exact stays_pure _
    | some both => exact stays_pure both
  all_goals exact stays_pure _

/-- An assignment leaves the types of functions alone if what it settles is no function. -/
theorem stays_assigned (h : Head) {target : Expr} {tt : Option Ty} (vt : Option Ty)
    (hid : ¬ k.functions target.ir)
    (hd : ∀ t ∈ tt, t.isInfer = true → ∀ id, declaration s target = .ok id → ¬ k.functions id) :
    k.Stays E (assigned s h target tt vt) := by
  unfold assigned
  split
  · rename_i t v
    refine (stays_recording hid (stays_reconcile t v h.locus)).bind fun r => ?_
    cases r with
    | none => exact stays_pure none
    | some both =>
      have hsettle : k.Stays E (settleDeclaration s target t both) := by
        unfold settleDeclaration
        split
        · rename_i hinfer
          split
          · rename_i id hid
            exact stays_record (hd t rfl hinfer id hid) both
          · exact stays_pure ()
        · exact stays_pure ()
      exact hsettle.bind fun _ => stays_pure _
  · exact stays_pure none

/-! ## Array indices -/

/-- What was recorded for an expression is still there. -/
def At (k : Course) (id : IrId) (r : Option Ty) (p : Progress) : Prop :=
  k.On p ∧ ∀ t ∈ r, p.types.get? id = some t

/-- What an expression comes to is recorded for it. -/
theorem Stays.recorded {e : Expr} {final : Bool} (h : k.Stays E (expr s e final)) :
    Triple k.On (expr s e final) (k.At e.ir) E where
  result p hp r q hr := ⟨h.result p hp r q hr, fun t ht => by
    obtain rfl : r = some t := ht
    have hrecorded := (answers_expr s e final p).recorded t
    rw [hr] at hrecorded
    exact hrecorded rfl⟩
  fault := h.fault

theorem triple_checkIndex {h : Head} {base position : Expr}
    (hp : .expr (.index h base position) ∈ parts) (r : Option Ty) :
    Triple (k.At position.ir r) (checkIndex position.ir r) (fun _ => k.On) (k.Ends parts) := by
  cases r with
  | none => exact .pure fun _ hq => hq.1
  | some t =>
    have hcombine : Triple (k.At position.ir (some t)) (combine (.int position.ir .w32) t)
        (fun c p => k.At position.ir (some t) p ∧ (Ty.int position.ir .w32).combine t = c)
        (k.Ends parts) :=
      Triple.bind (Q := fun _ => k.At position.ir (some t))
        (.modify fun _ hq => ⟨hq.1.note _, hq.2⟩) fun _ => .pure fun _ hq => ⟨hq, rfl⟩
    refine hcombine.bind fun c => .given fun hc => ?_
    cases c with
    | ok _ => exact .pure fun _ hq => hq.1
    | error m => exact .throw fun q hq => ⟨hq.1.toFramed, .indexType hp (hq.2 t rfl) hc⟩

theorem triple_elementOf {h : Head} {base position : Expr}
    (hp : .expr (.index h base position) ∈ parts) (r positionType : Option Ty) :
    Triple (k.At base.ir r) (elementOf r positionType base.locus) (fun _ => k.On)
      (k.Ends parts) := by
  unfold elementOf
  split
  · exact .pure fun _ hq => hq.1
  · exact .pure fun _ hq => hq.1
  · rename_i t harray herror
    have hnone : t.array? = none ∧ t.isError = false := by
      cases t with
      | array r element capacity => exact absurd rfl (harray r element capacity)
      | error r => exact absurd rfl (herror r)
      | _ => exact ⟨rfl, rfl⟩
    have hreport : Triple (k.At base.ir (some t))
        (modify (·.report ⟨.fatal, .notAnArray, base.locus⟩) : Check PUnit)
        (fun _ => k.Ends parts (.fatal base.locus .notAnArray)) (k.Ends parts) :=
      .modify fun q hq =>
        ⟨hq.1.toFramed.fatal _ _, .notAnArray hp (hq.2 t rfl) hnone.1 hnone.2⟩
    exact hreport.bind fun _ => .throw fun _ hq => hq
  · exact .pure fun _ hq => hq.1

/-! ## Annotations -/

theorem stays_typeExpr : ∀ {a : TypeExpr}, (∀ id ∈ a.ids, ¬ k.functions id) →
    k.Stays E (typeExpr s a)
  | .unit h, hk => by
    rw [typeExpr]
    exact (stays_record (hk _ List.mem_cons_self) _).bind fun _ => stays_pure _
  | .array h element capacity, hk => by
    obtain ⟨hid, helement⟩ := List.forall_mem_cons.1 hk
    rw [typeExpr]
    exact (stays_typeExpr helement).bind fun t => (stays_record hid _).bind fun _ => stays_pure _
  | .path h name, hk => by
    have hid := hk _ List.mem_cons_self
    rw [typeExpr]
    refine .get fun p _ => ?_
    split
    · exact (stays_record hid _).bind fun _ => stays_pure _
    · exact (stays_report _ _).bind fun _ => (stays_record hid _).bind fun _ => stays_pure _

theorem stays_typeExpr? : ∀ {a : Option TypeExpr}, (∀ id ∈ TypeExpr.idsOf a, ¬ k.functions id) →
    k.Stays E (typeExpr? s a)
  | none, _ => stays_pure none
  | some _, hk => (stays_typeExpr hk).bind fun _ => stays_pure _

theorem Spares.ascribed (h : k.Spares s parts) {a : Option TypeExpr}
    (ha : TypeExpr.partsOf a ⊆ parts) : ∀ id ∈ TypeExpr.idsOf a, ¬ k.functions id := by
  intro id hid
  rw [← TypeExpr.irsAll_partsOf] at hid
  obtain ⟨q, hq, hid⟩ := List.mem_flatMap.1 hid
  exact h.nodes q (ha hq) id hid

/-! ## Expressions -/

/-- What stands in tail position only need not be shown elsewhere. -/
theorem of_not_final {C : Prop} (h : false = true) : C := absurd h Bool.false_ne_true

mutual

/-- A check of an expression stays on the course, or ends for a reason that is found in the parts.
In tail position it has to stand in a function. -/
theorem stays_expr (hk : k.Spares s parts) : ∀ (e : Expr) (final : Bool), e.parts ⊆ parts →
    (final = true → k.start.returns ≠ []) → k.Stays (k.Ends parts) (expr s e final)
  | .literal h lit, _, hp, _ => by
    rw [expr]
    refine stays_recording (hk.node (hp (List.mem_singleton_self _))) ?_
    exact (stays_literal lit).bind fun _ => stays_pure _
  | .identifier h name, _, hp, _ => by
    rw [expr]
    exact stays_recording (hk.node (hp (List.mem_singleton_self _))) (stays_identifier _ false)
  | .ret h none, _, hp, _ => by
    have hself := hp (List.mem_singleton_self _)
    rw [expr]
    refine stays_recording (hk.node hself) (triple_return?.bind fun r => .given fun hr => ?_)
    cases r with
    | none => exact stays_returnOutside hself (hr rfl)
    | some result => exact stays_reconcile result _ h.locus
  | .ret h (some value), _, hp, _ => by
    rw [Expr.parts, List.cons_subset] at hp
    rw [expr]
    refine stays_recording (hk.node hp.1) (triple_return?.bind fun r => .given fun hr => ?_)
    cases r with
    | none => exact stays_returnOutside hp.1 (hr rfl)
    | some result =>
      refine (stays_expr hk value false hp.2 of_not_final).bind fun v => ?_
      cases v with
      | none => exact stays_pure none
      | some t => exact stays_reconcile result t h.locus
  | .call h callee args, _, hp, _ => by
    rw [Expr.parts, List.cons_subset, List.cons_subset] at hp
    obtain ⟨hself, -, hargs⟩ := hp
    rw [expr]
    refine stays_recording (hk.node hself) ((stays_calleeType _ callee).bind fun r => ?_)
    cases r with
    | none => exact stays_pure none
    | some t =>
      cases t with
      | error r => exact (stays_exprs hk args hargs).discard.bind fun _ => stays_pure _
      | fn r params result =>
        dsimp only
        split
        · exact stays_reject h.locus _
        · exact (stays_arguments hk params args hargs).bind fun ok => stays_pure _
      | _ => exact stays_reject h.locus _
  | .assign h target value, _, hp, _ => by
    rw [Expr.parts, List.cons_subset, List.append_subset] at hp
    obtain ⟨hself, htarget, hvalue⟩ := hp
    have hid : ¬ k.functions target.ir := hk.node (htarget target.self_mem_parts)
    by_cases hn : ∀ g name, target ≠ .identifier g name
    · rw [expr_assign hn]
      have hplace := hk.places _ hself target (Part.place?_assign hn)
      refine stays_recording (hk.node hself) ?_
      exact (stays_expr hk target false htarget of_not_final).bind fun tt =>
        (stays_expr hk value false hvalue of_not_final).bind fun vt =>
        stays_assigned h vt hid fun _ _ _ => hplace
    · obtain ⟨g, name, rfl⟩ : ∃ g name, target = .identifier g name := by simpa using hn
      rw [expr]
      refine stays_recording (hk.node hself) ?_
      refine (triple_recording hid (triple_identifier (.identifier g name) true)).bind fun tt =>
        .given fun htt => ?_
      exact (stays_expr hk value false hvalue of_not_final).bind fun vt =>
        stays_assigned h vt hid htt
  | .binary h op lhs rhs, _, hp, _ => by
    rw [Expr.parts, List.cons_subset, List.append_subset] at hp
    obtain ⟨hself, hl, hr⟩ := hp
    rw [expr]
    exact stays_recording (hk.node hself) ((stays_expr hk lhs false hl of_not_final).bind fun l =>
      (stays_expr hk rhs false hr of_not_final).bind fun r => stays_combined h.locus l r)
  | .ifOnly h condition body, _, hp, _ => by
    rw [Expr.parts, List.cons_subset, List.append_subset] at hp
    obtain ⟨hself, hc, hb⟩ := hp
    rw [expr]
    refine stays_recording (hk.node hself) ?_
    exact (stays_expr hk condition false hc of_not_final).discard.bind fun _ =>
      (stays_expr hk body false hb of_not_final).discard.bind fun _ => stays_pure _
  | .ifElse h condition thenBody elseBody, false, hp, _ => by
    rw [Expr.parts, List.cons_subset, List.append_subset, List.append_subset] at hp
    obtain ⟨hself, hc, ht, he⟩ := hp
    rw [expr]
    refine stays_recording (hk.node hself) ?_
    exact (stays_expr hk condition false hc of_not_final).discard.bind fun _ =>
      (stays_expr hk thenBody false ht of_not_final).discard.bind fun _ =>
      (stays_expr hk elseBody false he of_not_final).discard.bind fun _ => stays_pure _
  | .ifElse h condition thenBody elseBody, true, hp, hf => by
    rw [Expr.parts, List.cons_subset, List.append_subset, List.append_subset] at hp
    obtain ⟨hself, hc, ht, he⟩ := hp
    rw [expr]
    refine stays_recording (hk.node hself) (triple_return?.bind fun r => .given fun hr => ?_)
    cases r with
    | none => exact absurd (hr rfl) (hf rfl)
    | some expected =>
      exact (stays_expr hk condition false hc of_not_final).discard.bind fun _ =>
        (stays_expr hk thenBody true ht hf).bind fun tt =>
        (stays_expr hk elseBody true he hf).bind fun et =>
        stays_branches expected tt et thenBody.locus elseBody.locus
  | .ifElseIf h condition thenBody elseIf, _, hp, _ => by
    rw [Expr.parts, List.cons_subset, List.append_subset, List.append_subset] at hp
    obtain ⟨hself, hc, ht, he⟩ := hp
    rw [expr]
    refine stays_recording (hk.node hself) ?_
    exact (stays_expr hk condition false hc of_not_final).discard.bind fun _ =>
      (stays_expr hk thenBody false ht of_not_final).discard.bind fun _ =>
      (stays_expr hk elseIf false he of_not_final).discard.bind fun _ => stays_pure _
  | .block h body none, _, hp, _ => by
    rw [Expr.parts, List.cons_subset] at hp
    rw [expr]
    exact stays_recording (hk.node hp.1) ((stays_stmts hk body hp.2).bind fun _ => stays_pure _)
  | .block h body (some tail), final, hp, hf => by
    rw [Expr.parts, List.cons_subset, List.append_subset] at hp
    obtain ⟨hself, hbody, htail⟩ := hp
    rw [expr]
    exact stays_recording (hk.node hself) ((stays_stmts hk body hbody).bind fun _ =>
      stays_expr hk tail final htail hf)
  | .index h base position, _, hp, _ => by
    rw [Expr.parts, List.cons_subset, List.append_subset] at hp
    obtain ⟨hself, hb, hi⟩ := hp
    rw [expr]
    refine stays_recording (hk.node hself) ?_
    exact (stays_expr hk position false hi of_not_final).recorded.bind fun pt =>
      (triple_checkIndex hself pt).bind fun _ =>
      (stays_expr hk base false hb of_not_final).recorded.bind fun bt =>
      triple_elementOf hself bt pt
  | .array h [], _, hp, _ => by
    rw [expr]
    exact stays_recording (hk.node (hp (List.mem_cons_self ..))) (stays_reject h.locus _)
  | .array h (first :: rest), _, hp, _ => by
    rw [Expr.parts, List.cons_subset, Expr.partsAll, List.append_subset] at hp
    obtain ⟨hself, hfirst, hrest⟩ := hp
    rw [expr]
    refine stays_recording (hk.node hself) ?_
    exact (stays_expr hk first false hfirst of_not_final).bind fun ft =>
      (stays_exprs hk rest hrest).bind fun types => stays_arrayOf h.id.ir ft types _
  | .copies h element count, _, hp, _ => by
    rw [Expr.parts, List.cons_subset] at hp
    rw [expr]
    refine stays_recording (hk.node hp.1) ?_
    refine (stays_expr hk element false hp.2 of_not_final).bind fun r => ?_
    cases r with
    | none => exact stays_pure none
    | some t => exact stays_pure _
  | .struct h path fields, _, hp, _ => by
    rw [Expr.parts, List.cons_subset, List.cons_subset] at hp
    obtain ⟨hself, -, hfields⟩ := hp
    rw [expr]
    refine stays_recording (hk.node hself) ((stays_structType _ path).bind fun r => ?_)
    cases r with
    | none => exact stays_pure none
    | some t =>
      cases t with
      | struct r name decls =>
        exact (stays_fieldInits hk name decls fields hfields).bind fun ok =>
          (stays_missingFields h.locus name _ decls).bind fun full => stays_pure _
      | _ => exact stays_reject h.locus _

theorem stays_exprs (hk : k.Spares s parts) : ∀ es : List Expr, Expr.partsAll es ⊆ parts →
    k.Stays (k.Ends parts) (exprs s es)
  | [], _ => stays_pure []
  | e :: rest, hp => by
    rw [Expr.partsAll, List.append_subset] at hp
    rw [exprs]
    exact (stays_expr hk e false hp.1 of_not_final).bind fun _ =>
      (stays_exprs hk rest hp.2).bind fun _ => stays_pure _

theorem stays_arguments (hk : k.Spares s parts) : ∀ (params : Members) (es : List Expr),
    Expr.partsAll es ⊆ parts → k.Stays (k.Ends parts) (arguments s params es)
  | .nil, _, _ => by
    rw [arguments]
    · exact stays_pure true
    · simp
  | .cons _ _ _, [], _ => stays_pure true
  | .cons _ param params, e :: rest, hp => by
    rw [Expr.partsAll, List.append_subset] at hp
    rw [arguments]
    exact (stays_expr hk e false hp.1 of_not_final).bind fun t =>
      (stays_fits param t e.locus).bind fun _ =>
      (stays_arguments hk params rest hp.2).bind fun _ => stays_pure _

theorem stays_fieldInits (hk : k.Spares s parts) (struct : String) (decls : Members) :
    ∀ fs : List FieldInit, FieldInit.partsAll fs ⊆ parts →
      k.Stays (k.Ends parts) (fieldInits s struct decls fs)
  | [], _ => stays_pure true
  | .mk h name value :: rest, hp => by
    rw [FieldInit.partsAll, List.cons_subset, List.append_subset] at hp
    obtain ⟨hself, hvalue, hrest⟩ := hp
    have hid := hk.nodes _ hself _ (List.mem_singleton_self _)
    rw [fieldInits]
    exact (stays_expr hk value false hvalue of_not_final).bind fun t =>
      (stays_fieldInit (decls.find? name) t _ hid).bind fun _ =>
      (stays_fieldInits hk struct decls rest hrest).bind fun _ => stays_pure _

theorem stays_stmt (hk : k.Spares s parts) : ∀ st : Stmt, st.parts ⊆ parts →
    k.Stays (k.Ends parts) (stmt s st)
  | .expr e, hp => by
    rw [stmt]
    exact (stays_expr hk e false hp of_not_final).discard
  | .bind h pattern annotated none, hp => by
    rw [Stmt.parts, List.cons_subset] at hp
    have hids := hk.nodes _ hp.1
    rw [stmt]
    exact (stays_typeExpr? (hk.ascribed hp.2)).bind fun a =>
      (stays_letType h.id.ir a none).bind fun t =>
      (stays_record (hids _ (List.mem_cons_of_mem _ (List.mem_singleton_self _))) t).bind fun _ =>
      stays_record (hids _ (List.mem_cons_self ..)) t
  | .bind h pattern annotated (some init), hp => by
    rw [Stmt.parts, List.cons_subset, List.append_subset] at hp
    obtain ⟨hself, hannotated, hinit⟩ := hp
    have hids := hk.nodes _ hself
    rw [stmt]
    exact (stays_typeExpr? (hk.ascribed hannotated)).bind fun a =>
      (stays_expr hk init false hinit of_not_final).bind fun v =>
      (stays_letType h.id.ir a (some (v, init.locus))).bind fun t =>
      (stays_record (hids _ (List.mem_cons_of_mem _ (List.mem_singleton_self _))) t).bind fun _ =>
      stays_record (hids _ (List.mem_cons_self ..)) t

theorem stays_stmts (hk : k.Spares s parts) : ∀ sts : List Stmt, Stmt.partsAll sts ⊆ parts →
    k.Stays (k.Ends parts) (stmts s sts)
  | [], _ => stays_pure ()
  | st :: rest, hp => by
    rw [Stmt.partsAll, List.append_subset] at hp
    rw [stmts]
    exact (stays_stmt hk st hp.1).bind fun _ => stays_stmts hk rest hp.2

end

end Course

end Check

end MiddleEnd
