/-
  Steps of checking that depend on a part of the table only. A region says which nodes a step may
  write (`own`), which it may read (`seen`) and which of its own may be unsettled (`loose`). A step is
  local to a region if from any two tables that agree on the nodes seen it comes to the same result
  or fault, reports the same, leaves tables that agree there again, and has written its own nodes
  only (`Region.Local`). The check of an expression is local wherever its names are bound to nodes
  seen (`Region.local_expr`).
-/
import MiddleEnd.Proofs.Check.Evolution
import MiddleEnd.Proofs.Tables.Reordered
import MiddleEnd.Proofs.Ty.Alike

namespace MiddleEnd

namespace Check

variable {α β : Type} {s s' : Scope}

/-! ## What a run comes to -/

/-- From progress `p` the step comes to `r`, reports `ds` and leaves tables `u`, where only nodes in
`own` have changed. -/
structure Comes (own : IrId → Prop) (m : Check α) (p : Progress) (r : Except Fault α)
    (ds : List Diagnostic) (u : TypeTable) : Prop where
  result : (m.run.run p).1 = r
  diagnostics : (m.run.run p).2.diagnostics = p.diagnostics ++ ds
  types : (m.run.run p).2.types = u
  same : SameBut own p.types u
  setting : SameSetting p.types u

namespace Comes

variable {own : IrId → Prop} {m : Check α} {f : α → Check β} {p : Progress}
  {ds es : List Diagnostic} {u v : TypeTable}

theorem fault {e : Fault} (h : Comes own m p (.error e) ds u) :
    Comes own (m >>= f) p (.error e) ds u := by
  have hrun : (m >>= f).run.run p = (.error e, (m.run.run p).2) := by
    rw [run_bind]
    rcases hr : m.run.run p with ⟨r, q⟩
    have hresult := h.result
    rw [hr] at hresult
    cases hresult
    rfl
  refine ⟨?_, ?_, ?_, h.same, h.setting⟩ <;> rw [hrun]
  · exact h.diagnostics
  · exact h.types

theorem bind {a : α} {r : Except Fault β} (h : Comes own m p (.ok a) ds u)
    (k : Comes own (f a) (m.run.run p).2 r es v) : Comes own (m >>= f) p r (ds ++ es) v := by
  have hrun : (m >>= f).run.run p = (f a).run.run (m.run.run p).2 := by
    rw [run_bind]
    rcases hr : m.run.run p with ⟨r, q⟩
    have hresult := h.result
    rw [hr] at hresult
    cases hresult
    rfl
  have hsame := k.same
  have hset := k.setting
  rw [h.types] at hsame hset
  refine ⟨?_, ?_, ?_, h.same.trans hsame, h.setting.trans hset⟩ <;> rw [hrun]
  · exact k.result
  · rw [k.diagnostics, h.diagnostics, List.append_assoc]
  · exact k.types

end Comes

end Check

/-! ## Regions -/

/-- The nodes that a step may write and read, and those of its own that may be unsettled. -/
structure Region where
  /-- The table before the first check. -/
  start : TypeTable
  own : IrId → Prop
  seen : IrId → Prop
  loose : IrId → Prop
  own_of_loose : ∀ {id}, loose id → own id

namespace Region

open Check

/-- Two tables in the course of checks that started from one, and what is known of both: they agree
on the nodes seen, of which only loose ones are unsettled. -/
structure Agree (R : Region) (t t' : TypeTable) : Prop where
  setting : SameSetting t t'
  builtinIds : t.builtinIds = R.start.builtinIds
  builtins : ∀ {name ty}, t.builtin? name = some ty → ty.settled = true
  stack : ∀ ty ∈ t.returns, ty.settled = true
  entries : ∀ {id}, R.seen id → t'.get? id = t.get? id
  settled : ∀ {id ty}, R.seen id → t.get? id = some ty →
    ty.settled = true ∨ ty.isInfer = true ∧ R.loose id

/-- From tables that agree the steps come to one result, which is as `Q` says, report the same and
leave tables that agree. -/
def Local (R : Region) {α : Type} (Q : α → Prop) (m m' : Check α) : Prop :=
  ∀ ⦃p q : Progress⦄, R.Agree p.types q.types → ∃ r ds u u',
    Comes R.own m p r ds u ∧ Comes R.own m' q r ds u' ∧ R.Agree u u' ∧ ∀ a, r = .ok a → Q a

variable {R : Region} {α β : Type} {s s' : Scope} {t t' : TypeTable}

namespace Agree

theorem record (h : R.Agree t t') (id : IrId) {ty : Ty}
    (hty : ty.settled = true ∨ ty.isInfer = true ∧ R.loose id) :
    R.Agree (t.record id ty) (t'.record id ty) where
  setting := ⟨h.setting.builtins, h.setting.builtinIds, h.setting.returns⟩
  builtinIds := h.builtinIds
  builtins := h.builtins
  stack := h.stack
  entries hseen := by
    rw [TypeTable.get?_record, TypeTable.get?_record, h.entries hseen]
  settled := by
    intro other ty' hseen hget
    rw [TypeTable.get?_record] at hget
    split at hget
    · rename_i he
      cases hget
      rw [he]
      exact hty
    · exact h.settled hseen hget

theorem pushReturn (h : R.Agree t t') {ty : Ty} (hty : ty.settled = true) :
    R.Agree (t.pushReturn ty) (t'.pushReturn ty) where
  setting := ⟨h.setting.builtins, h.setting.builtinIds, congrArg (ty :: ·) h.setting.returns⟩
  builtinIds := h.builtinIds
  builtins := h.builtins
  stack ty' hm := by
    rcases List.mem_cons.1 hm with rfl | hm
    · exact hty
    · exact h.stack ty' hm
  entries := h.entries
  settled := h.settled

theorem popReturn (h : R.Agree t t') : R.Agree t.popReturn.2 t'.popReturn.2 where
  setting := ⟨h.setting.builtins, h.setting.builtinIds, congrArg List.tail h.setting.returns⟩
  builtinIds := h.builtinIds
  builtins := h.builtins
  stack ty hm := h.stack ty (List.mem_of_mem_tail hm)
  entries := h.entries
  settled := h.settled

theorem builtin? (h : R.Agree t t') (name : String) : t'.builtin? name = t.builtin? name := by
  unfold TypeTable.builtin?
  rw [h.setting.builtins]

theorem return? (h : R.Agree t t') : t'.return? = t.return? := by
  unfold TypeTable.return?
  rw [h.setting.returns]

end Agree

namespace Local

variable {Q : α → Prop} {P : β → Prop} {m m' : Check α} {f f' : α → Check β}

theorem mono {Q' : α → Prop} (h : R.Local Q m m') (hQ : ∀ a, Q a → Q' a) : R.Local Q' m m' := by
  intro p p' hp
  obtain ⟨r, ds, u, u', hc, hc', hu, hq⟩ := h hp
  exact ⟨r, ds, u, u', hc, hc', hu, fun a ha => hQ a (hq a ha)⟩

theorem bind (hm : R.Local Q m m') (hf : ∀ a, Q a → R.Local P (f a) (f' a)) :
    R.Local P (m >>= f) (m' >>= f') := by
  intro p p' hp
  obtain ⟨r, ds, u, u', hc, hc', hu, hq⟩ := hm hp
  cases r with
  | error e => exact ⟨.error e, ds, u, u', hc.fault, hc'.fault, hu, nofun⟩
  | ok a =>
    have hstates : R.Agree (m.run.run p).2.types (m'.run.run p').2.types := by
      rw [hc.types, hc'.types]
      exact hu
    obtain ⟨r, es, v, v', hd, hd', hv, hq'⟩ := hf a (hq a rfl) hstates
    exact ⟨r, ds ++ es, v, v', hc.bind hd, hc'.bind hd', hv, hq'⟩

theorem pure {a : α} (h : Q a) : R.Local Q (Pure.pure a) (Pure.pure a) := by
  intro p p' hp
  refine ⟨.ok a, [], p.types, p'.types, ⟨rfl, (List.append_nil _).symm, rfl, .refl _, .refl _⟩,
    ⟨rfl, (List.append_nil _).symm, rfl, .refl _, .refl _⟩, hp, ?_⟩
  rintro _ ⟨⟩
  exact h

theorem throw (e : Fault) : R.Local Q (throw e) (throw e) := by
  intro p p' hp
  exact ⟨.error e, [], p.types, p'.types,
    ⟨rfl, (List.append_nil _).symm, rfl, .refl _, .refl _⟩,
    ⟨rfl, (List.append_nil _).symm, rfl, .refl _, .refl _⟩, hp, nofun⟩

/-- Steps that look at the progress first. -/
theorem get {f f' : Progress → Check α}
    (h : ∀ p p' : Progress, R.Agree p.types p'.types → R.Local Q (f p) (f' p')) :
    R.Local Q (MonadState.get >>= f) (MonadState.get >>= f') := by
  intro p p' hp
  obtain ⟨r, ds, u, u', hc, hc', hu, hq⟩ := h p p' hp hp
  exact ⟨r, ds, u, u', ⟨hc.result, hc.diagnostics, hc.types, hc.same, hc.setting⟩,
    ⟨hc'.result, hc'.diagnostics, hc'.types, hc'.same, hc'.setting⟩, hu, hq⟩

theorem discard (h : R.Local Q m m') : R.Local (fun _ => True) (discard m) (discard m') :=
  h.bind fun _ _ => .pure trivial

theorem forM {f f' : α → Check PUnit} :
    ∀ {l : List α}, (∀ a ∈ l, R.Local (fun _ => True) (f a) (f' a)) →
      R.Local (fun _ => True) (l.forM f) (l.forM f')
  | [], _ => .pure trivial
  | _ :: _, h => by
    obtain ⟨ha, hl⟩ := List.forall_mem_cons.1 h
    exact ha.bind fun _ _ => forM hl

end Local

/-! ## Single steps -/

/-- A type that was found is settled. -/
def Found (r : Option Ty) : Prop := ∀ ty, r = some ty → ty.settled = true

theorem found_none : Found none := by
  intro ty h
  cases h

theorem found_some {a : Ty} (h : a.settled = true) : Found (some a) := by
  rintro _ ⟨⟩
  exact h

theorem local_note (e : Event) : R.Local (fun _ => True) (note e) (note e) :=
  fun _ _ hp => ⟨.ok (), [], _, _, ⟨rfl, (List.append_nil _).symm, rfl, .refl _, .refl _⟩,
    ⟨rfl, (List.append_nil _).symm, rfl, .refl _, .refl _⟩, hp, fun _ _ => trivial⟩

theorem local_report (l : Location) (p : Problem) :
    R.Local (fun _ => True) (report l p) (report l p) :=
  fun _ _ hp => ⟨.ok (), [⟨.error, p, l⟩], _, _, ⟨rfl, rfl, rfl, .refl _, .refl _⟩,
    ⟨rfl, rfl, rfl, .refl _, .refl _⟩, hp, fun _ _ => trivial⟩

theorem local_reject (l : Location) (p : Problem) : R.Local Found (reject l p) (reject l p) :=
  (local_report l p).bind fun _ _ => .pure found_none

theorem local_fatal {Q : α → Prop} (l : Location) (p : Problem) :
    R.Local Q (fatal l p) (fatal l p) :=
  fun _ _ hp => ⟨.error (.fatal l p), [⟨.fatal, p, l⟩], _, _,
    ⟨rfl, rfl, rfl, .refl _, .refl _⟩, ⟨rfl, rfl, rfl, .refl _, .refl _⟩, hp, nofun⟩

theorem local_defect {Q : α → Prop} (d : Defect) : R.Local Q (defect d) (defect d) :=
  .throw _

/-- What is recorded is settled, or unsettled as a whole and at a loose node. -/
theorem local_record {id : IrId} {a : Ty} (hid : R.own id)
    (ha : a.settled = true ∨ a.isInfer = true ∧ R.loose id) :
    R.Local (fun _ => True) (record id a) (record id a) :=
  fun p p' hp => ⟨.ok (), [], p.types.record id a, p'.types.record id a,
    ⟨rfl, (List.append_nil _).symm, rfl, (SameBut.refl _).record hid a, .record _ _ _⟩,
    ⟨rfl, (List.append_nil _).symm, rfl, (SameBut.refl _).record hid a, .record _ _ _⟩,
    hp.record id ha, fun _ _ => trivial⟩

theorem local_typeOf? {id : IrId} (hid : R.seen id) :
    R.Local (fun r => ∀ ty, r = some ty → ty.settled = true ∨ ty.isInfer = true ∧ R.loose id)
      (typeOf? id) (typeOf? id) := by
  refine .get fun p p' hp => ?_
  rw [hp.entries hid]
  exact .pure fun ty hty => hp.settled hid hty

theorem local_return? : R.Local Found return? return? := by
  refine .get fun p p' hp => ?_
  rw [hp.return?]
  exact .pure fun ty hty => hp.stack ty (List.mem_of_head? hty)

theorem local_inFunction {Q : α → Prop} {ty : Ty} (hty : ty.settled = true) {m m' : Check α}
    (h : R.Local Q m m') : R.Local Q (inFunction ty m) (inFunction ty m') := by
  -- the stack of return types is what it was before
  have hpop : ∀ {m : Check α} {p : Progress} {r : Except Fault α} {ds : List Diagnostic}
      {u : TypeTable}, Comes R.own m { p with types := p.types.pushReturn ty } r ds u →
      Comes R.own (inFunction ty m) p r ds u.popReturn.2 := by
    intro m p r ds u hc
    exact ⟨hc.result, hc.diagnostics, congrArg (·.popReturn.2) hc.types, hc.same,
      hc.setting.builtins, hc.setting.builtinIds, congrArg List.tail hc.setting.returns⟩
  intro p p' hp
  obtain ⟨r, ds, u, u', hc, hc', hu, hq⟩ :=
    h (p := { p with types := p.types.pushReturn ty })
      (q := { p' with types := p'.types.pushReturn ty }) (hp.pushReturn hty)
  exact ⟨r, ds, _, _, hpop hc, hpop hc', hu.popReturn, hq⟩

theorem local_recordingAs {id : IrId} (hid : R.loose id) {Q : Option Ty → Prop}
    (hQ : ∀ ty, Q (some ty) → ty.settled = true ∨ ty.isInfer = true) {m m' : Check (Option Ty)}
    (h : R.Local Q m m') : R.Local Q (recording id m) (recording id m') := by
  refine h.bind fun r hr => ?_
  cases r with
  | none => exact .pure hr
  | some ty =>
    have hty := (hQ ty hr).imp_right fun hi => And.intro hi hid
    exact (local_record (R.own_of_loose hid) hty).bind fun _ _ => .pure hr

theorem local_recording {id : IrId} (hid : R.loose id) {m m' : Check (Option Ty)}
    (h : R.Local Found m m') : R.Local Found (recording id m) (recording id m') :=
  local_recordingAs hid (fun ty hr => .inl (hr ty rfl)) h

theorem local_combine (a b : Ty) : R.Local (fun r => r = a.combine b) (combine a b) (combine a b) :=
  fun _ _ hp => ⟨.ok (a.combine b), [], _, _,
    ⟨rfl, (List.append_nil _).symm, rfl, .refl _, .refl _⟩,
    ⟨rfl, (List.append_nil _).symm, rfl, .refl _, .refl _⟩, hp, fun _ h => (Except.ok.inj h).symm⟩

theorem local_reconcile {a b : Ty} (ha : a.isInfer = true ∨ a.settled = true)
    (hb : b.settled = true) (l : Location) :
    R.Local Found (reconcile a b l) (reconcile a b l) := by
  refine (local_combine a b).bind fun r hr => ?_
  cases r with
  | error m => exact local_reject l (.mismatch m)
  | ok c => exact .pure (found_some (Ty.settled_combine? ha hb (combine_eq_ok.1 hr.symm)))

theorem local_fits {a : Ty} {b : Option Ty} (ha : a.settled = true) (hb : Found b) (l : Location) :
    R.Local (fun _ => True) (fits a b l) (fits a b l) := by
  cases b with
  | none => exact .pure trivial
  | some ty => exact (local_reconcile (.inr ha) (hb ty rfl) l).bind fun _ _ => .pure trivial

/-! ## Names -/

section

variable (hs : s.Alike s')
include hs

theorem declaration_alike (e : Expr) : declaration s' e = declaration s e := by
  unfold declaration
  simp only [hs.name?, hs.definition?, hs.node?]

theorem local_identifier {e : Expr} (hd : ∀ id, declaration s e = .ok id → R.seen id)
    (isTarget : Bool) :
    R.Local (fun r => ∀ ty, r = some ty → ty.settled = true ∨
        (ty.isInfer = true ∧ isTarget = true) ∧ ∀ id, declaration s e = .ok id → R.loose id)
      (identifier s e isTarget) (identifier s' e isTarget) := by
  unfold identifier
  rw [declaration_alike hs]
  cases hid : declaration s e with
  | error p => exact (local_reject e.locus p).mono fun r hr ty hty => .inl (hr ty hty)
  | ok id =>
    refine (local_typeOf? (hd id hid)).bind fun r hr => ?_
    cases r with
    | none =>
      dsimp only
      rw [hs.location]
      exact (local_reject _ _).mono fun r hr ty hty => .inl (hr ty hty)
    | some t =>
      dsimp only
      split
      · exact (local_reject _ _).mono fun r hr ty hty => .inl (hr ty hty)
      · rename_i hnot
        refine .pure ?_
        rintro _ ⟨⟩
        refine (hr t rfl).imp_right fun ⟨hi, hl⟩ => ⟨⟨hi, ?_⟩, ?_⟩
        · cases isTarget with
          | true => rfl
          | false => exact absurd (by rw [hi]; rfl) hnot
        · rintro _ ⟨⟩
          exact hl

/-- The node that a binding leads to, as callees and struct literals look it up. -/
theorem local_typeAt {c : CrateNumber} {decl : SurfaceId}
    (hseen : ∀ id, s.registry.node? ⟨c, decl⟩ = some id → R.seen id) (l : Location)
    (shown : String) :
    R.Local (fun r => ∀ ty, r = some ty → ty.settled = true ∨ ty.isInfer = true)
      (match s.registry.node? ⟨c, decl⟩ with
        | none => reject l .noSuchNode
        | some i => do
          match ← typeOf? i with
          | none => reject l (.untyped shown)
          | some t => return some t)
      (match s'.registry.node? ⟨c, decl⟩ with
        | none => reject l .noSuchNode
        | some i => do
          match ← typeOf? i with
          | none => reject l (.untyped shown)
          | some t => return some t) := by
  rw [hs.node?]
  cases hnode : s.registry.node? ⟨c, decl⟩ with
  | none => exact (local_reject l _).mono fun r hr ty hty => .inl (hr ty hty)
  | some i =>
    refine (local_typeOf? (hseen i hnode)).bind fun r hr => ?_
    cases r with
    | none => exact (local_reject l _).mono fun r hr ty hty => .inl (hr ty hty)
    | some t => exact .pure fun ty hty => (hr ty hty).imp_right (·.1)

theorem local_calleeType {e callee : Expr}
    (hseen : ∀ decl id, s.bindings.name? callee.surface = some decl →
      s.registry.node? ⟨e.head.id.crate, decl⟩ = some id → R.seen id) :
    R.Local (fun r => ∀ ty, r = some ty → ty.settled = true ∨ ty.isInfer = true)
      (calleeType s e callee) (calleeType s' e callee) := by
  unfold calleeType
  rw [hs.name?]
  cases hname : s.bindings.name? callee.surface with
  | none => exact (local_reject _ _).mono fun r hr ty hty => .inl (hr ty hty)
  | some decl => exact local_typeAt hs (fun id => hseen decl id hname) e.locus e.text

theorem local_structType {e : Expr} {path : StructPath}
    (hseen : ∀ decl id, s.bindings.type? path.id.surface = some decl →
      s.registry.node? ⟨path.id.crate, decl⟩ = some id → R.seen id) :
    R.Local (fun r => ∀ ty, r = some ty → ty.settled = true ∨ ty.isInfer = true)
      (structType s e path) (structType s' e path) := by
  unfold structType
  rw [hs.type?]
  cases hname : s.bindings.type? path.id.surface with
  | none => exact (local_reject _ _).mono fun r hr ty hty => .inl (hr ty hty)
  | some decl => exact local_typeAt hs (fun id => hseen decl id hname) e.locus e.text

end

theorem local_literal (lit : Literal) :
    R.Local (fun ty => ty.settled = true) (literal lit) (literal lit) := by
  refine .get fun p p' hp => ?_
  rw [hp.builtin?]
  cases hb : p.types.builtin? lit.primitive.name with
  | none => exact local_defect _
  | some ty => exact .pure (hp.builtins hb)

/-! ## Several types at once -/

theorem local_settle : ∀ (types : List (Ty × Location)) {element : Ty}, element.settled = true →
    (∀ t ∈ types, t.1.settled = true) →
    R.Local Found (settle element types) (settle element types)
  | [], _, he, _ => .pure (found_some he)
  | (t, l) :: rest, _, he, hall => by
    obtain ⟨ht, hrest⟩ := List.forall_mem_cons.1 hall
    refine (local_reconcile (.inr he) ht l).bind fun r hr => ?_
    cases r with
    | none => exact .pure found_none
    | some next => exact local_settle rest (hr next rfl) hrest

theorem local_missingFields (l : Location) (struct : String) (given : List String) :
    ∀ decls : Members, R.Local (fun _ => True) (missingFields l struct given decls)
      (missingFields l struct given decls)
  | .nil => .pure trivial
  | .cons name _ rest => by
    unfold missingFields
    split
    · exact local_missingFields l struct given rest
    · exact (local_report l _).bind fun _ _ =>
        (local_missingFields l struct given rest).discard.bind fun _ _ => .pure trivial

theorem local_fieldInit {h : Head} (hid : R.loose h.id.ir) {declared value : Option Ty}
    (hd : Found declared) (hv : Found value) (p : Problem) :
    R.Local (fun _ => True) (fieldInit h declared p value) (fieldInit h declared p value) := by
  cases declared with
  | none => exact (local_report h.locus p).bind fun _ _ => .pure trivial
  | some t =>
    cases value with
    | none => exact .pure trivial
    | some v =>
      exact (local_recording hid (local_reconcile (.inr (hd t rfl)) (hv v rfl) h.locus)).bind
        fun _ _ => .pure trivial

theorem local_checkIndex (id : IrId) (position : Option Ty) :
    R.Local (fun _ => True) (checkIndex id position) (checkIndex id position) := by
  cases position with
  | none => exact .pure trivial
  | some t =>
    refine (local_combine (.int id .w32) t).bind fun r _ => ?_
    cases r with
    | ok _ => exact .pure trivial
    | error m => exact local_defect _

theorem local_combined (l : Location) {lhs rhs : Option Ty} (hl : Found lhs) (hr : Found rhs) :
    R.Local Found (combined l lhs rhs) (combined l lhs rhs) := by
  cases lhs with
  | none => exact .pure found_none
  | some a =>
    cases rhs with
    | none => exact .pure found_none
    | some b => exact local_reconcile (.inr (hl a rfl)) (hr b rfl) l

theorem local_branches {expected : Ty} (he : expected.settled = true) {thenType elseType : Option Ty}
    (ht : Found thenType) (hf : Found elseType) (thenLocus elseLocus : Location) :
    R.Local Found (branches expected thenType elseType thenLocus elseLocus)
      (branches expected thenType elseType thenLocus elseLocus) := by
  cases thenType with
  | none => exact .pure found_none
  | some a =>
    cases elseType with
    | none => exact .pure found_none
    | some b =>
      refine (local_reconcile (.inr he) (ht a rfl) thenLocus).bind fun r hr => ?_
      cases r with
      | none => exact .pure found_none
      | some t => exact local_reconcile (.inr (hr t rfl)) (hf b rfl) elseLocus

theorem local_elementOf {base position : Option Ty} (hb : Found base) (l : Location) :
    R.Local Found (elementOf base position l) (elementOf base position l) := by
  cases position with
  | none => exact .pure found_none
  | some p =>
    cases base with
    | none => exact .pure found_none
    | some b =>
      cases b with
      | array r element capacity =>
        exact .pure (found_some (hb (.array r element capacity) rfl))
      | error r => exact .pure (found_some rfl)
      | _ => exact local_fatal l _

theorem settled_of_mapM_id : ∀ {rest : List (Option Ty)} {types : List Ty},
    (∀ r ∈ rest, Found r) → rest.mapM id = some types → ∀ ty ∈ types, ty.settled = true
  | [], _, _, h => by
    cases h
    exact fun _ hm => absurd hm List.not_mem_nil
  | r :: rest, types, hall, h => by
    obtain ⟨hr, hrest⟩ := List.forall_mem_cons.1 hall
    rw [List.mapM_cons] at h
    obtain ⟨ty, hty, h⟩ := Option.bind_eq_some_iff.1 h
    obtain ⟨tys, htys, h⟩ := Option.bind_eq_some_iff.1 h
    cases h
    exact List.forall_mem_cons.2 ⟨hr ty hty, settled_of_mapM_id hrest htys⟩

theorem local_arrayOf (ref : IrId) {first : Option Ty} {rest : List (Option Ty)}
    (hf : Found first) (hr : ∀ r ∈ rest, Found r) (loci : List Location) :
    R.Local Found (arrayOf ref first rest loci) (arrayOf ref first rest loci) := by
  unfold arrayOf
  cases first with
  | none => exact .pure found_none
  | some t =>
    cases htypes : rest.mapM id with
    | none => exact .pure found_none
    | some types =>
      have hall : ∀ x ∈ types.zip loci, x.1.settled = true := fun x hx =>
        settled_of_mapM_id hr htypes _ (List.of_mem_zip hx).1
      refine (local_settle (types.zip loci) (hf t rfl) hall).bind fun r hr => ?_
      cases r with
      | none => exact .pure found_none
      | some element => exact .pure (found_some (hr element rfl))

/-- The type of a `let` is unsettled only if nothing says it. -/
theorem local_letType (id : IrId) {annotated : Option Ty} {init : Option (Option Ty × Location)}
    (ha : Found annotated) (hi : ∀ v ∈ init, Found v.1) :
    R.Local (fun ty => ty.settled = true ∨ ty.isInfer = true) (letType id annotated init)
      (letType id annotated init) := by
  cases annotated with
  | none =>
    rcases init with _ | ⟨_ | v, l⟩
    · exact .pure (.inr rfl)
    · exact .pure (.inl rfl)
    · exact .pure (.inl (hi _ rfl v rfl))
  | some t =>
    rcases init with _ | ⟨_ | v, l⟩
    · exact .pure (.inl (ha t rfl))
    · exact .pure (.inl (ha t rfl))
    · refine (local_reconcile (.inr (ha t rfl)) (hi _ rfl v rfl) l).bind fun r hr => ?_
      cases r with
      | none => exact .pure (.inl (ha t rfl))
      | some both => exact .pure (.inl (hr both rfl))

/-- The type of a `let`, recorded for its pattern and for itself. -/
theorem local_variable {h pattern : IrId} (hh : R.loose h) (hp : R.loose pattern) {ty : Ty}
    (hty : ty.settled = true ∨ ty.isInfer = true) :
    R.Local (fun _ => True) (record pattern ty >>= fun _ => record h ty)
      (record pattern ty >>= fun _ => record h ty) :=
  (local_record (R.own_of_loose hp) (hty.imp_right fun hi => ⟨hi, hp⟩)).bind fun _ _ =>
    local_record (R.own_of_loose hh) (hty.imp_right fun hi => ⟨hi, hh⟩)

/-! ## Assignments -/

section

variable (hs : s.Alike s')
include hs

theorem local_settleDeclaration {target : Expr} {before after : Ty}
    (hd : before.isInfer = true → ∀ id, declaration s target = .ok id → R.loose id)
    (ha : after.settled = true) :
    R.Local (fun _ => True) (settleDeclaration s target before after)
      (settleDeclaration s' target before after) := by
  unfold settleDeclaration
  rw [declaration_alike hs]
  split
  · rename_i hi
    cases hid : declaration s target with
    | error p => exact .pure trivial
    | ok id => exact local_record (R.own_of_loose (hd hi id hid)) (.inl ha)
  · exact .pure trivial

theorem local_assigned (h : Head) {target : Expr} (hid : R.loose target.ir)
    {targetType valueType : Option Ty}
    (ht : ∀ ty, targetType = some ty → ty.settled = true ∨
      ty.isInfer = true ∧ ∀ id, declaration s target = .ok id → R.loose id)
    (hv : Found valueType) :
    R.Local Found (assigned s h target targetType valueType)
      (assigned s' h target targetType valueType) := by
  cases targetType with
  | none => exact .pure found_none
  | some tt =>
    cases valueType with
    | none => exact .pure found_none
    | some vt =>
      have hsides : tt.isInfer = true ∨ tt.settled = true :=
        (ht tt rfl).symm.imp_left fun h => h.1
      refine (local_recording hid (local_reconcile hsides (hv vt rfl) h.locus)).bind fun r hr => ?_
      cases r with
      | none => exact .pure found_none
      | some t =>
        refine (local_settleDeclaration hs ?_ (hr t rfl)).bind fun _ _ => .pure hr
        intro hi
        rcases ht tt rfl with hset | hloose
        · rw [Ty.isInfer_of_settled hset] at hi
          cases hi
        · exact hloose.2

/-! ## Annotations -/

/-- The named annotations among the parts mean nodes that the region sees and that are settled. -/
def Resolves (R : Region) (s : Scope) (parts : List Part) : Prop :=
  ∀ g name id, .ascription (.path g name) ∈ parts → pathTarget? s R.start g = some id →
    R.seen id ∧ ¬ R.loose id

omit hs in
theorem Resolves.mono {parts parts' : List Part} (h : R.Resolves s parts)
    (hp : parts' ⊆ parts) : R.Resolves s parts' :=
  fun g name id hm => h g name id (hp hm)

theorem pathTarget?_alike {t t' : TypeTable} (ht : t'.builtinIds = t.builtinIds)
    (g : Head) : pathTarget? s' t' g = pathTarget? s t g := by
  unfold pathTarget? TypeTable.builtinId?
  rw [hs.type?, ht]
  simp only [hs.node?]

theorem local_typeExpr : ∀ (a : TypeExpr), (∀ id ∈ a.ids, R.own id) → R.Resolves s a.parts →
    R.Local (fun ty => ty.settled = true) (typeExpr s a) (typeExpr s' a)
  | .unit h, hn, _ =>
    (local_record (hn _ (List.mem_singleton_self _)) (.inl rfl)).bind fun _ _ => .pure rfl
  | .array h element capacity, hn, hp => by
    obtain ⟨hh, hn⟩ := List.forall_mem_cons.1 hn
    exact (local_typeExpr element hn (hp.mono (List.subset_cons_self ..))).bind fun ty hty =>
      (local_record (a := .array h.id.ir ty capacity.toNat) hh (.inl hty)).bind fun _ _ =>
      .pure (Q := fun a : Ty => a.settled = true) (a := Ty.array h.id.ir ty capacity.toNat) hty
  | .path h name, hn, hp => by
    have hh := hn _ (List.mem_singleton_self _)
    refine .get fun p p' hpp => ?_
    have htarget : pathTarget? s p.types h = pathTarget? s R.start h :=
      pathTarget?_congr hpp.builtinIds h
    have hty : ∀ id, pathTarget? s p.types h = some id → R.seen id ∧ ¬ R.loose id :=
      fun id hid => hp h name id (List.mem_singleton_self _) (htarget.symm.trans hid)
    have htype : pathType? s' p'.types h = pathType? s p.types h := by
      unfold pathType?
      rw [pathTarget?_alike hs hpp.setting.builtinIds]
      cases hid : pathTarget? s p.types h with
      | none => rfl
      | some id => exact hpp.entries (hty id hid).1
    rw [htype]
    cases hfound : pathType? s p.types h with
    | none =>
      exact (local_report _ _).bind fun _ _ => (local_record hh (.inl rfl)).bind fun _ _ =>
        .pure rfl
    | some ty =>
      obtain ⟨id, hid, hget⟩ := Option.bind_eq_some_iff.1 hfound
      have hset : ty.settled = true := by
        obtain ⟨hseen, hnot⟩ := hty id hid
        exact (hpp.settled hseen hget).resolve_right fun h => hnot h.2
      exact (local_record hh (.inl hset)).bind fun _ _ => .pure hset

theorem local_typeExpr? (a : Option TypeExpr) (hn : ∀ id ∈ TypeExpr.idsOf a, R.own id)
    (hp : R.Resolves s (TypeExpr.partsOf a)) :
    R.Local Found (typeExpr? s a) (typeExpr? s' a) := by
  cases a with
  | none => exact .pure found_none
  | some a => exact (local_typeExpr hs a hn hp).bind fun ty hty => .pure (found_some hty)

end

/-! ## Expressions -/

/-- The parts are the region's own, and what they name it sees. -/
structure Holds (R : Region) (s : Scope) (parts : List Part) : Prop where
  nodes : ∀ p ∈ parts, ∀ id ∈ p.irs, R.loose id
  names : ∀ g x id, .expr (.identifier g x) ∈ parts →
    declaration s (.identifier g x) = .ok id → R.seen id
  callees : ∀ h f args decl id, .expr (.call h f args) ∈ parts →
    s.bindings.name? f.surface = some decl → s.registry.node? ⟨h.id.crate, decl⟩ = some id →
    R.seen id
  paths : R.Resolves s parts
  structs : ∀ h path fs decl id, .expr (.struct h path fs) ∈ parts →
    s.bindings.type? path.id.surface = some decl →
    s.registry.node? ⟨path.id.crate, decl⟩ = some id → R.seen id

namespace Holds

variable {parts parts' : List Part}

theorem mono (h : R.Holds s parts) (hp : parts' ⊆ parts) : R.Holds s parts' where
  nodes p hm := h.nodes p (hp hm)
  names g x id hm := h.names g x id (hp hm)
  callees f args decl id i hm := h.callees f args decl id i (hp hm)
  paths := h.paths.mono hp
  structs g path fs decl id hm := h.structs g path fs decl id (hp hm)

theorem tail {p : Part} (h : R.Holds s (p :: parts)) : R.Holds s parts :=
  h.mono (List.subset_cons_self ..)

theorem left (h : R.Holds s (parts ++ parts')) : R.Holds s parts :=
  h.mono (List.subset_append_left ..)

theorem right (h : R.Holds s (parts ++ parts')) : R.Holds s parts' :=
  h.mono (List.subset_append_right ..)

theorem node {e : Expr} (h : R.Holds s (.expr e :: parts)) : R.loose e.ir :=
  h.nodes _ (List.mem_cons_self ..) _ (List.mem_singleton_self _)

theorem annotation {a : Option TypeExpr} (h : R.Holds s (TypeExpr.partsOf a)) :
    ∀ id ∈ TypeExpr.idsOf a, R.own id := by
  intro id hid
  rw [← TypeExpr.irsAll_partsOf] at hid
  obtain ⟨p, hp, hid⟩ := List.mem_flatMap.1 hid
  exact R.own_of_loose (h.nodes p hp id hid)

end Holds

mutual

/-- Checking an expression is local to a region that holds its parts. -/
theorem local_expr (hs : s.Alike s') : ∀ (e : Expr) (final : Bool), R.Holds s e.parts →
    R.Local Found (expr s e final) (expr s' e final)
  | .literal h lit, _, hp => by
    rw [expr, expr]
    exact local_recording hp.node ((local_literal lit).bind fun _ hty => .pure (found_some hty))
  | .identifier h name, _, hp => by
    rw [expr, expr]
    refine local_recording hp.node ((local_identifier hs
      (fun id => hp.names h name id (List.mem_cons_self ..)) false).mono ?_)
    exact fun r hr ty hty => (hr ty hty).resolve_right fun h => Bool.false_ne_true h.1.2
  | .ret h none, _, hp => by
    rw [expr, expr]
    refine local_recording hp.node (local_return?.bind fun r hr => ?_)
    cases r with
    | none => exact local_defect _
    | some result => exact local_reconcile (.inr (hr result rfl)) rfl h.locus
  | .ret h (some value), _, hp => by
    rw [expr, expr]
    refine local_recording hp.node (local_return?.bind fun r hr => ?_)
    cases r with
    | none => exact local_defect _
    | some result =>
      refine (local_expr hs value false hp.tail).bind fun v hv => ?_
      cases v with
      | none => exact .pure found_none
      | some t => exact local_reconcile (.inr (hr result rfl)) (hv t rfl) h.locus
  | .call h callee args, _, hp => by
    rw [expr, expr]
    refine local_recording hp.node ((local_calleeType hs (e := .call h callee args)
      fun decl id => hp.callees h callee args decl id (List.mem_cons_self ..)).bind fun r hr => ?_)
    have hargs := local_exprs hs args hp.tail.tail
    cases r with
    | none => exact .pure found_none
    | some t =>
      cases t with
      | error r => exact hargs.discard.bind fun _ _ => .pure (found_some rfl)
      | fn r params result =>
        have hty : (Ty.fn r params result).settled = true :=
          (hr _ rfl).resolve_right Bool.false_ne_true
        rw [Ty.settled, Bool.and_eq_true] at hty
        dsimp only
        split
        · exact local_reject h.locus _
        · refine (local_arguments hs params args hty.1 hp.tail.tail).bind fun ok _ => .pure ?_
          cases ok
          · exact found_none
          · exact found_some hty.2
      | _ => exact local_reject h.locus _
  | .assign h target value, _, hp => by
    have hparts := hp.tail
    by_cases hn : ∀ g name, target ≠ .identifier g name
    · rw [expr_assign hn, expr_assign hn]
      have htarget : R.loose target.ir :=
        hp.nodes _ (List.mem_cons_of_mem _ (List.mem_append_left _ target.self_mem_parts)) _
          (List.mem_singleton_self _)
      exact local_recording hp.node ((local_expr hs target false hparts.left).bind fun tt htt =>
        (local_expr hs value false hparts.right).bind fun vt hvt =>
        local_assigned hs h htarget (fun ty hty => .inl (htt ty hty)) hvt)
    · obtain ⟨g, name, rfl⟩ : ∃ g name, target = .identifier g name := by simpa using hn
      have hname := hparts.left
      rw [expr, expr]
      refine local_recording hp.node ((local_recordingAs (hname.node (e := .identifier g name)) ?_
        (local_identifier hs (fun id => hname.names g name id (List.mem_cons_self ..)) true)).bind
          fun tt htt => (local_expr hs value false hparts.right).bind fun vt hvt =>
          local_assigned hs h (hname.node (e := .identifier g name)) ?_ hvt)
      · exact fun ty hr => (hr ty rfl).imp_right fun h => h.1.1
      · exact fun ty hty => (htt ty hty).imp_right fun h => ⟨h.1.1, h.2⟩
  | .binary h op lhs rhs, _, hp => by
    rw [expr, expr]
    exact local_recording hp.node ((local_expr hs lhs false hp.tail.left).bind fun l hl =>
      (local_expr hs rhs false hp.tail.right).bind fun r hr => local_combined h.locus hl hr)
  | .ifOnly h condition body, _, hp => by
    rw [expr, expr]
    exact local_recording hp.node ((local_expr hs condition false hp.tail.left).discard.bind
      fun _ _ => (local_expr hs body false hp.tail.right).discard.bind fun _ _ =>
      .pure (found_some rfl))
  | .ifElse h condition thenBody elseBody, false, hp => by
    rw [expr, expr]
    exact local_recording hp.node ((local_expr hs condition false hp.tail.left).discard.bind
      fun _ _ => (local_expr hs thenBody false hp.tail.right.left).discard.bind fun _ _ =>
      (local_expr hs elseBody false hp.tail.right.right).discard.bind fun _ _ =>
      .pure (found_some rfl))
  | .ifElse h condition thenBody elseBody, true, hp => by
    rw [expr, expr]
    refine local_recording hp.node (local_return?.bind fun r hr => ?_)
    cases r with
    | none => exact local_defect _
    | some expected =>
      exact (local_expr hs condition false hp.tail.left).discard.bind fun _ _ =>
        (local_expr hs thenBody true hp.tail.right.left).bind fun tt htt =>
        (local_expr hs elseBody true hp.tail.right.right).bind fun et het =>
        local_branches (hr expected rfl) htt het thenBody.locus elseBody.locus
  | .ifElseIf h condition thenBody elseIf, _, hp => by
    rw [expr, expr]
    exact local_recording hp.node ((local_expr hs condition false hp.tail.left).discard.bind
      fun _ _ => (local_expr hs thenBody false hp.tail.right.left).discard.bind fun _ _ =>
      (local_expr hs elseIf false hp.tail.right.right).discard.bind fun _ _ =>
      .pure (found_some rfl))
  | .block h body none, _, hp => by
    rw [expr, expr]
    exact local_recording hp.node ((local_stmts hs body hp.tail).bind fun _ _ =>
      .pure (found_some rfl))
  | .block h body (some tail), final, hp => by
    rw [expr, expr]
    exact local_recording hp.node ((local_stmts hs body hp.tail.left).bind fun _ _ =>
      local_expr hs tail final hp.tail.right)
  | .index h base position, _, hp => by
    rw [expr, expr]
    exact local_recording hp.node ((local_expr hs position false hp.tail.right).bind fun pt _ =>
      (local_checkIndex position.ir pt).bind fun _ _ =>
      (local_expr hs base false hp.tail.left).bind fun bt hbt => local_elementOf hbt base.locus)
  | .array h [], _, hp => by
    rw [expr, expr]
    exact local_recording hp.node (local_reject h.locus _)
  | .array h (first :: rest), _, hp => by
    rw [expr, expr]
    exact local_recording hp.node ((local_expr hs first false hp.tail.left).bind fun ft hft =>
      (local_exprs hs rest hp.tail.right).bind fun types htypes =>
      local_arrayOf h.id.ir hft htypes (rest.map Expr.locus))
  | .copies h element count, _, hp => by
    rw [expr, expr]
    refine local_recording hp.node ((local_expr hs element false hp.tail).bind fun r hr => ?_)
    cases r with
    | none => exact .pure found_none
    | some t => exact .pure (found_some (a := .array h.id.ir t count.toNat) (hr t rfl))
  | .struct h path fields, _, hp => by
    rw [expr, expr]
    refine local_recording hp.node ((local_structType hs (e := .struct h path fields)
      fun decl id => hp.structs h path fields decl id (List.mem_cons_self ..)).bind fun r hr => ?_)
    cases r with
    | none => exact .pure found_none
    | some t =>
      cases t with
      | struct r name decls =>
        have hty : (Ty.struct r name decls).settled = true :=
          (hr _ rfl).resolve_right Bool.false_ne_true
        refine (local_fieldInits hs name hty fields hp.tail.tail).bind fun ok _ =>
          (local_missingFields h.locus name (fields.map FieldInit.name) decls).bind fun full _ =>
          .pure ?_
        split
        · exact found_some hty
        · exact found_none
      | _ => exact local_reject h.locus _

theorem local_exprs (hs : s.Alike s') : ∀ es : List Expr, R.Holds s (Expr.partsAll es) →
    R.Local (fun rs => ∀ r ∈ rs, Found r) (exprs s es) (exprs s' es)
  | [], _ => .pure fun _ hm => absurd hm List.not_mem_nil
  | e :: rest, hp => by
    rw [exprs, exprs]
    exact (local_expr hs e false hp.left).bind fun _ ht =>
      (local_exprs hs rest hp.right).bind fun _ hts =>
      .pure (List.forall_mem_cons.2 ⟨ht, hts⟩)

theorem local_arguments (hs : s.Alike s') : ∀ (params : Members) (es : List Expr),
    params.settled = true → R.Holds s (Expr.partsAll es) →
    R.Local (fun _ => True) (arguments s params es) (arguments s' params es)
  | .nil, _, _, _ => by
    rw [arguments, arguments]
    · exact .pure trivial
    · simp
    · simp
  | .cons _ _ _, [], _, _ => .pure trivial
  | .cons _ param params, e :: rest, hparams, hp => by
    rw [Members.settled, Bool.and_eq_true] at hparams
    rw [arguments, arguments]
    exact (local_expr hs e false hp.left).bind fun t ht =>
      (local_fits hparams.1 ht e.locus).bind fun ok _ =>
      (local_arguments hs params rest hparams.2 hp.right).bind fun others _ => .pure trivial

theorem local_fieldInits (hs : s.Alike s') (struct : String) {decls : Members}
    (hd : decls.settled = true) : ∀ fs : List FieldInit, R.Holds s (FieldInit.partsAll fs) →
    R.Local (fun _ => True) (fieldInits s struct decls fs) (fieldInits s' struct decls fs)
  | [], _ => .pure trivial
  | .mk h name value :: rest, hp => by
    rw [fieldInits, fieldInits]
    have hh : R.loose h.id.ir :=
      hp.nodes _ (List.mem_cons_self ..) _ (List.mem_singleton_self _)
    exact (local_expr hs value false hp.tail.left).bind fun t ht =>
      (local_fieldInit hh (fun ty => Members.settled_find? hd) ht _).bind fun ok _ =>
      (local_fieldInits hs struct hd rest hp.tail.right).bind fun others _ => .pure trivial

theorem local_stmt (hs : s.Alike s') : ∀ st : Stmt, R.Holds s st.parts →
    R.Local (fun _ => True) (stmt s st) (stmt s' st)
  | .expr e, hp => by
    rw [stmt, stmt]
    exact (local_expr hs e false hp).discard
  | .bind h pattern annotated none, hp => by
    rw [stmt, stmt]
    have hids := hp.nodes _ (List.mem_cons_self ..)
    exact (local_typeExpr? hs annotated hp.tail.annotation hp.tail.paths).bind fun a ha =>
      (local_letType h.id.ir ha (fun _ hv => by cases hv)).bind fun t ht =>
      local_variable (hids _ (List.mem_cons_self ..))
        (hids _ (List.mem_cons_of_mem _ (List.mem_singleton_self _))) ht
  | .bind h pattern annotated (some init), hp => by
    rw [stmt, stmt]
    have hids := hp.nodes _ (List.mem_cons_self ..)
    exact (local_typeExpr? hs annotated hp.tail.left.annotation hp.tail.left.paths).bind fun a ha =>
      (local_expr hs init false hp.tail.right).bind fun v hv =>
      (local_letType h.id.ir ha (fun _ hw => by cases hw; exact hv)).bind fun t ht =>
      local_variable (hids _ (List.mem_cons_self ..))
        (hids _ (List.mem_cons_of_mem _ (List.mem_singleton_self _))) ht

theorem local_stmts (hs : s.Alike s') : ∀ sts : List Stmt, R.Holds s (Stmt.partsAll sts) →
    R.Local (fun _ => True) (stmts s sts) (stmts s' sts)
  | [], _ => .pure trivial
  | st :: rest, hp => by
    rw [stmts, stmts]
    exact (local_stmt hs st hp.left).bind fun _ _ => local_stmts hs rest hp.right

end

end Region

end MiddleEnd
