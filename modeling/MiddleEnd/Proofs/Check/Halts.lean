/-
  How a check of a whole program ends. Signatures never end it, and give every item a type before
  any body is looked at. A body may end it for one of the reasons of `Check.Cause`, or because the
  signature of its function is gone: an assignment whose target is no name records a type for the
  function that the target is bound to (`Session.stops_of_fault`).

  For any session, whatever its identities and bindings, a check reports errors only, and then the
  fatal problem that it ends with, if it does (`Session.framed_check`).
-/
import MiddleEnd.Proofs.Check.Course
import MiddleEnd.Proofs.Check.Outcome
import MiddleEnd.Proofs.Tables.Reserved

namespace MiddleEnd

namespace Check

variable {s : Scope} {b : TypeTable} {ds : List Diagnostic} {F : IrId → Prop} {p : Program}

namespace Course

variable {k : Course} {E : Fault → Progress → Prop}

/-! ## Signatures -/

theorem stays_params : ∀ {ps : List Param}, (∀ id ∈ ps.flatMap Param.ids, ¬ k.functions id) →
    k.Stays E (params s ps)
  | [], _ => stays_pure _
  | p :: rest, hk => by
    simp only [List.flatMap_cons, Param.ids_eq, List.forall_mem_append, List.forall_mem_cons] at hk
    obtain ⟨⟨hid, hpattern, htype⟩, hrest⟩ := hk
    rw [params]
    exact (stays_typeExpr htype).bind fun t => (stays_record hid t).bind fun _ =>
      (stays_record hpattern t).bind fun _ => (stays_params hrest).bind fun _ => stays_pure _

theorem stays_fieldDecls : ∀ {fs : List FieldDecl},
    (∀ id ∈ fs.flatMap FieldDecl.ids, ¬ k.functions id) → k.Stays E (fieldDecls s fs)
  | [], _ => stays_pure _
  | f :: rest, hk => by
    simp only [List.flatMap_cons, FieldDecl.ids_eq, List.forall_mem_append,
      List.forall_mem_cons] at hk
    obtain ⟨⟨hid, htype⟩, hrest⟩ := hk
    rw [fieldDecls]
    exact (stays_typeExpr htype).bind fun t => (stays_record hid _).bind fun _ =>
      (stays_fieldDecls hrest).bind fun _ => stays_pure _

/-- The signature of a function comes to the type of a function. -/
theorem triple_functionType (id : IrId) {d : FunctionDecl}
    (hp : ∀ id ∈ d.params.flatMap Param.ids, ¬ k.functions id)
    (hr : ∀ id ∈ TypeExpr.idsOf d.returns, ¬ k.functions id) :
    Triple k.On (functionType s id d) (fun t p => k.On p ∧ ∃ r ps u, t = .fn r ps u) E := by
  refine (stays_params hp).bind fun ps => ?_
  cases hreturns : d.returns with
  | none => exact .pure fun _ hp => ⟨hp, _, _, _, rfl⟩
  | some t =>
    rw [hreturns] at hr
    exact (stays_typeExpr hr).bind fun _ => .pure fun _ hp => ⟨hp, _, _, _, rfl⟩

theorem triple_signatureType {i : Item} (hk : ∀ id ∈ i.signatureIds.tail, ¬ k.functions id) :
    Triple k.On (signatureType s i)
      (fun t p => k.On p ∧ ((∃ d, i.kind = .function d) → ∃ r ps u, t = .fn r ps u)) E := by
  have hother : ∀ {m : Check Ty}, (∀ d, i.kind ≠ .function d) → k.Stays E m → Triple k.On m
      (fun t p => k.On p ∧ ((∃ d, i.kind = .function d) → ∃ r ps u, t = .fn r ps u)) E :=
    fun hi hm => hm.mono fun _ _ h => ⟨h, fun ⟨d, hd⟩ => absurd hd (hi d)⟩
  obtain ⟨h, kind⟩ := i
  cases kind with
  | function d =>
    obtain ⟨hparams, hreturns⟩ := List.forall_mem_append.1 hk
    exact (triple_functionType h.id.ir hparams hreturns).mono fun _ _ h => ⟨h.1, fun _ => h.2⟩
  | struct d => exact hother nofun ((stays_fieldDecls hk).bind fun ms => stays_pure _)
  | constant d => exact hother nofun (stays_typeExpr hk)
  | static d => exact hother nofun (stays_typeExpr hk)

/-- The course of a check once the items `done` have their types. Those of them in `F` are
functions. -/
def signed (b : TypeTable) (ds : List Diagnostic) (F : IrId → Prop) (done : List Item) :
    Course where
  start := b
  before := ds
  typed id := ∃ i ∈ done, i.head.id.ir = id
  functions id := F id ∧ ∃ i ∈ done, i.head.id.ir = id

/-- Of the nodes of an item only its own may be in `F`, and only if it is a function. -/
structure Owns (F : IrId → Prop) (i : Item) : Prop where
  function : F i.head.id.ir → ∃ d, i.kind = .function d
  signature : ∀ id ∈ i.signatureIds.tail, ¬ F id
  body : ∀ id ∈ i.bodyIds, ¬ F id

theorem owns_of_nodup (hn : p.ids.Nodup)
    (hF : ∀ id, F id → ∃ i ∈ p.items, (∃ d, i.kind = .function d) ∧ i.head.id.ir = id)
    {i : Item} (hi : i ∈ p.items) : Owns F i := by
  have hids : (i.signatureIds ++ i.bodyIds).Nodup :=
    i.ids_eq ▸ (List.nodup_flatten.1 (List.flatMap_def .. ▸ p.ids_eq ▸ hn)).1 _
      (List.mem_map_of_mem hi)
  obtain ⟨hsignature, -, hbody⟩ := List.nodup_append.1 hids
  -- what an item has in common with `F` is the item that is in `F`
  have hown : ∀ id ∈ i.ids, F id → (∃ d, i.kind = .function d) ∧ i.head.id.ir = id := by
    intro id hid hf
    obtain ⟨j, hj, hfunction, rfl⟩ := hF id hf
    obtain rfl := Program.item_eq_of_head hn hi hj hid
    exact ⟨hfunction, rfl⟩
  refine ⟨fun hf => (hown _ (i.signatureIds_subset i.head_mem_signatureIds) hf).1, ?_, ?_⟩
  · intro id hid hf
    have hhead := (hown id (i.signatureIds_subset (List.mem_of_mem_tail hid)) hf).2
    exact (List.nodup_cons.1 hsignature).1 (hhead ▸ hid)
  · intro id hid hf
    have hhead := (hown id (i.ids_eq ▸ List.mem_append_right _ hid) hf).2
    exact hbody _ i.head_mem_signatureIds id hid hhead

theorem triple_signature {i : Item} (hi : Owns F i) (done : List Item) :
    Triple (signed b ds F done).On (signature s i) (fun _ => (signed b ds F (done ++ [i])).On)
      E := by
  have htype : ∀ id ∈ i.signatureIds.tail, ¬ (signed b ds F done).functions id :=
    fun id hid hf => hi.signature id hid hf.1
  refine (triple_signatureType htype).bind fun t => .given fun ht => .modify fun p hp => ?_
  refine ⟨⟨hp.builtins, hp.returns, hp.reported⟩, ?_, ?_⟩
  · rintro id ⟨j, hj, rfl⟩
    refine TypeTable.has_record.2 ?_
    rcases List.mem_append.1 hj with hj | hj
    · exact .inr (hp.typed _ ⟨j, hj, rfl⟩)
    · exact .inl (by rw [List.mem_singleton.1 hj])
  · rintro id ⟨hid, j, hj, rfl⟩
    show ∃ r ps u, (p.types.record i.head.id.ir t).get? j.head.id.ir = _ ∧ _
    rw [TypeTable.get?_record]
    split
    · rename_i he
      obtain ⟨r, ps, u, rfl⟩ := ht (hi.function (he ▸ hid))
      exact ⟨r, ps, u, rfl, trivial⟩
    · rename_i hne
      rcases List.mem_append.1 hj with hj | hj
      · exact hp.functions _ ⟨hid, j, hj, rfl⟩
      · exact absurd (by rw [List.mem_singleton.1 hj]) hne

/-- Signatures do not end a check. -/
theorem triple_signatures {l : List Item} (hl : ∀ i ∈ l, Owns F i) :
    Triple (signed b ds F []).On (l.forM (signature s)) (fun _ => (signed b ds F l).On) E :=
  Triple.forM (I := fun done => (signed b ds F done).On) []
    fun before i hi => triple_signature (hl i hi) before

/-- Where there are no such functions, nothing is asked of items. -/
theorem owns_none (i : Item) : Owns (fun _ => False) i := ⟨nofun, fun _ _ h => h, fun _ _ h => h⟩

/-! ## Bodies -/

/-- Why the check of an item ends in a fault and leaves table `t`. -/
inductive Breaks (k : Course) (t : TypeTable) : Item → Fault → Prop
  | body {h : Head} {d : FunctionDecl} {result : Ty} {e : Fault}
      (cause : Cause d.body.parts (k.start.pushReturn result) t e) : Breaks k t ⟨h, .function d⟩ e
  | initial {i : Item} {value : Expr} {e : Fault} (value? : i.initial? = some value)
      (cause : Cause value.parts k.start t e) : Breaks k t i e
  | noSignature {h : Head} {d : FunctionDecl} (other : ¬ k.functions h.id.ir) :
      Breaks k t ⟨h, .function d⟩ (.internal (.noSignature d.name))

/-- How the check of one of the items ends early. -/
structure Broken (k : Course) (items : List Item) (e : Fault) (p : Progress) : Prop
    extends Framed k.start k.before e.reports p where
  item : ∃ i ∈ items, k.Breaks p.types i e

theorem stays_functionBody {h : Head} {d : FunctionDecl} {items : List Item}
    (hi : ⟨h, .function d⟩ ∈ items) (hk : k.Spares s d.body.parts) :
    k.Stays (k.Broken items) (functionBody s h.id.ir d) := by
  refine (triple_typeOf? h.id.ir).bind fun r => .given fun hr => ?_
  split
  · rename_i result
    have hinside : (k.inside result).Spares s d.body.parts := ⟨hk.nodes, hk.places⟩
    have hbody := stays_expr hinside d.body true (List.Subset.refl _) fun _ => List.cons_ne_nil _ _
    have hleft : k.Stays (k.Broken items) (inFunction result (expr s d.body true)) :=
      stays_inFunction hbody fun e q hq =>
        ⟨hq.toFramed.pop, _, hi, .body (hq.cause.congr fun _ => rfl)⟩
    refine (stays_note _).bind fun _ => hleft.bind fun t => ?_
    split
    · exact (stays_reconcile _ _ _).discard
    · exact stays_pure ()
  · rename_i hnone
    refine .throw fun q hq => ⟨hq.toFramed, _, hi, .noSignature fun hf => ?_⟩
    obtain ⟨ref, ps, t, rfl⟩ := hr.function hf
    exact hnone ref ps t rfl

theorem stays_initialValue {i : Item} {value : Expr} {items : List Item} (hi : i ∈ items)
    (hv : i.initial? = some value) (htyped : k.typed i.head.id.ir)
    (hk : k.Spares s value.parts) : k.Stays (k.Broken items) (initialValue s i value) := by
  refine (triple_typeOf? i.head.id.ir).bind fun r => .given fun hr => ?_
  cases r with
  | none => exact absurd rfl (hr.typed htyped)
  | some declared =>
    have hvalue : k.Stays (k.Broken items) (expr s value false) :=
      (stays_expr hk value false (List.Subset.refl _) of_not_final).mono_fault fun e q hq =>
        ⟨hq.toFramed, i, hi, .initial hv hq.cause⟩
    refine hvalue.bind fun v => ?_
    cases v with
    | none => exact stays_pure ()
    | some t => exact (stays_reconcile declared t _).discard

theorem stays_body {i : Item} {items : List Item} (hi : i ∈ items)
    (htyped : k.typed i.head.id.ir) (hk : k.Spares s i.bodyParts) :
    k.Stays (k.Broken items) (body s i) := by
  obtain ⟨h, kind⟩ := i
  cases kind with
  | function d => exact stays_functionBody hi hk
  | struct d => exact stays_pure ()
  | constant d => exact stays_initialValue hi rfl htyped hk
  | static d => exact stays_initialValue hi rfl htyped hk

/-! ## Programs -/

/-- A check of a program ends well or because of one of its items, where no places are bound to the
functions in `F`. -/
theorem stays_program (hF : ∀ i ∈ p.items, Owns F i)
    (hplaces : ∀ e ∈ p.places, ∀ id, declaration s e = .ok id → ¬ F id) :
    Triple (signed b ds F []).On (program s p)
      (fun _ => (signed b ds F (signatureOrder p.items)).On)
      ((signed b ds F (signatureOrder p.items)).Broken p.items) := by
  have hspares : ∀ i ∈ p.items,
      (signed b ds F (signatureOrder p.items)).Spares s i.bodyParts := fun i hi =>
    { nodes := fun q hq id hid hf =>
        (hF i hi).body id (i.irsAll_bodyParts ▸ List.mem_flatMap.2 ⟨q, hq, hid⟩) hf.1
      places := fun q hq e he id hid hf =>
        have hp : q ∈ p.parts := List.mem_flatMap.2 ⟨i, hi, List.mem_append_right _ hq⟩
        hplaces e (List.mem_filterMap.2 ⟨q, hp, he⟩) id hid hf.1 }
  refine (stays_note _).bind fun _ =>
    (triple_signatures fun i hi => hF i (mem_signatureOrder.1 hi)).bind fun _ => ?_
  exact Triple.forM (I := fun _ => (signed b ds F (signatureOrder p.items)).On) []
    fun _ i hi => stays_body hi ⟨i, mem_signatureOrder.2 hi, rfl⟩ (hspares i hi)

end Course

end Check

namespace Session

open Check

/-- What a check reports last, if it ends in a fault. -/
def faultReports : Except Fault Unit → List Diagnostic
  | .ok _ => []
  | .error e => e.reports

/-- Whatever comes of a check, primitive types and return types are as before, and what was reported
are errors, with the fault at their end. -/
theorem framed_check (s : Session) :
    Framed s.types s.diagnostics (faultReports s.check.1) s.check.2.progress := by
  let k := Course.signed s.types s.diagnostics (fun _ => False) (signatureOrder s.program.items)
  have hprogram : Triple (Course.signed _ _ (fun _ => False) []).On
      (Check.program s.scope s.program) (fun _ => k.On) (k.Broken s.program.items) :=
    Course.stays_program (fun i _ => Course.owns_none i) fun _ _ _ _ h => h
  have hstart : (Course.signed s.types s.diagnostics (fun _ => False) []).On s.progress :=
    ⟨.refl _, nofun, nofun⟩
  unfold check run
  rcases hr : (Check.program s.scope s.program).run.run s.progress with ⟨e | a, q⟩
  · exact (hprogram.fault _ hstart e q hr).toFramed
  · exact (hprogram.result _ hstart a q hr).toFramed

variable {u : CompilationUnit}

/-- The ways in which a check of the unit may end in a fault and leave table `t`. -/
inductive Stops (u : CompilationUnit) (t : TypeTable) : Fault → Prop
  /-- What is indexed has a type that is neither that of an array nor the error type. -/
  | notAnArray {i : Item} {h : Head} {base position : Expr} {ty : Ty} (item : i ∈ u.program.items)
      (part : .expr (.index h base position) ∈ i.bodyParts) (typed : t.get? base.ir = some ty)
      (array : ty.array? = none) (error : ty.isError = false) :
      Stops u t (.fatal base.locus .notAnArray)
  /-- An index has a type that does not combine with `i32`. -/
  | indexType {i : Item} {h : Head} {base position : Expr} {ty : Ty} {m : Mismatch}
      (item : i ∈ u.program.items) (part : .expr (.index h base position) ∈ i.bodyParts)
      (typed : t.get? position.ir = some ty)
      (mismatch : (Ty.int position.ir .w32).combine ty = .error m) :
      Stops u t (.internal (.indexType m))
  /-- There is a `return` in the initial value of a constant or static item. -/
  | returnOutside {i : Item} {value : Expr} {h : Head} {returned : Option Expr}
      (item : i ∈ u.program.items) (initial : i.initial? = some value)
      (part : .expr (.ret h returned) ∈ value.parts) : Stops u t (.internal .returnOutside)
  /-- An assignment has a target that is no name and is bound to a function. -/
  | noSignature {h : Head} {d : FunctionDecl} {e : Expr} (item : ⟨h, .function d⟩ ∈ u.program.items)
      (place : e ∈ u.program.places) (bound : declaration (ofUnit u).scope e = .ok h.id.ir) :
      Stops u t (.internal (.noSignature d.name))

theorem run_checks (u : CompilationUnit) (n : Nat) :
    (Check.program (ofUnit u).scope u.program).run.run ((ofUnit u).checks n).progress =
      (((ofUnit u).checks n).check.1, ((ofUnit u).checks (n + 1)).progress) := by
  rw [← checks_scope (ofUnit u) n, ← ofUnit_program u, ← checks_program (ofUnit u) n]
  rfl

theorem framed_checks (u : CompilationUnit) : ∀ n,
    ((ofUnit u).checks n).types.builtins = (ofUnit u).types.builtins ∧
      ((ofUnit u).checks n).types.returns = []
  | 0 => ⟨rfl, returns_ofUnit u⟩
  | n + 1 =>
    have hframed := framed_check ((ofUnit u).checks n)
    have hn := framed_checks u n
    ⟨hframed.builtins.trans hn.1, hframed.returns.trans hn.2⟩

/-- Every primitive type is there, however often the unit is checked. -/
theorem builtin?_checks (u : CompilationUnit) (n : Nat) (q : Primitive) :
    ((ofUnit u).checks n).types.builtin? q.name ≠ none := by
  have hname : q.name ∈ (ofUnit u).types.builtins.map (·.1) := by
    rw [builtins_names]
    exact List.mem_append_left _ (List.mem_map_of_mem q.mem_all)
  obtain ⟨entry, hentry, he⟩ := List.mem_map.1 hname
  intro hnone
  rw [TypeTable.builtin?, (framed_checks u n).1, Option.map_eq_none_iff,
    List.find?_eq_none] at hnone
  exact hnone entry hentry (beq_iff_eq.2 he)

/-- Why one part is at fault tells how the check stops. -/
theorem stops_of_cause {i : Item} (hi : i ∈ u.program.items) {parts : List Part} {b t : TypeTable}
    {e : Fault} (h : Cause parts b t e) (hparts : parts ⊆ i.bodyParts)
    (hb : ∀ q : Primitive, b.builtin? q.name ≠ none)
    (hret : b.returns = [] → ∃ value, i.initial? = some value ∧ parts = value.parts) :
    Stops u t e := by
  cases h with
  | notAnArray part typed array error => exact .notAnArray hi (hparts part) typed array error
  | indexType part typed mismatch => exact .indexType hi (hparts part) typed mismatch
  | returnOutside part outside =>
    obtain ⟨value, hvalue, rfl⟩ := hret outside
    exact .returnOutside hi hvalue part
  | missingBuiltin missing => exact absurd missing (hb _)

theorem Item.bodyParts_of_initial? {i : Item} {value : Expr} (h : i.initial? = some value) :
    i.bodyParts = value.parts := by
  obtain ⟨g, kind⟩ := i
  cases kind <;> cases h <;> rfl

/-- However often a unit with distinct nodes is checked, there are only four ways to end in a
fault. -/
theorem stops_of_fault (u : CompilationUnit) (hn : u.program.ids.Nodup) (n : Nat) {e : Fault}
    (he : ((ofUnit u).checks n).check.1 = .error e) :
    Stops u ((ofUnit u).checks (n + 1)).types e := by
  -- the functions that no place is bound to keep their types
  let F : IrId → Prop := fun id =>
    (∃ i ∈ u.program.items, (∃ d, i.kind = .function d) ∧ i.head.id.ir = id) ∧
      ∀ e ∈ u.program.places, declaration (ofUnit u).scope e ≠ .ok id
  let k := Course.signed ((ofUnit u).checks n).types ((ofUnit u).checks n).diagnostics F
    (signatureOrder u.program.items)
  have hbroken : k.Broken u.program.items e ((ofUnit u).checks (n + 1)).progress := by
    have hprogram : Triple (Course.signed _ _ F []).On _ _ (k.Broken u.program.items) :=
      Course.stays_program (fun i hi => Course.owns_of_nodup hn (fun _ hf => hf.1) hi)
        fun e he id hid hf => hf.2 e he hid
    have hrun : (Check.program (ofUnit u).scope u.program).run.run ((ofUnit u).checks n).progress =
        (.error e, ((ofUnit u).checks (n + 1)).progress) := by
      rw [run_checks, he]
    exact hprogram.fault _ ⟨.refl _, nofun, fun _ hf => nomatch hf.2⟩ e _ hrun
  obtain ⟨i, hi, hbreaks⟩ := hbroken.item
  have hbuiltin := builtin?_checks u n
  cases hbreaks with
  | body cause =>
    exact stops_of_cause hi cause (List.Subset.refl _) hbuiltin fun hr =>
      absurd hr (List.cons_ne_nil _ _)
  | initial value? cause =>
    have hparts := Item.bodyParts_of_initial? value?
    exact stops_of_cause hi cause (fun _ h => hparts ▸ h) hbuiltin fun _ => ⟨_, value?, rfl⟩
  | noSignature other =>
    have hbound : ¬ ∀ e ∈ u.program.places, declaration (ofUnit u).scope e ≠ .ok _ := fun hfree =>
      other ⟨⟨⟨_, hi, ⟨_, rfl⟩, rfl⟩, hfree⟩, _, mem_signatureOrder.2 hi, rfl⟩
    simp only [not_forall, not_not] at hbound
    obtain ⟨e, he, hd⟩ := hbound
    exact .noSignature hi he hd

open Samples in
/-- The type that is assigned to the place `y[0]` replaces the signature of `g`, before the body of
`g` is looked at. -/
theorem stops_of_fault_overwriting : overwriting.program.ids.Nodup ∧
    (ofUnit overwriting).check.1 = .error (.internal (.noSignature "g")) ∧
    Stops overwriting (ofUnit overwriting).check.2.types (.internal (.noSignature "g")) := by
  have hn : overwriting.program.ids.Nodup := by decide +kernel
  have he : (ofUnit overwriting).check.1 = .error (.internal (.noSignature "g")) := by
    decide +kernel
  exact ⟨hn, he, stops_of_fault overwriting hn 0 he⟩

end Session

end MiddleEnd
