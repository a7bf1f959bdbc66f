/-
  When a struct literal is accepted. Its fields are checked one after the other, each against the
  declaration it names, and then the declared fields are looked for among those that are given. So
  a literal gets the type of the struct if and only if every value fits the declaration that its
  field names and no declared field is left out, and then nothing is reported but what the values
  report themselves (`struct_accepted_iff`).

  Nothing counts how often a field is given. Where no field is given twice, being accepted comes to
  giving exactly the declared fields; a literal that gives a field twice is accepted as well, if
  both values fit.
-/
import MiddleEnd.Proofs.Check.Silence
import MiddleEnd.Proofs.Syntax.Samples

namespace MiddleEnd

/-- What is left where two types were combined. -/
def Progress.combining (p : Progress) (a b : Ty) : Progress :=
  p.note ((a.combineSteps b).map .combined)

namespace Check

variable {s : Scope} {p q : Progress}

/-! ## Runs that end well -/

theorem run_recording_some_iff {id : IrId} {m : Check (Option Ty)} {ty : Ty} :
    (recording id m).run.run p = (.ok (some ty), q) ↔
      ∃ v, m.run.run p = (.ok (some ty), v) ∧ q = v.record id ty := by
  constructor
  · exact run_of_recording
  · rintro ⟨v, hm, rfl⟩
    exact run_bind_ok_iff.2 ⟨some ty, v, hm, rfl⟩

theorem run_reconcile_some_iff {a b ty : Ty} {l : Location} :
    (reconcile a b l).run.run p = (.ok (some ty), q) ↔
      a.combine b = .ok ty ∧ q = p.combining a b := by
  have hcombine : (combine a b).run.run p = (.ok (a.combine b), p.combining a b) := rfl
  unfold reconcile
  rw [run_bind_ok_iff]
  constructor
  · rintro ⟨r, v, hr, h⟩
    cases hcombine.symm.trans hr
    cases hc : a.combine b with
    | ok t =>
      rw [hc] at h
      obtain ⟨hty, rfl⟩ := run_pure_ok_iff.1 h
      cases hty
      exact ⟨rfl, rfl⟩
    | error m =>
      rw [hc] at h
      cases h
  · rintro ⟨hc, rfl⟩
    refine ⟨_, _, hcombine, ?_⟩
    rw [hc]
    rfl

/-! ## Fields -/

/-- A field is accepted if it is declared, has a value with a type, and the two types combine. -/
theorem run_fieldInit_true_iff {h : Head} {declared value : Option Ty} {b : Problem} :
    (fieldInit h declared b value).run.run p = (.ok true, q) ↔
      ∃ d t both, declared = some d ∧ value = some t ∧ d.combine t = .ok both ∧
        q = (p.combining d t).record h.id.ir both := by
  constructor
  · intro hr
    rcases declared with _ | d
    · cases hr
    · rcases value with _ | t
      · cases hr
      · obtain ⟨r, v, hrec, hr⟩ := run_bind_ok_iff.1 hr
        obtain ⟨hsome, rfl⟩ := run_pure_ok_iff.1 hr
        obtain ⟨both, rfl⟩ := Option.isSome_iff_exists.1 hsome.symm
        obtain ⟨w, hw, rfl⟩ := run_recording_some_iff.1 hrec
        obtain ⟨hboth, rfl⟩ := run_reconcile_some_iff.1 hw
        exact ⟨d, t, both, rfl, rfl, hboth, rfl⟩
  · rintro ⟨d, t, both, rfl, rfl, hboth, rfl⟩
    have hrec : (recording h.id.ir (reconcile d t h.locus)).run.run p =
        (.ok (some both), (p.combining d t).record h.id.ir both) :=
      run_recording_some_iff.2 ⟨_, run_reconcile_some_iff.2 ⟨hboth, rfl⟩, rfl⟩
    exact run_bind_ok_iff.2 ⟨some both, _, hrec, rfl⟩

/-- The declared fields are complete if all of them are given. Looking for them leaves no trace. -/
theorem run_missingFields_true_iff {l : Location} {struct : String} {given : List String} :
    ∀ {decls : Members} {p q : Progress},
      (missingFields l struct given decls).run.run p = (.ok true, q) ↔
        (∀ n ∈ decls.names, n ∈ given) ∧ q = p
  | .nil, p, q => by
    rw [missingFields, run_pure_ok_iff]
    exact and_congr_left fun _ => iff_of_true rfl nofun
  | .cons name type rest, p, q => by
    have hnames : (∀ n ∈ (Members.cons name type rest).names, n ∈ given) ↔
        name ∈ given ∧ ∀ n ∈ rest.names, n ∈ given := List.forall_mem_cons
    rw [missingFields, hnames]
    by_cases hgiven : name ∈ given
    · rw [if_pos (by simpa using hgiven), run_missingFields_true_iff]
      simp [hgiven]
    · rw [if_neg (by simpa using hgiven)]
      refine iff_of_false ?_ fun h => hgiven h.1.1
      intro hr
      obtain ⟨_, _, _, hr⟩ := run_bind_ok_iff.1 hr
      obtain ⟨_, _, _, hr⟩ := run_bind_ok_iff.1 hr
      cases (run_pure_ok_iff.1 hr).1

/-! ## Values -/

/-- Checked one after the other from `p` on, the values of the fields all have types, and each type
combines with the declared type of the field that it is given to. The values report `ds`, and `q` is
what the check leaves. -/
inductive ValuesFit (s : Scope) (decls : Members) :
    Progress → List FieldInit → List Diagnostic → Progress → Prop
  | nil (p : Progress) : ValuesFit s decls p [] [] p
  | cons {p v q : Progress} {h : Head} {name : String} {value : Expr} {rest : List FieldInit}
    {t declared both : Ty} {ds es : List Diagnostic} :
    (expr s value false).run.run p = (.ok (some t), v) →
    v.diagnostics = p.diagnostics ++ ds →
    decls.find? name = some declared →
    declared.combine t = .ok both →
    ValuesFit s decls ((v.combining declared t).record h.id.ir both) rest es q →
    ValuesFit s decls p (.mk h name value :: rest) (ds ++ es) q

/-- Nothing is reported but what the values report. -/
theorem ValuesFit.diagnostics {decls : Members} {fields : List FieldInit} {ds : List Diagnostic}
    (h : ValuesFit s decls p fields ds q) : q.diagnostics = p.diagnostics ++ ds := by
  induction h with
  | nil p => exact (List.append_nil _).symm
  | @cons p v q h name value rest t declared both ds es hrun hds hd hboth hrest ih =>
    calc q.diagnostics = v.diagnostics ++ es := ih
      _ = p.diagnostics ++ (ds ++ es) := by rw [hds, List.append_assoc]

/-- Only declared fields are given. -/
theorem ValuesFit.declared {decls : Members} {fields : List FieldInit} {ds : List Diagnostic}
    (h : ValuesFit s decls p fields ds q) : ∀ n ∈ fields.map FieldInit.name, n ∈ decls.names := by
  induction h with
  | nil p => exact nofun
  | @cons p v q h name value rest t declared both ds es hrun hds hd hboth hrest ih =>
    rw [List.map_cons, List.forall_mem_cons]
    exact ⟨List.mem_map_of_mem (Members.mem_of_find? hd), ih⟩

theorem run_fieldInits_true_iff {struct : String} {decls : Members} :
    ∀ {fields : List FieldInit} {p q : Progress},
      (fieldInits s struct decls fields).run.run p = (.ok true, q) ↔
        ∃ ds, ValuesFit s decls p fields ds q
  | [], p, q => by
    rw [fieldInits, run_pure_ok_iff]
    constructor
    · rintro ⟨-, rfl⟩
      exact ⟨[], .nil q⟩
    · rintro ⟨ds, h⟩
      cases h
      exact ⟨rfl, rfl⟩
  | .mk h name value :: rest, p, q => by
    rw [fieldInits]
    constructor
    · intro hr
      obtain ⟨t, v, hvalue, hr⟩ := run_bind_ok_iff.1 hr
      obtain ⟨ok, w, hok, hr⟩ := run_bind_ok_iff.1 hr
      obtain ⟨others, x, hothers, hr⟩ := run_bind_ok_iff.1 hr
      obtain ⟨hboth, rfl⟩ := run_pure_ok_iff.1 hr
      obtain ⟨rfl, rfl⟩ := Bool.and_eq_true_iff.1 hboth.symm
      obtain ⟨d, t, both, hd, rfl, hcombine, rfl⟩ := run_fieldInit_true_iff.1 hok
      obtain ⟨es, hrest⟩ := run_fieldInits_true_iff.1 hothers
      obtain ⟨ds, hds⟩ := (answers_expr s value false p).kept
      rw [hvalue] at hds
      exact ⟨ds ++ es, .cons hvalue hds.symm hd hcombine hrest⟩
    · rintro ⟨ds, hfit⟩
      cases hfit with
      | @cons _ v _ _ _ _ _ t declared both ds es hvalue hds hd hcombine hrest =>
        have hok := run_fieldInit_true_iff (p := v) (h := h) (b := .noSuchField struct name).2
          ⟨_, _, _, hd, rfl, hcombine, rfl⟩
        have hothers : (fieldInits s struct decls rest).run.run _ = (.ok true, q) :=
          run_fieldInits_true_iff.2 ⟨_, hrest⟩
        exact run_bind_ok_iff.2 ⟨_, _, hvalue, run_bind_ok_iff.2 ⟨true, _, hok,
          run_bind_ok_iff.2 ⟨true, _, hothers, rfl⟩⟩⟩

/-! ## Literals -/

/-- The path of a struct literal leads to a node whose type is a struct type. -/
def LeadsTo (s : Scope) (p : Progress) (path : StructPath) (r : IrId) (name : String)
    (decls : Members) : Prop :=
  ∃ decl id, s.bindings.type? path.id.surface = some decl ∧
    s.registry.node? ⟨path.id.crate, decl⟩ = some id ∧
    p.types.get? id = some (.struct r name decls)

theorem run_structType {e : Expr} {path : StructPath} {r : IrId} {name : String} {decls : Members}
    (h : LeadsTo s p path r name decls) :
    (structType s e path).run.run p = (.ok (some (.struct r name decls)), p) := by
  obtain ⟨decl, id, hdecl, hid, hget⟩ := h
  unfold structType
  rw [hdecl]
  dsimp only
  rw [hid]
  dsimp only
  rw [run_bind, show (typeOf? id).run.run p = (.ok (p.types.get? id), p) from rfl, hget]
  rfl

/-- A struct literal whose path leads to a struct type gets a type in one case only. -/
theorem run_struct_some_iff {h : Head} {path : StructPath} {fields : List FieldInit} {final : Bool}
    {r : IrId} {name : String} {decls : Members} (hpath : LeadsTo s p path r name decls) {ty : Ty} :
    (expr s (.struct h path fields) final).run.run p = (.ok (some ty), q) ↔
      ty = .struct r name decls ∧ ∃ ds v, ValuesFit s decls p fields ds v ∧
        (∀ n ∈ decls.names, n ∈ fields.map FieldInit.name) ∧ q = v.record h.id.ir ty := by
  rw [expr, run_recording_some_iff]
  constructor
  · rintro ⟨v, hr, rfl⟩
    obtain ⟨t, w, ht, hr⟩ := run_bind_ok_iff.1 hr
    cases ht.symm.trans (run_structType hpath)
    obtain ⟨ok, w, hok, hr⟩ := run_bind_ok_iff.1 hr
    obtain ⟨full, x, hfull, hr⟩ := run_bind_ok_iff.1 hr
    obtain ⟨hty, rfl⟩ := run_pure_ok_iff.1 hr
    cases ok with
    | false => cases hty
    | true =>
      cases full with
      | false => cases hty
      | true =>
        cases hty
        obtain ⟨ds, hfit⟩ := run_fieldInits_true_iff.1 hok
        obtain ⟨hcover, rfl⟩ := run_missingFields_true_iff.1 hfull
        exact ⟨rfl, ds, v, hfit, hcover, rfl⟩
  · rintro ⟨rfl, ds, v, hfit, hcover, rfl⟩
    exact ⟨v, run_bind_ok_iff.2 ⟨_, p, run_structType hpath,
      run_bind_ok_iff.2 ⟨true, v, run_fieldInits_true_iff.2 ⟨ds, hfit⟩,
        run_bind_ok_iff.2 ⟨true, v, run_missingFields_true_iff.2 ⟨hcover, rfl⟩, rfl⟩⟩⟩, rfl⟩

/-- When a struct literal is accepted. -/
theorem struct_accepted_iff {h : Head} {path : StructPath} {fields : List FieldInit} {final : Bool}
    {r : IrId} {name : String} {decls : Members} (hpath : LeadsTo s p path r name decls)
    (hnames : decls.names.Nodup) :
    ((∃ ty q, (expr s (.struct h path fields) final).run.run p = (.ok (some ty), q)) ↔
      (∃ ds q, ValuesFit s decls p fields ds q) ∧
        ∀ n ∈ decls.names, n ∈ fields.map FieldInit.name) ∧
    ((fields.map FieldInit.name).Nodup →
      ((∃ ty q, (expr s (.struct h path fields) final).run.run p = (.ok (some ty), q)) ↔
        (∃ ds q, ValuesFit s decls p fields ds q) ∧
          (fields.map FieldInit.name).Perm decls.names)) ∧
    ∀ ty q, (expr s (.struct h path fields) final).run.run p = (.ok (some ty), q) →
      ty = .struct r name decls ∧ ∃ ds v, ValuesFit s decls p fields ds v ∧
        q = v.record h.id.ir ty ∧ q.diagnostics = p.diagnostics ++ ds := by
  have haccepted : (∃ ty q, (expr s (.struct h path fields) final).run.run p = (.ok (some ty), q)) ↔
      (∃ ds q, ValuesFit s decls p fields ds q) ∧
        ∀ n ∈ decls.names, n ∈ fields.map FieldInit.name := by
    constructor
    · rintro ⟨ty, q, hr⟩
      obtain ⟨-, ds, v, hfit, hcover, -⟩ := (run_struct_some_iff hpath).1 hr
      exact ⟨⟨ds, v, hfit⟩, hcover⟩
    · rintro ⟨⟨ds, v, hfit⟩, hcover⟩
      exact ⟨_, _, (run_struct_some_iff hpath).2 ⟨rfl, ds, v, hfit, hcover, rfl⟩⟩
  refine ⟨haccepted, fun hgiven => ?_, fun ty q hr => ?_⟩
  · rw [haccepted]
    refine and_congr_right fun ⟨ds, q, hfit⟩ => ?_
    rw [List.perm_ext_iff_of_nodup hgiven hnames]
    exact ⟨fun hcover n => ⟨hfit.declared n, hcover n⟩, fun hperm n hn => (hperm n).2 hn⟩
  · obtain ⟨rfl, ds, v, hfit, -, rfl⟩ := (run_struct_some_iff hpath).1 hr
    exact ⟨rfl, ds, v, hfit, rfl, hfit.diagnostics⟩

end Check

end MiddleEnd

namespace MiddleEnd.Session

open Check

open Samples in
/-- `struct P { a: i32 }  fn f() { P { a: 1, a: 2 }; }`: checked once more, the literal is accepted
although it gives `a` twice, and nothing is reported. -/
theorem struct_accepted_iff_repeating :
    let s := (ofUnit repeating).scope
    let p := ((ofUnit repeating).checks 1).progress
    ∃ decls, LeadsTo s p ⟨identity 10, "P"⟩ ⟨1⟩ "P" decls ∧ decls.names = ["a"] ∧
      repeatedFields.map FieldInit.name = ["a", "a"] ∧
      (∃ ds q, ValuesFit s decls p repeatedFields ds q) ∧
      ∃ q, (expr s repeatedField false).run.run p = (.ok (some (.struct ⟨1⟩ "P" decls)), q) ∧
        q.diagnostics = p.diagnostics := by
  have hget : ((ofUnit repeating).checks 1).progress.types.get? ⟨1⟩ =
      some (.struct ⟨1⟩ "P" (.cons "a" (.int ⟨22⟩ .w32) .nil)) := by
    decide +kernel
  have hpath : LeadsTo (ofUnit repeating).scope ((ofUnit repeating).checks 1).progress
      ⟨identity 10, "P"⟩ ⟨1⟩ "P" (.cons "a" (.int ⟨22⟩ .w32) .nil) :=
    ⟨⟨1⟩, ⟨1⟩, by decide +kernel, by decide +kernel, hget⟩
  have hresult : ((expr (ofUnit repeating).scope repeatedField false).run.run
        ((ofUnit repeating).checks 1).progress).1.toOption.join =
        some (.struct ⟨1⟩ "P" (.cons "a" (.int ⟨22⟩ .w32) .nil)) ∧
      ((expr (ofUnit repeating).scope repeatedField false).run.run
        ((ofUnit repeating).checks 1).progress).2.diagnostics =
        ((ofUnit repeating).checks 1).progress.diagnostics := by
    decide +kernel
  rcases hrun : (expr (ofUnit repeating).scope repeatedField false).run.run
    ((ofUnit repeating).checks 1).progress with ⟨r, q⟩
  rw [hrun] at hresult
  obtain ⟨hty, hdiagnostics⟩ := hresult
  have hr : r = .ok (some (.struct ⟨1⟩ "P" (.cons "a" (.int ⟨22⟩ .w32) .nil))) := by
    rcases r with e | ty
    · cases hty
    · exact congrArg Except.ok hty
  subst hr
  have hfit : ∃ ds q, ValuesFit (ofUnit repeating).scope (.cons "a" (.int ⟨22⟩ .w32) .nil)
      ((ofUnit repeating).checks 1).progress repeatedFields ds q :=
    ((struct_accepted_iff hpath (by decide)).1.1 ⟨_, q, hrun⟩).1
  exact ⟨_, hpath, rfl, rfl, hfit, q, hrun, hdiagnostics⟩

end MiddleEnd.Session
