/-
  How the body of an emitted function ends. In a program that is reported clean, a function whose C
  function has a result returns a value wherever its body ends, with one exception: a body without a
  tail is never compared with the result, and control may fall off its end
  (`Session.results_returned`).

  A `return` without a value stands where the program has one (`Emits.returns`), and there the
  checker has combined the result with unit. A path runs through the whole body only if nothing is
  assigned to the result (`EmitsFunction.concludes`): there is no tail, or its type is unit, which
  the checker has compared with the result too.
-/
import MiddleEnd.Proofs.C.Paths
import MiddleEnd.Proofs.Check.Records
import MiddleEnd.Proofs.Lower.Grounded
import MiddleEnd.Proofs.Lower.Names
import MiddleEnd.Proofs.Lower.Places

namespace MiddleEnd

open Check

namespace Lower

variable {k : Checked} {g : Setting} {B : C.BlockId → List C.Stmt} {m m' : Slots} {j : Job}
  {a b t : List C.Stmt} {ps qs : List Part}

/-! ## Returns without a value -/

/-- If there is no value, a `return` without one is among the parts. -/
def BareReturn (ps : List Part) (value : Option C.Expr) : Prop :=
  value = none → ∃ h, .expr (.ret h none) ∈ ps

theorem BareReturn.mono {value : Option C.Expr} (h : BareReturn ps value) (hs : ps ⊆ qs) :
    BareReturn qs value :=
  fun hnone => (h hnone).imp fun _ hm => hs hm

theorem returns_mono (h : C.ReturnsOnly B (BareReturn ps) a) (hs : ps ⊆ qs) :
    C.ReturnsOnly B (BareReturn qs) a :=
  h.mono fun _ hv => hv.mono hs

theorem returns_cons (h : C.ReturnsOnly B (BareReturn ps) a) (p : Part) :
    C.ReturnsOnly B (BareReturn (p :: ps)) a :=
  returns_mono h (List.subset_cons_self p ps)

/-- Parts that are lowered one after the other. -/
theorem returns_both (h : C.ReturnsOnly B (BareReturn ps) a)
    (h' : C.ReturnsOnly B (BareReturn qs) b) :
    C.ReturnsOnly B (BareReturn (ps ++ qs)) (a ++ b) :=
  (returns_mono h (List.subset_append_left ..)).append
    (returns_mono h' (List.subset_append_right ..))

/-- The two blocks of a conditional. -/
theorem returns_branches {c : C.Expr} {x y : C.BlockId} (h : C.ReturnsOnly B (BareReturn ps) (B x))
    (h' : C.ReturnsOnly B (BareReturn qs) (B y)) :
    C.ReturnsOnly B (BareReturn (ps ++ qs)) [.branch c x (some y)] :=
  .branch (returns_mono h (List.subset_append_left ..))
    (returns_mono h' (List.subset_append_right ..))

/-- A statement behind others that neither has blocks nor returns. -/
theorem returns_snoc (h : C.ReturnsOnly B (BareReturn ps) a) {x : C.Stmt} (hx : x.isPlain = true) :
    C.ReturnsOnly B (BareReturn ps) (a ++ [x]) :=
  h.append (.plain hx)

theorem Temporary.returns {ty : Ty} {target : Option C.VarId} (h : Temporary g m ty target a m')
    (P : Option C.Expr → Prop) : C.ReturnsOnly B P a := by
  cases h with
  | none => exact .nil
  | some => exact .plain rfl

theorem Stores.returns {target : Option C.VarId} {v : Option C.Expr} (h : Stores target v a)
    (P : Option C.Expr → Prop) : C.ReturnsOnly B P a := by
  cases h with
  | noTarget | noValue => exact .nil
  | both => exact .plain rfl

theorem Keeps.returns {target : Option C.VarId} {v w : C.Expr} (h : Keeps target v w a)
    (P : Option C.Expr → Prop) : C.ReturnsOnly B P a := by
  cases h with
  | asItIs => exact .nil
  | moved => exact .plain rfl

/-- A `return` without a value is lowered from one. -/
theorem Emits.returns (h : Emits k g B m j a m') : C.ReturnsOnly B (BareReturn j.parts) a := by
  induction h with
  | literal | use | constant | exprsNil | fieldsNil | tailNone | stmtsNil | declareNothing =>
    exact .nil
  | retUnit h => exact .ret fun _ => ⟨h, List.mem_singleton_self _⟩
  | ret h value _ ih => exact (returns_cons ih _).append (.ret nofun)
  | call h callee args _ _ ih => exact returns_cons (returns_cons ih _) _
  | assign h target value _ _ iht ihv =>
    exact returns_cons (returns_both iht (returns_snoc ihv rfl)) _
  | binary h op lhs rhs _ _ ihl ihr => exact returns_cons (returns_both ihl ihr) _
  | ifOnly h condition body b _ _ ihc ihb =>
    exact returns_cons (returns_both ihc (.branchOnly ihb)) _
  | ifElse h condition thenBody elseBody x y _ _ ht _ _ _ ihc ihx ihy =>
    exact returns_cons (returns_both ihc ((ht.returns _).append (returns_branches ihx ihy))) _
  | ifElseIf h condition thenBody elseIf x y _ _ _ ihc ihx ihy =>
    exact returns_cons (returns_both ihc (returns_branches ihx ihy)) _
  | block h ss tail x _ ht _ _ ih => exact (ht.returns _).append (.block ih)
  | index h base position _ _ ihb ihp => exact returns_cons (returns_both ihb ihp) _
  | array h values _ _ _ ih => exact returns_cons ih _
  | copies h element count _ ih => exact returns_cons ih _
  | struct h path fields _ _ _ _ ih => exact returns_cons (returns_cons ih _) _
  | exprsCons e es _ _ ih ihs => exact returns_both ih ihs
  | fieldsCons inOrder h name value rest _ _ _ ih ihr => exact returns_cons (returns_both ih ihr) _
  | fieldsKeep inOrder h name value rest _ _ _ ht hk _ ih ihr =>
    exact returns_cons (returns_both ih ((ht.returns _).append ((hk.returns _).append ihr))) _
  | tailValue e _ _ ih | tailEffect e _ _ ih => exact ih
  | innerBlock h ss tail _ _ ihs iht =>
    cases tail with
    | none => exact returns_cons (ihs.append (returns_mono iht (List.nil_subset _))) _
    | some e => exact returns_cons (returns_both ihs iht) _
  | innerOther e _ _ ih => exact ih
  | branch e _ hs ih => exact ih.append (hs.returns _)
  | effectItself e _ _ ih => exact ih
  | effect e _ _ ih => exact returns_snoc ih rfl
  | declare => exact .plain rfl
  | bindNothing h pattern ascribed init _ _ _ ih =>
    exact returns_cons (returns_mono ih (List.subset_append_right ..)) _
  | bind h pattern ascribed init _ _ _ ih =>
    exact returns_cons (returns_mono (returns_snoc ih rfl) (List.subset_append_right ..)) _
  | stmtsCons st rest _ _ ihs ihr => exact returns_both ihs ihr

/-! ## Paths through a body -/

/-- No path goes on behind a `return`. -/
theorem Emits.not_through_ret {h : Head} {value : Option Expr}
    (he : Emits k g B m (.stmt (.expr (.ret h value))) a m') : ¬ C.Path B a t .through := by
  cases he with
  | effectItself _ _ he =>
    cases he with
    | retUnit => exact C.Path.not_through_ret (a := [])
    | ret => exact C.Path.not_through_ret
  | effect _ hself _ => cases hself

/-- The last expression of a block is evaluated for its effects only, and control may go on behind
it: it has the unit type. -/
theorem Emits.tail_through {e : Expr} (he : Emits k g B m (.tail (some e) none) a m')
    (ht : C.Path B a t .through) : ∃ ty, k.types.get? e.ir = some ty ∧ ty.isUnit = true := by
  cases he with
  | tailEffect _ hv he =>
    cases e with
    | ret h value => exact absurd ht he.not_through_ret
    | _ => exact hv

/-- A body that leaves no value, and through which control may go: there is no last expression, or
it has the unit type. -/
theorem Emits.inner_through {h : Head} {ss : List Stmt} {tail : Option Expr}
    (he : Emits k g B m (.inner (.block h ss tail) none) a m') (ht : C.Path B a t .through) :
    ∀ e, tail = some e → ∃ ty, k.types.get? e.ir = some ty ∧ ty.isUnit = true := by
  rintro e rfl
  cases he with
  | innerBlock _ _ _ _ htail =>
    rcases ht.append_cases with ⟨_, _, -, -, h₂⟩ | ⟨hne, -⟩
    · exact htail.tail_through h₂
    · exact absurd rfl hne
  | innerOther _ hne => exact absurd rfl (hne h ss (some e))

/-- How a path through the body of a function with a result ends. -/
inductive Concludes (k : Checked) (d : FunctionDecl) : C.Ending → Prop
  | underway : Concludes k d .underway
  | value (v : C.Expr) : Concludes k d (.returned (some v))
  | bare (h : Head) : .expr (.ret h none) ∈ d.body.parts → Concludes k d (.returned none)
  | through :
    (∀ e, d.body.tail? = some e → ∃ ty, k.types.get? e.ir = some ty ∧ ty.isUnit = true) →
    Concludes k d .through

theorem EmitsFunction.concludes {id : IrId} {d : FunctionDecl} {vs : List C.VarId} {b : C.BlockId}
    (h : EmitsFunction k g B id d m vs b m') :
    ∃ ty params result, k.types.get? id = some ty ∧ ty.fn? = some (params, result) ∧
      (result.isUnit = false → (∃ ct, Compiles g result ct) ∧
        ∀ t e, C.Path B (B b) t e → Concludes k d e) := by
  cases h with
  | @intro m₁ m₂ _ ty result params _ _ slot v a e s h ss tail hbody hty hfn _ hslot hinner hfin
      hb =>
    refine ⟨ty, params, result, hty, hfn, fun hunit => ?_⟩
    cases hslot with
    | none hu =>
      rw [hunit] at hu
      cases hu
    | some name declared _ hct =>
      refine ⟨⟨_, hct⟩, fun t e ht => ?_⟩
      have hreturns : C.ReturnsOnly B (BareReturn d.body.parts) (B b) := by
        rw [hb, hbody]
        refine C.ReturnsOnly.append (.plain rfl) (hinner.returns.append ?_)
        cases hfin with
        | noValue => exact .nil
        | returned x name spelled value =>
          exact C.ReturnsOnly.append (a := [_]) (.plain rfl) (.ret nofun)
      cases e with
      | underway => exact .underway
      | returned v =>
        cases v with
        | some v => exact .value v
        | none =>
          obtain ⟨h, hm⟩ := hreturns t none ht rfl
          exact .bare h hm
      | through =>
        rw [hb] at ht
        rcases ht.append_cases with ⟨_, _, -, -, ht⟩ | ⟨hne, -⟩
        · rcases ht.append_cases with ⟨_, _, -, h₁, h₂⟩ | ⟨hne, -⟩
          · cases hfin with
            | noValue =>
              refine .through fun e he => hinner.inner_through h₁ e ?_
              rw [hbody] at he
              exact he
            | returned => exact absurd h₂ (C.Path.not_through_ret (a := [_]))
          · exact absurd rfl hne
        · exact absurd rfl hne

end Lower

/-! ## What the checker compares with the result -/

theorem Ty.eq_unit_of_isUnit {ty : Ty} (h : ty.isUnit = true) : ∃ r, ty = .unit r := by
  cases ty <;> first | exact ⟨_, rfl⟩ | cases h

/-- No type of a C value is compatible with unit. -/
theorem Lower.Compiles.combine?_unit {g : Lower.Setting} {ty : Ty} {ct : C.Ty}
    (h : Lower.Compiles g ty ct) (r : IrId) : ty.combine? (.unit r) = none := by
  cases h with
  | entered he => cases ty <;> first | rfl | cases he
  | array => rfl

namespace Check

/-- What a pass says of a function item with a node of its own: its result was combined with unit at
every `return` without a value, and with the type of its tail, if that has a node of its own too. -/
theorem Passes.result {s : Scope} {p : Program} {t u : TypeTable} (h : Passes s p t u) {i : Item}
    {d : FunctionDecl} (hi : i ∈ p.items) (hd : i.kind = .function d)
    (halone : Alone s p i.head.id.ir) :
    ∃ r params result, u.get? i.head.id.ir = some (.fn r params result) ∧
      (∀ g, .expr (.ret g none) ∈ d.body.parts → (result.combine? (.unit g.id.ir)).isSome) ∧
      ∀ e, d.body.tail? = some e → Alone s p e.ir →
        ∃ ty, u.get? e.ir = some ty ∧ (result.combine? ty).isSome := by
  obtain ⟨r, params, result, hitem, hlocated⟩ := h.located hi hd
  refine ⟨r, params, result, hitem halone, fun g hg => ?_, fun e he hown => ?_⟩
  · obtain ⟨_, _, _, _, hr, hder, -⟩ := hlocated _ hg (by simp)
    cases hder with
    | retUnit _ _ hr' hc =>
      cases hr'.symm.trans hr
      rw [hc]
      rfl
  · obtain ⟨_, _, _, ty, _, w, -, hder, htail, hkept, hitem'⟩ := h.function hi hd
    cases (hitem halone).symm.trans (hitem' halone)
    refine ⟨ty, ?_, htail e he⟩
    generalize hb : d.body = body at hder he hkept
    cases hder with
    | block g ss tail _ _ ht =>
      cases he
      have hids : e.ir ∈ (Expr.block g ss (some e)).ids := by
        rw [← Expr.irsAll_parts]
        simp only [Expr.parts, Part.irsAll_cons, Part.irsAll_append, List.mem_append,
          Expr.irsAll_parts]
        exact .inr (.inr e.ir_mem_ids)
      rw [hkept _ hids hown.steady]
      by_cases hsame : g.id.ir = e.ir
      · rw [hsame]
        exact get?_record_self
      · rw [get?_record_of_ne hsame]
        exact ht.get?_self
    | _ => cases he

end Check

namespace Lower

variable {k : Checked} {l l' : Lowering}

/-! ## Results of C functions -/

theorem result_of_outline {p q : C.Program} {i : Nat}
    (h : (q.functions[i]?).map C.Function.outline = (p.functions[i]?).map C.Function.outline) :
    (q.functions[i]?).map C.Function.result = (p.functions[i]?).map C.Function.result := by
  have hresult : ∀ o : Option C.Function,
      o.map C.Function.result = (o.map C.Function.outline).map C.Function.result := by
    intro o
    cases o <;> rfl
  rw [hresult (q.functions[i]?), hresult (p.functions[i]?), h]

/-- The C function of an item whose result is unit has no result. -/
def Voids (k : Checked) (l : Lowering) : Prop :=
  ∀ (id : IrId) f, l.functions[id]? = some f → ∀ ty params result, k.types.get? id = some ty →
    ty.fn? = some (params, result) → result.isUnit = true →
      (l.c.functions[f.index]?).map C.Function.result = some .void

theorem Voids.functionSignature {i : Item} {d : FunctionDecl} {u : Unit} (h : Voids k l)
    (hr : Runs (functionSignature k i d) l u l') : Voids k l' := by
  obtain ⟨s, l₀, rs, h₀⟩ := runs_bind.1 hr
  obtain ⟨item, _, rt, rfn⟩ := runs_bind.1 rs
  obtain ⟨hitem, rfl⟩ := runs_require.1 rt
  obtain ⟨hs, rfl⟩ := runs_require.1 rfn
  obtain ⟨ps, l₁, rps, h₁⟩ := runs_bind.1 h₀
  obtain ⟨r, l₂, rr, h₂⟩ := runs_bind.1 h₁
  obtain ⟨f, l₃, rf, rset⟩ := runs_bind.1 h₂
  have hquiet := (quiet_types rps).trans (quiet_resultType rr)
  obtain ⟨hf, rfl⟩ := runs_buildOrFail.1 rf
  cases hf
  rw [runs_modify.1 rset]
  intro id f hid ty params result hty hfn hunit
  have hid : (l₂.functions.insert i.head.id.ir ⟨l₂.c.functions.size⟩)[id]? = some f := hid
  rw [Std.TreeMap.getElem?_insert] at hid
  show ((l₂.c.functions.push _)[f.index]?).map C.Function.result = some .void
  split at hid
  · cases hid
    have hsame : i.head.id.ir = id := Std.LawfulEqOrd.eq_of_compare ‹_›
    rw [hsame] at hitem
    cases hitem.symm.trans hty
    cases hs.symm.trans hfn
    have hnone : r = none := by
      unfold resultType at rr
      rw [hunit] at rr
      exact (runs_pure.1 rr).1
    rw [Array.getElem?_push_size, hnone]
    rfl
  · have hentry :=
      (congrFun (congrArg Setting.functions hquiet.changes.setting) id).symm.trans hid
    have hold := h id f hentry ty params result hty hfn hunit
    rw [← result_of_outline (hquiet.changes.outline f.index)] at hold
    obtain ⟨x, hx, hvoid⟩ := Option.map_eq_some_iff.1 hold
    rw [Array.getElem?_push_lt (Array.getElem?_eq_some_iff.1 hx).1]
    obtain ⟨_, hx⟩ := Array.getElem?_eq_some_iff.1 hx
    rw [hx]
    exact congrArg some hvoid

theorem Voids.bodyItem {i : Item} {u : Unit} (h : Voids k l) (hr : Runs (bodyItem k i) l u l') :
    Voids k l' := by
  rcases runs_bodyItem hr with ⟨d, f, -, -, ⟨-, rfl⟩ | ⟨-, hfilled⟩⟩ | ⟨-, rfl⟩
  · exact h
  · intro id f' hid ty params result hty hfn hunit
    have hentry : l.functions[id]? = some f' :=
      (congrFun (congrArg Setting.functions hfilled.setting) id).symm.trans hid
    have hold := h id f' hentry ty params result hty hfn hunit
    by_cases hsame : f'.index = f.index
    · obtain ⟨x, vs, b, hx, hout, -⟩ := hfilled.filled
      rw [hsame] at hold ⊢
      rw [hx] at hold
      obtain ⟨y, hy, hyout⟩ := Option.map_eq_some_iff.1 hout
      rw [hy]
      have hresult := congrArg C.Function.result hyout
      exact (congrArg some hresult).trans hold
    · exact (result_of_outline (hfilled.others f'.index hsame)).trans hold
  · exact h

theorem voids_of_runs {p : Program} {target : String} {u : Unit}
    (hr : Runs (do enterPrimitives k; program k p) (.empty target) u l') : Voids k l' := by
  obtain ⟨_, l₁, rprim, h₁⟩ := runs_bind.1 hr
  obtain ⟨_, l₂, rnote, h₂⟩ := runs_bind.1 h₁
  obtain ⟨_, l₃, rstruct, h₃⟩ := runs_bind.1 h₂
  obtain ⟨_, l₄, rvalue, h₄⟩ := runs_bind.1 h₃
  obtain ⟨_, l₅, rsig, h₅⟩ := runs_bind.1 h₄
  obtain ⟨_, l₆, rbody, rwrite⟩ := runs_bind.1 h₅
  obtain ⟨hlaid, hfree⟩ := laid_empty target
  have hprimitives := writes_note _ rnote (writes_primitives rprim hlaid.sound)
  obtain ⟨hstructs, hfree⟩ := (hlaid.fixed hprimitives).structs_of_runs
    (hfree.of_fixed hprimitives.fixed) rstruct
  obtain ⟨-, hfree⟩ := hstructs.values_of_runs hfree rvalue
  have hstart : Voids k l₄ := fun id f hf => absurd hf (hfree.not_entered id f)
  have hsigned : Voids k l₅ := by
    refine (chain_of_runs rsig).invariant (I := fun _ l => Voids k l) ?_ hstart
    intro l i l₁ _ h hr
    cases hi : i.kind with
    | function d =>
      rw [hi] at hr
      exact h.functionSignature hr
    | _ =>
      rw [hi] at hr
      obtain ⟨_, rfl⟩ := runs_pure.1 hr
      exact h
  have hfilled : Voids k l₆ :=
    (chain_of_runs (f := bodyItem k) rbody).invariant (I := fun _ l => Voids k l)
      (fun h hr => h.bodyItem hr) hsigned
  obtain ⟨output, events, rfl⟩ := runs_write rwrite
  exact hfilled

end Lower

/-! ## Programs -/

/-- The first function item with an identity. -/
theorem Program.exists_first {items : List Item} {i : Item} {d : FunctionDecl} (hi : i ∈ items)
    (hd : i.kind = .function d) : ∃ before j after e, items = before ++ j :: after ∧
      j.kind = .function e ∧ j.head.id.ir = i.head.id.ir ∧
      ∀ x ∈ before, ∀ e, x.kind = .function e → x.head.id.ir ≠ j.head.id.ir := by
  induction items with
  | nil => exact absurd hi List.not_mem_nil
  | cons x rest ih =>
    by_cases hx : (∃ e, x.kind = .function e) ∧ x.head.id.ir = i.head.id.ir
    · obtain ⟨⟨e, he⟩, hid⟩ := hx
      exact ⟨[], x, rest, e, rfl, he, hid, fun _ hm => absurd hm List.not_mem_nil⟩
    · have hrest : i ∈ rest := (List.mem_cons.1 hi).resolve_left fun heq =>
        hx (heq ▸ ⟨⟨d, hd⟩, rfl⟩)
      obtain ⟨before, j, after, e, rfl, he, hid, hfirst⟩ := ih hrest
      refine ⟨x :: before, j, after, e, rfl, he, hid, fun y hy e' he' => ?_⟩
      rcases List.mem_cons.1 hy with rfl | hy
      · exact fun hsame => hx ⟨⟨e', he'⟩, hsame.trans hid⟩
      · exact hfirst y hy e' he'

namespace Session

/-- In a program that is reported clean and lowers, every run of the body of a C function with a
result returns a value, unless the body in the source has no tail: then control may fall off the
end. The nodes of the item and of the tail are taken not to be shared with others, nor bound to the
target of an assignment. -/
theorem results_returned (u : CompilationUnit) (target : String) (hclean : (ofUnit u).Clean)
    (hlow : (ofUnit u).check.2.Lowers target) {f : C.FunctionId}
    (hf : f ∈ ((ofUnit u).check.2.lower target).2.declared.functions) :
    ∃ i ∈ u.program.items, ∃ d x b, i.kind = .function d ∧
      ((ofUnit u).check.2.lower target).2.functions[i.head.id.ir]? = some f ∧
      ((ofUnit u).check.2.lower target).2.c.functions[f.index]? = some x ∧ x.body = some b ∧
      (x.result ≠ .void → Alone (ofUnit u).scope u.program i.head.id.ir →
        (∀ e, d.body.tail? = some e → Alone (ofUnit u).scope u.program e.ir) →
        ∀ {σ V : Type} (M : C.Machine σ V) (s : σ) (o : C.Outcome σ V),
          M.Runs ((ofUnit u).check.2.lower target).2.c.statements
            (((ofUnit u).check.2.lower target).2.c.statements b) s o →
          (∃ v s', o = .returned (some v) s') ∨ d.body.tail? = none ∧ ∃ s', o = .done s') := by
  have hr := hlow.runs
  obtain ⟨i, hi, d, hd, hfi, -⟩ := (Lower.allNamed_of_runs hr).named f (List.contains_iff_mem.2 hf)
  obtain ⟨before, i', after, d', hp, hd', hid, hfirst⟩ := Program.exists_first hi hd
  obtain ⟨f', vs, b, m, m', hlowered⟩ := hlow.lowered hp hd' hfirst
  rw [← hid] at hfi
  cases hfi.symm.trans hlowered.function
  obtain ⟨x, hx, -, hbody⟩ := hlowered.body
  have hi' : i' ∈ u.program.items := by
    rw [check_program] at hp
    show i' ∈ (ofUnit u).program.items
    rw [hp]
    simp
  refine ⟨i', hi', d', x, b, hd', hfi, hx, hbody, fun hresult halone htail σ V M s o hrun => ?_⟩
  obtain ⟨r, params, result, hty, hbare, hcombined⟩ := (hclean.passes rfl).result hi' hd' halone
  obtain ⟨ty, params', result', hty', hfn, hends⟩ := hlowered.emits.concludes
  cases hty.symm.trans hty'
  cases hfn
  have hunit : result.isUnit = false := by
    by_contra hne
    have hvoid := Lower.voids_of_runs hr _ _ hfi _ _ _ hty rfl (by simpa using hne)
    rw [hx] at hvoid
    exact hresult (Option.some.inj hvoid)
  obtain ⟨⟨ct, hct⟩, hends⟩ := hends hunit
  obtain ⟨t, e, hpath, hout⟩ := hrun.path
  cases hends t e hpath with
  | underway => cases hout
  | value v =>
    cases hout with
    | returned _ v s' hsome =>
      cases v with
      | none => cases hsome
      | some v => exact .inl ⟨v, s', rfl⟩
  | bare h hm =>
    have hsome := hbare h hm
    rw [hct.combine?_unit] at hsome
    cases hsome
  | through hall =>
    cases hout with
    | done s' =>
      cases he : d'.body.tail? with
      | none => exact .inr ⟨rfl, s', rfl⟩
      | some e =>
        obtain ⟨ty, hget, hisunit⟩ := hall e he
        obtain ⟨ty', hget', hsome⟩ := hcombined e he (htail e he)
        cases hget.symm.trans hget'
        obtain ⟨r, rfl⟩ := Ty.eq_unit_of_isUnit hisunit
        rw [hct.combine?_unit] at hsome
        cases hsome

open Samples in
/-- `fn f() -> i32 { }` is reported clean, and control falls off the end of the C function: it has a
result, and all that its body does is to declare the variable for it. -/
theorem results_returned_missing : (ofUnit resultless).Clean ∧
    (ofUnit resultless).check.2.Lowers "linux" ∧
    (⟨0⟩ : C.FunctionId) ∈ ((ofUnit resultless).check.2.lower "linux").2.declared.functions ∧
    ∃ x b, ((ofUnit resultless).check.2.lower "linux").2.c.functions[0]? = some x ∧
      x.result ≠ .void ∧ x.body = some b ∧
      (∃ M : C.Machine Unit Unit,
        M.Runs ((ofUnit resultless).check.2.lower "linux").2.c.statements
          (((ofUnit resultless).check.2.lower "linux").2.c.statements b) () (.done ())) ∧
      ∃ i ∈ resultless.program.items, ∃ d, i.kind = .function d ∧ d.body.tail? = none := by
  have hclean : (ofUnit resultless).Clean := by decide +kernel
  have hlow : (ofUnit resultless).check.2.Lowers "linux" := by decide +kernel
  have hf : (⟨0⟩ : C.FunctionId) ∈
      ((ofUnit resultless).check.2.lower "linux").2.declared.functions := by decide +kernel
  obtain ⟨i, hi, d, x, b, hd, -, hx, hbody, hends⟩ :=
    results_returned resultless "linux" hclean hlow hf
  have houtline : (((ofUnit resultless).check.2.lower "linux").2.c.functions[0]?).map
      (fun x => (x.result.spelling, x.body)) = some ("int32_t", some ⟨0⟩) := by decide +kernel
  have hplain : (((ofUnit resultless).check.2.lower "linux").2.c.statements ⟨0⟩).all
      C.Stmt.isPlain = true := by decide +kernel
  rw [hx, Option.map_some, Option.some.injEq, Prod.mk.injEq, hbody, Option.some.injEq] at houtline
  obtain ⟨hspelling, rfl⟩ := houtline
  have hresult : x.result ≠ .void := fun hvoid => by
    rw [hvoid] at hspelling
    exact absurd hspelling (by decide)
  have hrun := C.Machine.lax_runs ((ofUnit resultless).check.2.lower "linux").2.c.statements hplain
  have hitem : i = function 1 2 "f" (some (.path (head 3) "i32")) [] none := List.mem_singleton.1 hi
  subst hitem
  cases hd
  have halone : Alone (ofUnit resultless).scope resultless.program ⟨1⟩ := by
    refine ⟨by decide +kernel, ?_⟩
    rintro ⟨g, e, value, hm, -⟩
    have hparts : resultless.program.parts =
        [.ascription (.path (head 3) "i32"), .expr (.block (head 2) [] none)] := rfl
    simp [hparts] at hm
  refine ⟨hclean, hlow, hf, x, _, hx, hresult, hbody, ⟨_, hrun⟩, _, hi, _, rfl, ?_⟩
  rcases hends hresult halone (fun _ he => by cases he) _ _ _ hrun with ⟨_, _, hret⟩ | ⟨htail, -⟩
  · cases hret
  · exact htail

end Session

end MiddleEnd
