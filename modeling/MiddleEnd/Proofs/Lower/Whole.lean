/-
  Lowering a whole program. Struct items, constants and statics, signatures and bodies are lowered
  one phase after the other; a function item is lowered to a function of the C program whose body
  is what `EmitsFunction` says (`lowered_of_runs`), unless an earlier one has the same identity.
-/
import MiddleEnd.Proofs.Lower.Phases

namespace MiddleEnd

namespace Lower

variable {k : Checked} {l l' : Lowering} {ids : List IrId}

/-! ## Bodies -/

/-- Once function `f` is filled, it stays as it is. -/
structure Later (f : C.FunctionId) (l l' : Lowering) : Prop where
  setting : setting l' = setting l
  outline : (l'.c.functions[f.index]?).map C.Function.outline =
    (l.c.functions[f.index]?).map C.Function.outline
  size : l.c.blocks.size ≤ l'.c.blocks.size
  kept : ∀ b : C.BlockId, b.index < l.c.blocks.size → l'.c.statements b = l.c.statements b
  declared : l.isDeclared f = true → l'.isDeclared f = true

theorem Later.refl (f : C.FunctionId) (l : Lowering) : Later f l l :=
  ⟨rfl, rfl, Nat.le_refl _, fun _ _ => rfl, id⟩

theorem Later.trans {f : C.FunctionId} {l₁ : Lowering} (h : Later f l l₁) (k : Later f l₁ l') :
    Later f l l' where
  setting := k.setting.trans h.setting
  outline := k.outline.trans h.outline
  size := Nat.le_trans h.size k.size
  kept b hb := (k.kept b (Nat.lt_of_lt_of_le hb h.size)).trans (h.kept b hb)
  declared hd := k.declared (h.declared hd)

theorem Filled.later {id : IrId} {d : FunctionDecl} {f g : C.FunctionId}
    (h : Filled k id d f l l') (hne : g.index ≠ f.index) : Later g l l' where
  setting := h.setting
  outline := h.others g.index hne
  size := h.size
  kept := h.kept
  declared hd := by rw [h.isDeclared, hd, Bool.true_or]

theorem runs_bodyItem {i : Item} {u : Unit} (hr : Runs (bodyItem k i) l u l') :
    (∃ d f, i.kind = .function d ∧ (setting l).functions i.head.id.ir = some f ∧
      (l.isDeclared f = true ∧ l' = l ∨
        l.isDeclared f = false ∧ Filled k i.head.id.ir d f l l')) ∨
      (∀ d, i.kind ≠ .function d) ∧ l' = l := by
  unfold bodyItem at hr
  cases hi : i.kind with
  | function d =>
    rw [hi] at hr
    obtain ⟨f, hf, h⟩ := filled_or_same hr
    exact .inl ⟨d, f, rfl, hf, h⟩
  | _ =>
    rw [hi] at hr
    exact .inr ⟨nofun, (runs_pure.1 hr).2⟩

/-- The functions filled so far are those of these items. -/
structure Filling (k : Checked) (ids : List IrId) (g : Setting) (done : List Item)
    (l : Lowering) : Prop where
  prepared : Prepared k ids l
  setting : setting l = g
  declared : ∀ f, l.isDeclared f = true →
    ∃ i ∈ done, ∃ d, i.kind = .function d ∧ g.functions i.head.id.ir = some f

variable {g : Setting} {done : List Item}

theorem Filling.step (h : Filling k ids g done l) {i : Item} {u : Unit} (hi : i ∈ done)
    (hm : i.declared ⊆ ids) (hr : Runs (bodyItem k i) l u l') : Filling k ids g done l' := by
  rcases runs_bodyItem hr with ⟨d, f, hd, hf, ⟨_, rfl⟩ | ⟨_, hfilled⟩⟩ | ⟨_, rfl⟩
  · exact h
  · have hsub : d.declared ⊆ ids := by
      unfold Item.declared at hm
      rw [hd] at hm
      exact hm
    refine ⟨hfilled.prepared h.prepared hsub, hfilled.setting.trans h.setting, ?_⟩
    intro f' hf'
    rw [hfilled.isDeclared, Bool.or_eq_true, beq_iff_eq] at hf'
    rcases hf' with hf' | rfl
    · exact h.declared f' hf'
    · exact ⟨i, hi, d, hd, by rw [← h.setting]; exact hf⟩
  · exact h

theorem later_of_bodies {f : C.FunctionId} {is : List Item} (hr : Bodies k l is l') (hd : l.isDeclared f = true) :
    Later f l l' := by
  induction hr with
  | nil s => exact .refl f s
  | @cons l l₁ l' i rest hi _ ih =>
    rcases runs_bodyItem hi with ⟨d, f', _, _, ⟨_, rfl⟩ | ⟨hnew, hfilled⟩⟩ | ⟨_, rfl⟩
    · exact ih hd
    · have hne : f.index ≠ f'.index := by
        intro he
        have hff : f = f' := by
          cases f
          cases f'
          exact congrArg _ he
        rw [hff, hnew] at hd
        cases hd
      have hlater := hfilled.later hne
      exact hlater.trans (ih (hlater.declared hd))
    · exact ih hd

/-- Filling functions declares what is in their items. -/
theorem grows_of_bodies {is : List Item} (hr : Bodies k l is l') :
    Grows (is.flatMap Item.locals) (slots l) (slots l') := by
  induction hr with
  | nil s => exact .refl _
  | @cons l l₁ l' i rest hi _ ih =>
    have hone : Grows i.locals (slots l) (slots l₁) := by
      rcases runs_bodyItem hi with ⟨d, f, hd, _, ⟨_, rfl⟩ | ⟨_, hfilled⟩⟩ | ⟨_, rfl⟩
      · exact (Grows.refl _).mono (List.nil_subset _)
      · unfold Item.locals
        rw [hd]
        exact hfilled.grows
      · exact (Grows.refl _).mono (List.nil_subset _)
    exact hone.trans ih

/-- The first function item with an identity is where its function is filled. -/
theorem filled_of_bodies {before : List Item} {i : Item} {d : FunctionDecl} {l₁ l₂ : Lowering}
    {u : Unit} (h : Unfilled k ids l) (hi : i.kind = .function d)
    (hbefore : ∀ j ∈ before, j.declared ⊆ ids)
    (hfirst : ∀ j ∈ before, ∀ e, j.kind = .function e → j.head.id.ir ≠ i.head.id.ir)
    (hr : Bodies k l before l₁) (hthis : Runs (bodyItem k i) l₁ u l₂) :
    ∃ f, Prepared k ids l₁ ∧ (setting l₁).functions i.head.id.ir = some f ∧
      l₁.isDeclared f = false ∧ Filled k i.head.id.ir d f l₁ l₂ := by
  have hstart : Filling k ids (setting l) before l := by
    refine ⟨h.1, rfl, ?_⟩
    intro f hf
    unfold Lowering.isDeclared at hf
    rw [h.2] at hf
    cases hf
  have hfilling : Filling k ids (setting l) before l₁ :=
    hr.mem.invariant (I := fun _ l₁ => Filling k ids (setting l) before l₁)
      (fun hl ⟨hj, hr⟩ => hl.step hj (hbefore _ hj) hr) hstart
  have hprepared := hfilling.prepared
  rcases runs_bodyItem hthis with ⟨d', f, hd, hf, hor⟩ | ⟨hno, _⟩
  · cases hi.symm.trans hd
    have hnew : l₁.isDeclared f = false := by
      by_contra hne
      obtain ⟨j, hj, e, he, hjf⟩ := hfilling.declared f (by simpa using hne)
      rw [← hfilling.setting] at hjf
      exact hfirst j hj e he (hprepared.setting.distinct _ _ f hjf hf)
    rcases hor with ⟨hdone, _⟩ | ⟨_, hfilled⟩
    · rw [hnew] at hdone
      cases hdone
    · exact ⟨f, hprepared, hf, hnew, hfilled⟩
  · exact absurd hi (hno d)

/-! ## Programs -/

/-- The function item at node `id` is function `f` of the C program, with these parameters and body
`b`, which holds what lowering the item emits. Before, no declarations but `ids` had variables. -/
structure Lowered (k : Checked) (ids : List IrId) (id : IrId) (d : FunctionDecl) (l : Lowering)
    (f : C.FunctionId) (vs : List C.VarId) (b : C.BlockId) (m m' : Slots) : Prop where
  setting : ∃ size, (setting l).Proper k size
  function : l.functions[id]? = some f
  written : f ∈ l.declared.functions
  body : ∃ x, l.c.functions[f.index]? = some x ∧ x.params = vs ∧ x.body = some b
  emits : EmitsFunction k (Lower.setting l) l.c.statements id d m vs b m'
  proper : m.Proper
  keys : ∀ id, m.vars id ≠ none → id ∈ ids
  /-- Blocks are numbered in the order in which they are opened. -/
  deeper : ∃ n, n ≤ l.c.blocks.size ∧ b.index < n ∧ ∀ c : C.BlockId, b.index ≤ c.index →
    c.index < n → ∀ s ∈ l.c.statements c, ∀ x ∈ s.blocks, c.index < x.index ∧ x.index < n

theorem body_of_outline {p q : C.Program} {i : Nat} {y : C.Function}
    (h : (q.functions[i]?).map C.Function.outline = (p.functions[i]?).map C.Function.outline)
    (hy : (p.functions[i]?).map C.Function.outline = some y) :
    ∃ x, q.functions[i]? = some x ∧ x.params = y.params ∧ x.body = y.body := by
  rw [hy] at h
  cases hx : q.functions[i]? with
  | none =>
    rw [hx] at h
    cases h
  | some x =>
    rw [hx] at h
    cases h
    exact ⟨x, rfl, rfl, rfl⟩

theorem Filled.lowered {id : IrId} {d : FunctionDecl} {f : C.FunctionId} {l₁ : Lowering}
    (h : Filled k id d f l l₁) (hp : Prepared k ids l) (hf : (Lower.setting l).functions id = some f)
    (hnew : l.isDeclared f = false) (hl : Later f l₁ l') :
    ∃ vs b, Lowered k ids id d l' f vs b (slots l) (slots l₁) := by
  obtain ⟨x, vs, b, hx, hout, hlow, hhigh, hemits⟩ := h.filled
  have hset : Lower.setting l' = Lower.setting l := hl.setting.trans h.setting
  have hagrees : Agrees l'.c.statements l l₁ := fun c _ hc => hl.kept c hc
  obtain ⟨y, hy, hparams, hbody⟩ := body_of_outline hl.outline hout
  refine ⟨vs, b, ?_⟩
  exact {
    setting := ⟨_, by rw [hset]; exact hp.setting⟩
    function := (congrFun (congrArg Setting.functions hset) id).trans hf
    written := by
      have hd := hl.declared (by rw [h.isDeclared, beq_self_eq_true, Bool.or_true])
      exact List.contains_iff_mem.1 hd
    body := ⟨y, hy, by rw [hparams]; exact congrArg (· ++ vs) (hp.blank f hnew x hx), hbody⟩
    emits := by
      rw [hset]
      exact hemits _ hagrees
    proper := hp.slots
    keys := hp.keys
    deeper := by
      refine ⟨l₁.c.blocks.size, hl.size, hhigh, ?_⟩
      intro c hc hc' s hs
      rw [hl.kept c hc'] at hs
      exact h.deeper c (by omega) hc' s hs }

theorem output_of_write (p : C.Program) (d : C.Program.Declarations) :
    ∃ output, (p.write d).2 = { p with output := output } := by
  unfold C.Program.write
  cases C.Program.untilDefect (p.lines d) with
  | mk lines defect => cases defect <;> exact ⟨_, rfl⟩

/-- Writing the program changes nothing but its text. -/
theorem runs_write {u : Unit} (hr : Runs write l u l') :
    ∃ output events, l' = { l with c := { l.c with output := output }, events := events } := by
  unfold write at hr
  rw [runs_get_bind] at hr
  obtain ⟨_, l₁, rnote, h₁⟩ := runs_bind.1 hr
  obtain ⟨_, l₂, rwrite, h₂⟩ := runs_bind.1 h₁
  obtain ⟨_, hl₂⟩ := runs_buildOrFail.1 rwrite
  rw [runs_get_bind] at h₂
  obtain ⟨output, ho⟩ := output_of_write l.c l.declared
  refine ⟨output, l'.events, ?_⟩
  rw [← ho, runs_note.1 h₂, hl₂, runs_note.1 rnote]
  rfl

theorem later_of_write {f : C.FunctionId} {u : Unit} (hr : Runs write l u l') : Later f l l' := by
  obtain ⟨_, _, rfl⟩ := runs_write hr
  exact ⟨rfl, rfl, Nat.le_refl _, fun _ _ => rfl, id⟩

/-- Where function `f` of an item is filled: the bodies of the items before it are lowered from `l₀`
to `l₁`, its own to `l₂`, and those of the items after it up to the text of the program to `l'`. -/
structure Fill (k : Checked) (before : List Item) (i : Item) (after : List Item)
    (f : C.FunctionId) (l₀ l₁ l₂ l' : Lowering) : Prop where
  before : Bodies k l₀ before l₁
  here : Runs (bodyItem k i) l₁ () l₂
  after : ∃ l₃, Bodies k l₂ after l₃ ∧ Runs write l₃ () l'
  function : l₁.functions[i.head.id.ir]? = some f
  free : l₁.isDeclared f = false

/-- A function item is lowered, unless an earlier one has the same identity. The declarations that
may have variables then are those of the items before it and of those that are no functions. -/
theorem fill_of_runs {p : Program} {before after : List Item} {i : Item} {d : FunctionDecl}
    {target : String} {u : Unit} (hp : p.items = before ++ i :: after) (hi : i.kind = .function d)
    (hfirst : ∀ j ∈ before, ∀ e, j.kind = .function e → j.head.id.ir ≠ i.head.id.ir)
    (hvalues : ∀ j ∈ p.items, (∀ e, j.kind ≠ .function e) → j.declared ⊆ ids)
    (hbefore : ∀ j ∈ before, j.declared ⊆ ids)
    (hr : Runs (do enterPrimitives k; program k p) (.empty target) u l') :
    ∃ l₀ l₁ l₂ f vs b, (∀ I, PhaseInvariant p I → I (.empty target) → I l₀) ∧
      Unfilled k ids l₀ ∧ Fill k before i after f l₀ l₁ l₂ l' ∧
      Lowered k ids i.head.id.ir d l' f vs b (slots l₁) (slots l₂) := by
  obtain ⟨l₀, l₃, hphases, hunfilled, hchain, rwrite⟩ := bodies_of_runs hr
  rw [hp] at hchain
  obtain ⟨l₁, hpre, hrest⟩ := hchain.split
  cases hrest with
  | @cons _ l₂ _ _ _ hthis hafter =>
    obtain ⟨f, hprepared, hf, hnew, hfilled⟩ :=
      filled_of_bodies (hunfilled ids hvalues) hi hbefore hfirst hpre hthis
    have hdone : l₂.isDeclared f = true := by
      rw [hfilled.isDeclared, beq_self_eq_true, Bool.or_true]
    obtain ⟨vs, b, h⟩ := hfilled.lowered hprepared hf hnew
      ((later_of_bodies hafter hdone).trans (later_of_write rwrite))
    exact ⟨l₀, l₁, l₂, f, vs, b, hphases, hunfilled ids hvalues,
      ⟨hpre, hthis, ⟨l₃, hafter, rwrite⟩, hf, hnew⟩, h⟩

/-- A function item is lowered, unless an earlier one has the same identity. -/
theorem lowered_of_runs {p : Program} {before after : List Item} {i : Item} {d : FunctionDecl}
    {target : String} {u : Unit} (hp : p.items = before ++ i :: after) (hi : i.kind = .function d)
    (hfirst : ∀ j ∈ before, ∀ e, j.kind = .function e → j.head.id.ir ≠ i.head.id.ir)
    (hr : Runs (do enterPrimitives k; program k p) (.empty target) u l') :
    ∃ f vs b m m', Lowered k ((before ++ after).flatMap Item.declared) i.head.id.ir d l' f vs b m
      m' := by
  have hother : ∀ j ∈ before ++ after, j.declared ⊆ (before ++ after).flatMap Item.declared :=
    fun j hj id hid => List.mem_flatMap.2 ⟨j, hj, hid⟩
  have hvalues : ∀ j ∈ p.items, (∀ e, j.kind ≠ .function e) →
      j.declared ⊆ (before ++ after).flatMap Item.declared := by
    intro j hj hno
    rw [hp] at hj
    rcases List.mem_append.1 hj with hj | hj
    · exact hother j (List.mem_append_left _ hj)
    · rcases List.mem_cons.1 hj with rfl | hj
      · exact absurd hi (hno d)
      · exact hother j (List.mem_append_right _ hj)
  obtain ⟨_, l₁, l₂, f, vs, b, _, _, _, h⟩ := fill_of_runs hp hi hfirst hvalues
    (fun j hj => hother j (List.mem_append_left _ hj)) hr
  exact ⟨f, vs, b, slots l₁, slots l₂, h⟩

end Lower

end MiddleEnd
