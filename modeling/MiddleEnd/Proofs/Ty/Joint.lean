/-
  Combining many types. Types without errors have a joint upper bound as soon as every two of them
  combine: they agree in kind wherever they are settled, so no order of combining them runs into a
  disagreement, and all orders lead to types that are alike (`Ty.foldlM_combine_perm`).

  The elements of an array literal settle on their joint type, so neither whether the literal is
  accepted nor the type of its elements depends on their order.
-/
import MiddleEnd.Proofs.Check.Parts
import MiddleEnd.Proofs.Syntax.Samples
import MiddleEnd.Proofs.Ty.Order

namespace MiddleEnd

/-! ## Three types -/

mutual

/-- If every two of three types settle, the third settles with what the first two settle on. -/
theorem Ty.Settles.three : ∀ {a b c : Ty}, a.Settles b c → ∀ ⦃u d e : Ty⦄, a.Settles u d →
    b.Settles u e → ∃ f, c.Settles u f := by
  intro a b c h u d e hau hbu
  cases h with
  | errorRight | inferLeft => exact ⟨e, hbu⟩
  -- only types with parts settle on a type that neither of them is
  | array r s n hxy =>
    have ih := hxy.three
    cases hau with
    | errorRight q => exact ⟨_, .errorRight q rfl⟩
    | inferRight q => exact ⟨_, .inferRight q rfl rfl⟩
    | array _ q _ hxv =>
      cases hbu with
      | array _ _ _ hyv =>
        obtain ⟨f, hf⟩ := ih hxv hyv
        exact ⟨_, .array r q n hf⟩
  | field r s name hxy =>
    have ih := hxy.three
    cases hau with
    | errorRight q => exact ⟨_, .errorRight q rfl⟩
    | inferRight q => exact ⟨_, .inferRight q rfl rfl⟩
    | field _ q _ hxv =>
      cases hbu with
      | field _ _ _ hyv =>
        obtain ⟨f, hf⟩ := ih hxv hyv
        exact ⟨_, .field r q name hf⟩
  | fn r s hps hxy =>
    have ihs := hps.three
    have ih := hxy.three
    cases hau with
    | errorRight q => exact ⟨_, .errorRight q rfl⟩
    | inferRight q => exact ⟨_, .inferRight q rfl rfl⟩
    | fn _ q hpsv hxv =>
      cases hbu with
      | fn _ _ hqsv hyv =>
        obtain ⟨fs, hfs⟩ := ihs hpsv hqsv
        obtain ⟨f, hf⟩ := ih hxv hyv
        exact ⟨_, .fn r q hfs hf⟩
  | _ => exact ⟨d, hau⟩
termination_by structural a _ _ _ => a

theorem Members.Settles.three : ∀ {a b c : Members}, a.Settles b c → ∀ ⦃u d e : Members⦄,
    a.Settles u d → b.Settles u e → ∃ f, c.Settles u f := by
  intro a b c h u d e hau hbu
  cases h with
  | nil => exact ⟨d, hau⟩
  | cons m n hxy hps =>
    have ih := hxy.three
    have ihs := hps.three
    cases hau with
    | cons _ k hxv hpsv =>
      cases hbu with
      | cons _ _ hyv hqsv =>
        obtain ⟨f, hf⟩ := ih hxv hyv
        obtain ⟨fs, hfs⟩ := ihs hpsv hqsv
        exact ⟨_, .cons m k hf hfs⟩
termination_by structural a _ _ _ => a

end

/-! ## Any number of types -/

/-- The two types combine, whatever to. -/
def Ty.Agrees (a b : Ty) : Prop := ∃ c, a.combine? b = some c

theorem Ty.agrees_iff {a b : Ty} : a.Agrees b ↔ ∃ c, a.Settles b c :=
  exists_congr fun _ => combine?_eq_some_iff

namespace Ty

variable {a c d : Ty} {ts ts' : List Ty}

/-- Combining types one after the other never fails where every two of them combine. -/
theorem combineAll?_of_agrees : ∀ {ts : List Ty} {a : Ty}, (∀ t ∈ ts, a.Agrees t) →
    (∀ t ∈ ts, ∀ u ∈ ts, t.Agrees u) → ∃ c, a.combineAll? ts = some c
  | [], a, _, _ => ⟨a, rfl⟩
  | t :: ts, a, ha, hts => by
    obtain ⟨hat, ha⟩ := List.forall_mem_cons.1 ha
    obtain ⟨b, hb⟩ := hat
    have hbts : ∀ u ∈ ts, b.Agrees u := by
      intro u hu
      obtain ⟨d, hd⟩ := agrees_iff.1 (ha u hu)
      obtain ⟨e, he⟩ := agrees_iff.1 (hts t (List.mem_cons_self ..) u (List.mem_cons_of_mem _ hu))
      exact agrees_iff.2 ((settles_of_combine? hb).three hd he)
    obtain ⟨c, hc⟩ := combineAll?_of_agrees hbts fun u hu v hv =>
      hts u (List.mem_cons_of_mem _ hu) v (List.mem_cons_of_mem _ hv)
    exact ⟨c, by rw [combineAll?, hb]; exact hc⟩

theorem below_combineAll? : ∀ {ts : List Ty} {a c : Ty}, a.combineAll? ts = some c →
    a.Below c ∧ ∀ t ∈ ts, t.Below c
  | [], _, _, h => ⟨Option.some.inj h ▸ .refl _, fun _ hm => absurd hm List.not_mem_nil⟩
  | t :: ts, a, c, h => by
    obtain ⟨b, hb, hc⟩ := Option.bind_eq_some_iff.1 h
    obtain ⟨hbc, hts⟩ := below_combineAll? hc
    have hleast := least_of_combine? hb
    exact ⟨hleast.left.trans hbc, List.forall_mem_cons.2 ⟨hleast.right.trans hbc, hts⟩⟩

theorem combineAll?_below : ∀ {ts : List Ty} {a c d : Ty}, a.combineAll? ts = some c →
    a.Below d → (∀ t ∈ ts, t.Below d) → c.Below d
  | [], _, _, _, h, ha, _ => Option.some.inj h ▸ ha
  | t :: ts, a, c, d, h, ha, hts => by
    obtain ⟨b, hb, hc⟩ := Option.bind_eq_some_iff.1 h
    obtain ⟨ht, hts⟩ := List.forall_mem_cons.1 hts
    exact combineAll?_below hc ((least_of_combine? hb).least d ha ht) hts

theorem errorFree_combineAll? : ∀ {ts : List Ty} {a c : Ty}, a.errorFree = true →
    (∀ t ∈ ts, t.errorFree = true) → a.combineAll? ts = some c → c.errorFree = true
  | [], _, _, ha, _, h => Option.some.inj h ▸ ha
  | t :: ts, a, c, ha, hts, h => by
    obtain ⟨b, hb, hc⟩ := Option.bind_eq_some_iff.1 h
    obtain ⟨ht, hts⟩ := List.forall_mem_cons.1 hts
    exact errorFree_combineAll? ((settles_of_combine? hb).errorFree ha ht) hts hc

/-- Types without errors combine one after the other exactly where every two of them combine. -/
theorem combineAll?_infer_isSome_iff (r : IrId) (hts : ∀ t ∈ ts, t.errorFree = true) :
    (∃ c, (Ty.infer r).combineAll? ts = some c) ↔ ∀ t ∈ ts, ∀ u ∈ ts, t.Agrees u := by
  constructor
  · rintro ⟨c, hc⟩ t ht u hu
    have hbelow := (below_combineAll? hc).2
    exact agrees_iff.2 ((hbelow t ht).settles (hbelow u hu) (errorFree_combineAll? rfl hts hc))
  · intro h
    refine combineAll?_of_agrees (fun t ht => ?_) h
    exact agrees_iff.2 ⟨t, .inferLeft r (isError_of_errorFree (hts t ht))⟩

/-- The order of types without errors does not matter for what they combine to. -/
theorem combineAll?_infer_perm {r : IrId} (r' : IrId) (hts : ∀ t ∈ ts, t.errorFree = true)
    (hp : ts.Perm ts') (h : (Ty.infer r).combineAll? ts = some c) :
    ∃ c', (Ty.infer r').combineAll? ts' = some c' ∧ c.Alike c' := by
  have hts' : ∀ t ∈ ts', t.errorFree = true := fun t ht => hts t (hp.mem_iff.2 ht)
  have hagree := (combineAll?_infer_isSome_iff r hts).1 ⟨c, h⟩
  obtain ⟨c', h'⟩ := (combineAll?_infer_isSome_iff r' hts').2 fun t ht u hu =>
    hagree t (hp.mem_iff.2 ht) u (hp.mem_iff.2 hu)
  -- both are least upper bounds of the same types
  have hbelow := (below_combineAll? h).2
  have hbelow' := (below_combineAll? h').2
  have hle := combineAll?_below h (.infer r c') fun t ht => hbelow' t (hp.mem_iff.1 ht)
  have hge := combineAll?_below h' (.infer r' c) fun t ht => hbelow t (hp.mem_iff.2 ht)
  exact ⟨c', h', hle.alike hge⟩

/-- The same with what happens where the types do not combine. -/
theorem combineAll?_infer_rel (r r' : IrId) (hts : ∀ t ∈ ts, t.errorFree = true)
    (hp : ts.Perm ts') :
    Option.Rel Alike ((Ty.infer r).combineAll? ts) ((Ty.infer r').combineAll? ts') := by
  have hts' : ∀ t ∈ ts', t.errorFree = true := fun t ht => hts t (hp.mem_iff.2 ht)
  rcases h : (Ty.infer r).combineAll? ts with _ | c
  · rcases h' : (Ty.infer r').combineAll? ts' with _ | c'
    · exact .none
    · obtain ⟨c, hc, -⟩ := combineAll?_infer_perm r hts' hp.symm h'
      rw [h] at hc
      cases hc
  · obtain ⟨c', hc', halike⟩ := combineAll?_infer_perm r' hts hp h
    rw [hc']
    exact .some halike

theorem foldlM_combine_eq_ok : ∀ {ts : List Ty} {a c : Ty},
    ts.foldlM combine a = .ok c ↔ a.combineAll? ts = some c
  | [], a, c => by simp [combineAll?, pure, Except.pure]
  | t :: ts, a, c => by
    rw [List.foldlM_cons, combineAll?, combine]
    cases a.combine? t with
    | none => simp [bind, Except.bind]
    | some b => exact foldlM_combine_eq_ok

end Ty

/-! ## Array literals -/

namespace Check

variable {s s' : Scope} {α β : Type}

/-- What the first step comes to, if both together come to something. -/
theorem result_of_bind {m : Check α} {f : α → Check β} {p : Progress} {b : β}
    (h : ((m >>= f).run.run p).1 = .ok b) :
    ∃ a, (m.run.run p).1 = .ok a ∧ ((f a).run.run (m.run.run p).2).1 = .ok b := by
  rw [run_bind] at h
  rcases hm : m.run.run p with ⟨e | a, q⟩ <;> rw [hm] at h
  · cases h
  · exact ⟨a, rfl, h⟩

theorem result_bind {m : Check α} {f : α → Check β} {p : Progress} {a : α}
    (h : (m.run.run p).1 = .ok a) :
    ((m >>= f).run.run p).1 = ((f a).run.run (m.run.run p).2).1 := by
  rw [run_bind]
  rcases hm : m.run.run p with ⟨e | a', q⟩ <;> rw [hm] at h <;> cases h
  rfl

theorem result_recording (id : IrId) (m : Check (Option Ty)) (p : Progress) :
    ((recording id m).run.run p).1 = (m.run.run p).1 := by
  unfold recording
  rw [run_bind]
  rcases m.run.run p with ⟨e | _ | t, q⟩ <;> rfl

theorem result_reconcile (a b : Ty) (l : Location) (p : Progress) :
    ((reconcile a b l).run.run p).1 = .ok (a.combine? b) := by
  have hc : ((combine a b).run.run p).1 = .ok (a.combine b) := rfl
  unfold reconcile
  rw [result_bind hc, Ty.combine]
  cases a.combine? b <;> rfl

/-- Elements settle on their joint type, if there is one. -/
theorem result_settle : ∀ (ts : List (Ty × Location)) (a : Ty) (p : Progress),
    ((settle a ts).run.run p).1 = .ok (a.combineAll? (ts.map (·.1)))
  | [], _, _ => rfl
  | (t, l) :: ts, a, p => by
    rw [settle, result_bind (result_reconcile a t l p), List.map_cons, Ty.combineAll?]
    cases a.combine? t with
    | none => rfl
    | some b => exact result_settle ts b _

theorem result_arrayOf (ref : IrId) (t : Ty) {ts : List Ty} {loci : List Location}
    (hl : ts.length = loci.length) (p : Progress) :
    ((arrayOf ref (some t) (ts.map some) loci).run.run p).1 =
      .ok ((t.combineAll? ts).map (.array ref · (ts.length + 1))) := by
  have hz : (ts.zip loci).map (·.1) = ts := List.map_fst_zip (Nat.le_of_eq hl)
  unfold arrayOf
  rw [mapM_id_eq_some.2 rfl]
  dsimp only
  rw [result_bind (result_settle (ts.zip loci) t p), hz, List.length_map]
  cases t.combineAll? ts <;> rfl

theorem length_of_exprs : ∀ {es : List Expr} {rs : List (Option Ty)} {p : Progress},
    ((exprs s es).run.run p).1 = .ok rs → rs.length = es.length
  | [], _, _, h => by
    cases h
    rfl
  | e :: es, rs, p, h => by
    rw [exprs] at h
    obtain ⟨r, -, h⟩ := result_of_bind h
    obtain ⟨rs', hrs, h⟩ := result_of_bind h
    cases h
    rw [List.length_cons, List.length_cons, length_of_exprs hrs]

/-- The type of an array literal: its elements must agree, and there must be some. -/
theorem result_array (r : IrId) {ts : List Ty} (hts : ∀ t ∈ ts, t.errorFree = true) (h : Head)
    {es : List Expr} (final : Bool) {p : Progress}
    (hes : ((exprs s es).run.run p).1 = .ok (ts.map some)) :
    ((expr s (.array h es) final).run.run p).1 = .ok (if ts = [] then none else
      ((Ty.infer r).combineAll? ts).map (.array h.id.ir · ts.length)) := by
  cases es with
  | nil =>
    cases ts with
    | cons => cases hes
    | nil => rfl
  | cons e es =>
    rw [exprs] at hes
    obtain ⟨first, hfirst, hes⟩ := result_of_bind hes
    obtain ⟨rest, hrest, heq⟩ := result_of_bind hes
    cases ts with
    | nil => cases heq
    | cons t ts =>
      cases heq
      have hlength := length_of_exprs hrest
      rw [List.length_map] at hlength
      rw [expr, result_recording, result_bind hfirst, result_bind hrest,
        result_arrayOf _ _ (by rw [hlength, List.length_map]), if_neg (List.cons_ne_nil t ts),
        Ty.combineAll?,
        (Ty.Settles.inferLeft r (Ty.isError_of_errorFree
          (hts t (List.mem_cons_self ..)))).combine?_eq]
      rfl

end Check

/-! ## Any order -/

/-- Types without errors combine one after the other if and only if every two of them combine, and
their order does not matter for what they combine to. So an array literal is accepted whatever the
order of its elements, and its type is the same up to what types carry along. -/
theorem Ty.combine_any_order (ts : List Ty) (hts : ∀ t ∈ ts, t.errorFree = true) :
    (∀ r, (∃ c, ts.foldlM combine (.infer r) = .ok c) ↔
      ∀ a ∈ ts, ∀ b ∈ ts, ∃ c, a.combine b = .ok c) ∧
    (∀ ts', ts.Perm ts' →
      (∀ r c, ts.foldlM combine (.infer r) = .ok c →
        ∀ r', ∃ c', ts'.foldlM combine (.infer r') = .ok c' ∧ c.Alike c') ∧
      ∀ (s s' : Scope) (h h' : Head) (es es' : List Expr) (final final' : Bool) (p p' : Progress),
        ((Check.exprs s es).run.run p).1 = .ok (ts.map some) →
        ((Check.exprs s' es').run.run p').1 = .ok (ts'.map some) →
        ∃ ty ty', ((Check.expr s (.array h es) final).run.run p).1 = .ok ty ∧
          ((Check.expr s' (.array h' es') final').run.run p').1 = .ok ty' ∧
          Option.Rel Ty.Alike ty ty') := by
  simp only [foldlM_combine_eq_ok, Check.combine_eq_ok]
  refine ⟨fun r => combineAll?_infer_isSome_iff r hts, fun ts' hp => ⟨fun r c hc r' =>
    combineAll?_infer_perm _ hts hp hc, fun s s' h h' es es' final final' p p' hes hes' => ?_⟩⟩
  have hts' : ∀ t ∈ ts', t.errorFree = true := fun t ht => hts t (hp.mem_iff.2 ht)
  refine ⟨_, _, Check.result_array noId hts h final hes,
    Check.result_array noId hts' h' final' hes', ?_⟩
  rcases ts with _ | ⟨t, ts⟩
  · cases hp.nil_eq
    exact .none
  · have hne' : ts' ≠ [] := fun he => List.cons_ne_nil t ts (he ▸ hp).eq_nil
    have hrel := combineAll?_infer_rel noId noId hts hp
    rw [if_neg (List.cons_ne_nil t ts), if_neg hne', ← hp.length_eq]
    generalize (infer noId).combineAll? (t :: ts) = c at hrel ⊢
    generalize (infer noId).combineAll? ts' = c' at hrel ⊢
    cases hrel with
    | none => exact .none
    | some halike =>
      refine .some ?_
      show Ty.shape _ = Ty.shape _
      rw [shape, shape, show shape _ = shape _ from halike]

/-- The elements of `[x, y]` and of `[y, x]`, where `x` is an array that is not settled yet and `y`
one of `i32`. -/
theorem Ty.combine_any_order_unsettled :
    let x : Ty := .array ⟨5⟩ (.infer ⟨6⟩) 2
    let y : Ty := .array ⟨7⟩ (.int ⟨8⟩ .w32) 2
    let s : Scope := ⟨(Registry.empty.setNode ⟨⟨0⟩, ⟨3⟩⟩ ⟨3⟩).setNode ⟨⟨0⟩, ⟨4⟩⟩ ⟨4⟩,
      (((Bindings.empty.bindName ⟨1⟩ ⟨3⟩).bindName ⟨2⟩ ⟨4⟩).define ⟨⟨3⟩, ⟨3⟩⟩).define ⟨⟨4⟩, ⟨4⟩⟩⟩
    let p : Progress := ⟨(TypeTable.empty.record ⟨3⟩ x).record ⟨4⟩ y, [], []⟩
    let es := [Samples.name 1 "x", Samples.name 2 "y"]
    (∀ t ∈ [x, y], t.errorFree = true) ∧ [x, y].Perm [y, x] ∧
    ((Check.exprs s es).run.run p).1 = .ok [some x, some y] ∧
    ((Check.exprs s es.reverse).run.run p).1 = .ok [some y, some x] ∧
    (∃ c, [x, y].foldlM combine (.infer ⟨9⟩) = .ok c) ∧
    (∃ c', [y, x].foldlM combine (.infer ⟨9⟩) = .ok c' ∧ y.Alike c') ∧
    ∃ ty ty', ((Check.expr s (.array (Samples.head 10) es) false).run.run p).1 = .ok ty ∧
      ((Check.expr s (.array (Samples.head 11) es.reverse) true).run.run p).1 = .ok ty' ∧
      Option.Rel Ty.Alike ty ty' := by
  intro x y s p es
  have hts : ∀ t ∈ [x, y], t.errorFree = true := by decide
  have hp : [x, y].Perm [y, x] := .swap ..
  have hes : ((Check.exprs s es).run.run p).1 = .ok [some x, some y] := by rfl
  have hes' : ((Check.exprs s es.reverse).run.run p).1 = .ok [some y, some x] := by rfl
  have hfold : [x, y].foldlM combine (.infer ⟨9⟩) = .ok (.array ⟨5⟩ (.int ⟨8⟩ .w32) 2) := by rfl
  obtain ⟨_, horder⟩ := combine_any_order [x, y] hts
  obtain ⟨c', hc', halike⟩ := (horder [y, x] hp).1 ⟨9⟩ _ hfold ⟨9⟩
  exact ⟨hts, hp, hes, hes', ⟨_, hfold⟩, ⟨c', hc', halike⟩,
    (horder [y, x] hp).2 s s (Samples.head 10) (Samples.head 11) es es.reverse false true p p hes hes'⟩

end MiddleEnd
