/-
  Lowering single items. What holds between any two of them is `Prepared`: it is kept by the
  lowering of a struct, a constant, a static and a signature, and by the filling of a function.
-/
import MiddleEnd.Proofs.Lower.Functions
import MiddleEnd.Proofs.Lower.Slots

namespace MiddleEnd.Lower

variable {k : Checked} {l l' : Lowering} {ids more : List IrId}

/-- The setting of a program with so many functions: primitive and struct types have C types,
constants are used by name, and every function item has a function of its own. -/
structure Setting.Proper (k : Checked) (g : Setting) (size : Nat) : Prop where
  types : ∀ r ct, g.types r = some ct →
    ∃ t, k.types.get? r = some t ∧ (primitiveTy? t = some ct ∨ t.struct?.isSome = true)
  constants : ∀ id e, g.constants id = some e → ∃ name, e = C.Expr.constant name
  inside : ∀ id f, g.functions id = some f → f.index < size
  distinct : ∀ id id' f, g.functions id = some f → g.functions id' = some f → id = id'

/-- What holds between two items, if no declarations but these have variables. -/
structure Prepared (k : Checked) (ids : List IrId) (l : Lowering) : Prop where
  setting : (setting l).Proper k l.c.functions.size
  blank : ∀ f : C.FunctionId, l.isDeclared f = false →
    ∀ x, l.c.functions[f.index]? = some x → x.params = []
  slots : (slots l).Proper
  keys : ∀ id, (Lower.slots l).vars id ≠ none → id ∈ ids

theorem size_of_outline {p q : C.Program}
    (h : ∀ i : Nat, (q.functions[i]?).map C.Function.outline =
      (p.functions[i]?).map C.Function.outline) : q.functions.size = p.functions.size := by
  have hiff : ∀ i, q.functions.size ≤ i ↔ p.functions.size ≤ i := by
    intro i
    rw [← Array.getElem?_eq_none_iff, ← Array.getElem?_eq_none_iff, ← Option.map_eq_none_iff, h i,
      Option.map_eq_none_iff]
  exact Nat.le_antisymm ((hiff _).2 (Nat.le_refl _)) ((hiff _).1 (Nat.le_refl _))

theorem params_of_outline {p q : C.Program} {i : Nat} {x : C.Function}
    (h : (q.functions[i]?).map C.Function.outline = (p.functions[i]?).map C.Function.outline)
    (hx : q.functions[i]? = some x) : ∃ y, p.functions[i]? = some y ∧ x.params = y.params := by
  rw [hx, Option.map_some] at h
  cases hy : p.functions[i]? with
  | none =>
    rw [hy] at h
    cases h
  | some y =>
    rw [hy, Option.map_some] at h
    have hparams : x.outline.params = y.outline.params :=
      congrArg C.Function.params (Option.some.inj h)
    exact ⟨y, rfl, hparams⟩

/-- Variables for some declarations leave no others with a variable. -/
theorem Grows.keys {m m' : Slots} (h : Grows more m m') (hk : ∀ id, m.vars id ≠ none → id ∈ ids)
    (hm : more ⊆ ids) : ∀ id, m'.vars id ≠ none → id ∈ ids := by
  intro id hid
  by_cases hin : id ∈ more
  · exact hm hin
  · rw [h.others id hin] at hid
    exact hk id hid

namespace Prepared

/-- A run that touches no more than variables and statements. -/
theorem of_changes {a : List C.Stmt} (h : Prepared k ids l) (hc : Changes l a l')
    (hg : Grows more (Lower.slots l) (Lower.slots l')) (hm : more ⊆ ids) : Prepared k ids l' where
  setting := by
    rw [hc.setting, size_of_outline hc.outline]
    exact h.setting
  blank f hf x hx := by
    unfold Lowering.isDeclared at hf
    rw [hc.declared] at hf
    obtain ⟨y, hy, hparams⟩ := params_of_outline (hc.outline f.index) hx
    exact hparams.trans (h.blank f hf y hy)
  slots := hg.proper h.slots
  keys := hg.keys h.keys hm

theorem of_quiet (h : Prepared k ids l) (hq : Quiet l l') : Prepared k ids l' := by
  have hg : Grows [] (Lower.slots l) (Lower.slots l') := by
    rw [hq.slots]
    exact .refl _
  exact h.of_changes hq.changes hg (List.nil_subset _)

/-- Lowering an expression touches no more than variables and statements. -/
theorem expr (h : Prepared k ids l) {e : Expr} {v : C.Expr} (hr : Runs (expr k e) l v l')
    (hm : Part.declaredAll e.parts ⊆ ids) : Prepared k ids l' ∧ l'.declared = l.declared := by
  obtain ⟨a, ha, hemits⟩ := (emitsAll e).1 hr
  exact ⟨h.of_changes ha (hemits l'.c.statements fun _ _ _ => rfl).grows hm, ha.declared⟩

/-- Changing what is to be written, but not which functions. -/
theorem declare (h : Prepared k ids l) {d : C.Program.Declarations}
    (hd : d.functions = l.declared.functions) : Prepared k ids { l with declared := d } where
  setting := h.setting
  blank f hf := by
    unfold Lowering.isDeclared at hf
    rw [show ({ l with declared := d } : Lowering).declared.functions = l.declared.functions
      from hd] at hf
    exact h.blank f hf
  slots := h.slots
  keys := h.keys

end Prepared

/-! ## Steps on items -/

theorem quiet_types : ∀ {ms : Members} {ts : List (String × C.Ty)} {l l' : Lowering},
    Runs (types ms) l ts l' → Quiet l l'
  | .nil, _, _, l', h => by
    obtain ⟨_, rfl⟩ := runs_pure.1 h
    exact .refl l'
  | .cons name t rest, _, l, l', h => by
    obtain ⟨ct, l₁, rct, h₁⟩ := runs_bind.1 h
    obtain ⟨cts, l₂, rcts, h₂⟩ := runs_bind.1 h₁
    obtain ⟨_, rfl⟩ := runs_pure.1 h₂
    exact (quiet_type rct).2.trans (quiet_types rcts)

theorem quiet_resultType {t : Ty} {ct : Option C.Ty} (h : Runs (resultType t) l ct l') :
    Quiet l l' := by
  unfold resultType at h
  cases ht : t.isUnit with
  | true =>
    rw [ht] at h
    obtain ⟨_, rfl⟩ := runs_pure.1 h
    exact .refl l'
  | false =>
    rw [ht] at h
    obtain ⟨r, l₁, rr, h₁⟩ := runs_bind.1 h
    obtain ⟨_, rfl⟩ := runs_pure.1 h₁
    exact (quiet_type rr).2

namespace Prepared

theorem setType (h : Prepared k ids l) {r : IrId} {t : Ty} {ct : C.Ty} {u : Unit}
    (ht : k.types.get? r = some t) (hct : primitiveTy? t = some ct ∨ t.struct?.isSome = true)
    (hr : Runs (setType r ct) l u l') : Prepared k ids l' := by
  have hl : l' = { l with types := l.types.insert r ct } := runs_modify.1 hr
  rw [hl]
  refine ⟨⟨?_, h.setting.constants, h.setting.inside, h.setting.distinct⟩, h.blank, h.slots, h.keys⟩
  intro r' ct' hget
  have hget : (l.types.insert r ct)[r']? = some ct' := hget
  rw [Std.TreeMap.getElem?_insert] at hget
  split at hget
  · rename_i he
    cases hget
    exact ⟨t, by rw [← Std.compare_eq_iff_eq.1 he]; exact ht, hct⟩
  · exact h.setting.types r' ct' hget

theorem structItem (h : Prepared k ids l) {i : Item} {d : StructDecl} {u : Unit}
    (hr : Runs (structItem k i d) l u l') :
    Prepared k ids l' ∧ l'.declared.functions = l.declared.functions := by
  obtain ⟨t, l₁, rt, h₁⟩ := runs_bind.1 hr
  obtain ⟨ht, rfl⟩ := runs_require.1 rt
  cases hs : t.struct? with
  | none =>
    simp only [hs] at h₁
    exact absurd h₁ not_runs_defect
  | some found =>
    simp only [hs] at h₁
    obtain ⟨ms, l₂, rms, h₂⟩ := runs_bind.1 h₁
    obtain ⟨ct, l₃, rct, h₃⟩ := runs_bind.1 h₂
    obtain ⟨_, hl⟩ := runs_build.1 rct
    obtain ⟨_, l₄, rset, rdeclare⟩ := runs_bind.1 h₃
    have hquiet : Quiet l₁ l₃ := by
      rw [hl]
      exact (quiet_types rms).trans ⟨.of_program l₂ rfl rfl, rfl, rfl⟩
    rw [runs_modify.1 rdeclare]
    refine ⟨((h.of_quiet hquiet).setType ht (.inr (by rw [hs]; rfl)) rset).declare rfl, ?_⟩
    rw [runs_modify.1 rset]
    have hsame := congrArg C.Program.Declarations.functions hquiet.changes.declared
    exact hsame

theorem constantItem (h : Prepared k ids l) {i : Item} {d : ConstantDecl} {u : Unit}
    (hm : Part.declaredAll d.value.parts ⊆ ids) (hr : Runs (constantItem k i d) l u l') :
    Prepared k ids l' ∧ l'.declared.functions = l.declared.functions := by
  obtain ⟨t, l₁, rt, h₁⟩ := runs_bind.1 hr
  obtain ⟨_, rfl⟩ := runs_require.1 rt
  obtain ⟨ct, l₂, rct, h₂⟩ := runs_bind.1 h₁
  obtain ⟨v, l₃, rv, h₃⟩ := runs_bind.1 h₂
  obtain ⟨e, l₄, re, h₄⟩ := runs_bind.1 h₃
  obtain ⟨rfl, hl⟩ := runs_build.1 re
  obtain ⟨_, l₅, rset, rdeclare⟩ := runs_bind.1 h₄
  obtain ⟨hvalue, hdeclared⟩ := (h.of_quiet (quiet_type rct).2).expr rv hm
  have hsame := congrArg C.Program.Declarations.functions
    (hdeclared.trans (quiet_type rct).2.changes.declared)
  have hconst : Prepared k ids l₄ := by
    rw [hl]
    exact hvalue.of_quiet ⟨.of_program l₃ rfl rfl, rfl, rfl⟩
  rw [runs_modify.1 rdeclare, runs_modify.1 rset]
  refine ⟨declare ?_ rfl, ?_⟩
  rotate_left
  · rw [hl]
    exact hsame
  refine ⟨⟨hconst.setting.types, ?_, hconst.setting.inside, hconst.setting.distinct⟩, hconst.blank,
    hconst.slots, hconst.keys⟩
  intro id e hget
  have hget : (l₄.constants.insert i.head.id.ir _)[id]? = some e := hget
  rw [Std.TreeMap.getElem?_insert] at hget
  split at hget
  · cases hget
    exact ⟨_, rfl⟩
  · exact hconst.setting.constants id e hget

theorem staticItem (h : Prepared k ids l) {i : Item} {d : StaticDecl} {u : Unit}
    (hi : i.head.id.ir ∈ ids) (hm : Part.declaredAll d.value.parts ⊆ ids)
    (hr : Runs (staticItem k i d) l u l') :
    Prepared k ids l' ∧ l'.declared.functions = l.declared.functions := by
  obtain ⟨t, l₁, rt, h₁⟩ := runs_bind.1 hr
  obtain ⟨_, rfl⟩ := runs_require.1 rt
  obtain ⟨ct, l₂, rct, h₂⟩ := runs_bind.1 h₁
  obtain ⟨v, l₃, rv, h₃⟩ := runs_bind.1 h₂
  obtain ⟨x, l₄, rx, h₄⟩ := runs_bind.1 h₃
  obtain ⟨rfl, hl⟩ := runs_build.1 rx
  obtain ⟨_, l₅, rset, rdeclare⟩ := runs_bind.1 h₄
  obtain ⟨hvalue, hdeclared⟩ := (h.of_quiet (quiet_type rct).2).expr rv hm
  have hsame := congrArg C.Program.Declarations.functions
    (hdeclared.trans (quiet_type rct).2.changes.declared)
  have hl₅ := runs_modify.1 rset
  have hslots : Lower.slots l₅ = (Lower.slots l₃).declare i.head.id.ir := by
    rw [hl₅, hl]
    unfold Lower.slots Slots.declare
    simp only [Std.TreeMap.getElem?_insert, Std.compare_eq_iff_eq, C.Program.globalVariable,
      Array.size_push]
    simp only [eq_comm]
    rfl
  have hgrows : Grows [i.head.id.ir] (Lower.slots l₃) (Lower.slots l₅) := by
    rw [hslots]
    exact .declare _ _
  have hstatic : Prepared k ids l₅ := {
    setting := by
      rw [hl₅, hl]
      exact hvalue.setting
    blank := by
      rw [hl₅, hl]
      exact hvalue.blank
    slots := hgrows.proper hvalue.slots
    keys := hgrows.keys hvalue.keys (List.cons_subset.2 ⟨hi, List.nil_subset _⟩) }
  rw [runs_modify.1 rdeclare]
  refine ⟨hstatic.declare rfl, ?_⟩
  rw [hl₅, hl]
  exact hsame

theorem functionSignature (h : Prepared k ids l) {i : Item} {d : FunctionDecl} {u : Unit}
    (hr : Runs (functionSignature k i d) l u l') :
    Prepared k ids l' ∧ l'.declared.functions = l.declared.functions := by
  obtain ⟨⟨ps, result⟩, l₁, rsig, h₁⟩ := runs_bind.1 hr
  obtain ⟨t, l₂, rt, h₂⟩ := runs_bind.1 rsig
  obtain ⟨_, rfl⟩ := runs_require.1 rt
  obtain ⟨_, rfl⟩ := runs_require.1 h₂
  obtain ⟨ms, l₂, rms, h₃⟩ := runs_bind.1 h₁
  obtain ⟨r, l₃, rr, h₄⟩ := runs_bind.1 h₃
  obtain ⟨f, l₄, rf, rset⟩ := runs_bind.1 h₄
  have hquiet := (quiet_types rms).trans (quiet_resultType rr)
  have hold := h.of_quiet hquiet
  obtain ⟨hf, hl⟩ := runs_buildOrFail.1 rf
  cases hf
  have hl' := runs_modify.1 rset
  have hsame := congrArg C.Program.Declarations.functions hquiet.changes.declared
  refine ⟨?_, by rw [hl', hl]; exact hsame⟩
  have hfunctions : ∀ id f, l'.functions[id]? = some f →
      id = i.head.id.ir ∧ f = ⟨l₃.c.functions.size⟩ ∨ l₃.functions[id]? = some f := by
    intro id f hget
    rw [hl', hl] at hget
    have hget : (l₃.functions.insert i.head.id.ir ⟨l₃.c.functions.size⟩)[id]? = some f := hget
    rw [Std.TreeMap.getElem?_insert] at hget
    split at hget
    · rename_i he
      cases hget
      exact .inl ⟨(Std.compare_eq_iff_eq.1 he).symm, rfl⟩
    · exact .inr hget
  have hsize : l'.c.functions.size = l₃.c.functions.size + 1 := by
    rw [hl', hl]
    exact Array.size_push _
  refine ⟨⟨?_, ?_, ?_, ?_⟩, ?_, ?_, ?_⟩
  · rw [hl', hl]
    exact hold.setting.types
  · rw [hl', hl]
    exact hold.setting.constants
  · intro id f hget
    rw [hsize]
    rcases hfunctions id f hget with ⟨_, rfl⟩ | hget
    · exact Nat.lt_succ_self _
    · exact Nat.lt_succ_of_lt (hold.setting.inside id f hget)
  · intro a b f ha hb
    rcases hfunctions a f ha with ⟨rfl, hf⟩ | ha <;> rcases hfunctions b f hb with ⟨rfl, hf'⟩ | hb
    · rfl
    · rw [hf] at hb
      exact absurd (hold.setting.inside b _ hb) (Nat.lt_irrefl _)
    · rw [hf'] at ha
      exact absurd (hold.setting.inside a _ ha) (Nat.lt_irrefl _)
    · exact hold.setting.distinct a b f ha hb
  · intro f hf x hx
    rw [hl', hl] at hf hx
    have hx : (l₃.c.functions.push ⟨d.name, r.getD .void, [], none, []⟩)[f.index]? = some x := hx
    rw [Array.getElem?_push] at hx
    split at hx
    · cases hx
      rfl
    · exact hold.blank f hf x hx
  · rw [hl', hl]
    exact hold.slots
  · rw [hl', hl]
    exact hold.keys

end Prepared

/-! ## Bodies -/

/-- Filling a function, if it is not filled yet. -/
theorem filled_or_same {i : Item} {d : FunctionDecl} {u : Unit}
    (hr : Runs (functionBody k i d) l u l') : ∃ f, l.functions[i.head.id.ir]? = some f ∧
      (l.isDeclared f = true ∧ l' = l ∨
        l.isDeclared f = false ∧ Filled k i.head.id.ir d f l l') := by
  have hrun := hr
  unfold functionBody at hr
  rw [runs_get_bind] at hr
  obtain ⟨f, l₀, rf, h₀⟩ := runs_bind.1 hr
  obtain ⟨hf, rfl⟩ := runs_require.1 rf
  refine ⟨f, hf, ?_⟩
  cases hd : l₀.isDeclared f with
  | true =>
    rw [runs_get_bind, hd] at h₀
    exact .inl ⟨rfl, (runs_pure.1 h₀).2⟩
  | false => exact .inr ⟨rfl, filled_functionBody hf hd hrun⟩

namespace Filled

variable {id : IrId} {d : FunctionDecl} {f : C.FunctionId}

theorem isDeclared (h : Filled k id d f l l') (g : C.FunctionId) :
    l'.isDeclared g = (l.isDeclared g || g == f) := by
  unfold Lowering.isDeclared
  rw [h.declared]
  simp [beq_eq_decide]

theorem grows (h : Filled k id d f l l') : Grows d.declared (slots l) (slots l') := by
  obtain ⟨_, _, _, _, _, _, _, hem⟩ := h.filled
  exact (hem l'.c.statements fun _ _ _ => rfl).grows

theorem size_functions (h : Filled k id d f l l') :
    l'.c.functions.size = l.c.functions.size := by
  obtain ⟨x, vs, b, hx, hout, _⟩ := h.filled
  have hiff : ∀ i, l'.c.functions.size ≤ i ↔ l.c.functions.size ≤ i := by
    intro i
    rw [← Array.getElem?_eq_none_iff, ← Array.getElem?_eq_none_iff]
    by_cases hi : i = f.index
    · rw [hi, hx, ← Option.map_eq_none_iff (f := C.Function.outline), hout]
      exact ⟨nofun, nofun⟩
    · rw [← Option.map_eq_none_iff (f := C.Function.outline), h.others i hi,
        Option.map_eq_none_iff]
  exact Nat.le_antisymm ((hiff _).2 (Nat.le_refl _)) ((hiff _).1 (Nat.le_refl _))

theorem prepared (h : Filled k id d f l l') (hp : Prepared k ids l) (hm : d.declared ⊆ ids) :
    Prepared k ids l' where
  setting := by
    rw [h.setting, h.size_functions]
    exact hp.setting
  blank g hg x hx := by
    rw [h.isDeclared, Bool.or_eq_false_iff] at hg
    have hne : g.index ≠ f.index := by
      intro he
      have hgf : g = f := by
        cases g
        cases f
        exact congrArg _ he
      rw [hgf, beq_self_eq_true] at hg
      cases hg.2
    obtain ⟨y, hy, hparams⟩ := params_of_outline (h.others g.index hne) hx
    exact hparams.trans (hp.blank g hg.1 y hy)
  slots := h.grows.proper hp.slots
  keys := h.grows.keys hp.keys hm

end Filled

end MiddleEnd.Lower
