/-
  The order of declarations in the text of a lowered program. Types are defined once and before they
  are used in other definitions (`Session.types_defined`). Constants, statics and functions are
  declared once and before the lines that refer to them, apart from statics in the values of
  constants: constants and statics are lowered in the order of their items, but all constants are
  written before all statics (`Session.globals_declared`).
-/
import MiddleEnd.Proofs.C.Sections
import MiddleEnd.Proofs.Check.Pass
import MiddleEnd.Proofs.Lower.Grounded
import MiddleEnd.Proofs.Syntax.Samples

namespace MiddleEnd

namespace Item

/-- Names that are names of items, if of some items only. -/
def Naming (f : Item → Option String) : Prop := ∀ i name, f i = some name → i.name = name

theorem naming_constantName? : Naming constantName? := by
  intro i name h
  unfold constantName? at h
  unfold Item.name
  cases hi : i.kind with
  | constant d =>
    rw [hi] at h
    exact Option.some.inj h
  | _ =>
    rw [hi] at h
    cases h

theorem naming_staticName? : Naming staticName? := by
  intro i name h
  unfold staticName? at h
  unfold Item.name
  cases hi : i.kind with
  | static d =>
    rw [hi] at h
    exact Option.some.inj h
  | _ =>
    rw [hi] at h
    cases h

theorem naming_functionName? : Naming functionName? := by
  intro i name h
  unfold functionName? at h
  unfold Item.name
  cases hi : i.kind with
  | function d =>
    rw [hi] at h
    exact Option.some.inj h
  | _ =>
    rw [hi] at h
    cases h

variable {items : List Item} {f g : Item → Option String}

theorem Naming.nodup (hf : Naming f) (hn : (items.map Item.name).Nodup) :
    (items.filterMap f).Nodup := by
  refine List.pairwise_filterMap.2 ((List.pairwise_map.1 hn).imp ?_)
  intro i j hne name hi other hj he
  rw [← hf i name hi, ← hf j other hj] at he
  exact hne he

/-- Items of different kinds have different names. -/
theorem Naming.disjoint (hf : Naming f) (hg : Naming g) (hfg : ∀ i, f i = none ∨ g i = none)
    (hn : (items.map Item.name).Nodup) {name : String} (hm : name ∈ items.filterMap f) :
    name ∉ items.filterMap g := by
  intro hm'
  obtain ⟨i, hi, hname⟩ := List.mem_filterMap.1 hm
  obtain ⟨j, hj, hname'⟩ := List.mem_filterMap.1 hm'
  obtain rfl := List.inj_on_of_nodup_map hn hi hj ((hf i name hname).trans (hg j name hname').symm)
  rcases hfg i with h | h
  · cases h.symm.trans hname
  · cases h.symm.trans hname'

theorem constantName?_or_staticName? (i : Item) :
    i.constantName? = none ∨ i.staticName? = none := by
  unfold constantName? staticName?
  cases i.kind <;> simp

theorem constantName?_or_functionName? (i : Item) :
    i.constantName? = none ∨ i.functionName? = none := by
  unfold constantName? functionName?
  cases i.kind <;> simp

theorem staticName?_or_functionName? (i : Item) :
    i.staticName? = none ∨ i.functionName? = none := by
  unfold staticName? functionName?
  cases i.kind <;> simp

end Item

namespace Lower

variable {k : Checked} {l l' : Lowering} {items : List Item}

namespace Complete

/-! ## Lines -/

/-- Struct types that are announced are defined. -/
theorem known_of_structName (h : Complete items l) {name : String} (hn : name ∈ l.c.structNames) :
    (C.Ty.named name).KnownIn l.c.typeDefs := by
  rw [← h.grounded.definitions.structs] at hn
  obtain ⟨d, hd, hname⟩ := List.mem_filterMap.1 hn
  refine ⟨name, rfl, .inr (List.mem_map.2 ⟨d, hd, ?_⟩)⟩
  cases d with
  | struct n fields => exact Option.some.inj hname
  | array n element length => cases hname

theorem holds_of_definition (h : Complete items l) {d : C.TypeDef} (hd : d ∈ l.c.typeDefs) :
    ∀ m ∈ d.mentions, Present (· ∈ l.declared.functions) l m := by
  intro m hm
  obtain ⟨before, after, he⟩ := List.append_of_mem hd
  obtain ⟨t, rfl, ht⟩ := h.grounded.definitions.ordered before d after he m hm
  exact ht.mono (he ▸ List.subset_append_left ..)

theorem holds_of_function (h : Complete items l) {i : Nat} {x : C.Function}
    (hx : l.c.functions[i]? = some x) :
    ∀ m ∈ x.result.mentions ++ x.params.filterMap fun v => (l.c.vars[v.index]?).map (.type ·.type),
      Present (· ∈ l.declared.functions) l m := by
  intro m hm
  rcases List.mem_append.1 hm with hm | hm
  · exact h.grounded.mentioned m (.result hx hm)
  · obtain ⟨v, _, hv⟩ := List.mem_filterMap.1 hm
    obtain ⟨y, hy, rfl⟩ := Option.map_eq_some_iff.1 hv
    exact h.grounded.mentioned _ (.typed hy)

/-- Whatever a line mentions is there. -/
theorem holds (h : Complete items l) {line : C.Line} (hl : line ∈ l.c.layout l.declared) :
    ∀ m ∈ line.mentions l.c, Present (· ∈ l.declared.functions) l m := by
  have hnone : ∀ m : C.Mention, m ∈ ([] : List C.Mention) →
      Present (· ∈ l.declared.functions) l m := nofun
  rw [C.Program.layout_eq] at hl
  rcases List.mem_append.1 hl with hl | hl
  · rcases C.Program.mem_front hl with ⟨t, rfl⟩ | ⟨name, hname, rfl⟩ | ⟨d, hd, rfl⟩
    · exact hnone
    · intro m hm
      rw [List.mem_singleton.1 hm]
      exact h.known_of_structName hname
    · exact h.holds_of_definition hd
  rcases List.mem_append.1 hl with hl | hl
  · obtain ⟨e, he, c, hc, rfl⟩ := C.Program.mem_constants hl
    obtain ⟨_, _, hsplit, _⟩ := List.lookup_eq_some_iff.1 hc
    have hin : (e.text, c) ∈ l.c.constants := hsplit ▸ (by simp)
    intro m hm
    rcases List.mem_cons.1 hm with rfl | hm
    · exact h.grounded.mentioned _ (.constant hin)
    · exact h.grounded.mentioned _ (.value hin hm)
  rcases List.mem_append.1 hl with hl | hl
  · obtain ⟨v, _, x, g, hx, hg, rfl⟩ := C.Program.mem_globals hl
    intro m hm
    rcases List.mem_cons.1 hm with rfl | hm
    · exact h.grounded.mentioned _ (.typed hx)
    · exact h.grounded.mentioned _ (.initial hx hg hm)
  rcases List.mem_cons.1 hl with rfl | hl
  · exact hnone
  rcases List.mem_append.1 hl with hl | hl
  · rcases C.Program.mem_prototypeLayout hl with ⟨t, rfl⟩ | ⟨f, x, hx, rfl⟩
    · exact hnone
    · exact h.holds_of_function hx
  · obtain ⟨f, _, hl⟩ := List.mem_flatMap.1 hl
    rcases C.Program.mem_functionLayout hl with ⟨t, rfl⟩ | ⟨x, hx, rfl⟩ | ⟨n, b, s, hs, rfl⟩
    · exact hnone
    · exact h.holds_of_function hx
    · exact fun m hm => h.grounded.mentioned m (.block hs hm)

/-! ## Types -/

/-- A type is scalar or defined in one line. -/
theorem defined_once (h : Complete items l) (hn : l.c.structNames.Nodup)
    (hs : ∀ name ∈ l.c.structNames, name ∉ C.scalars ∧ ∀ n, name ≠ C.Program.arrayName n)
    {line : C.Line} (hl : line ∈ l.c.layout l.declared) {t : C.Ty}
    (ht : .type t ∈ line.mentions l.c) : ∃ s, t = .named s ∧
      ((l.c.layout l.declared).filterMap C.Line.defines?).count s =
        if s ∈ C.scalars then 0 else 1 := by
  obtain ⟨s, rfl, hknown⟩ := h.holds hl _ ht
  refine ⟨s, rfl, ?_⟩
  have hnames := h.grounded.definitions.names_notMem_scalars fun name hm => (hs name hm).1
  have hnodup := h.grounded.definitions.nodup_names hn fun name hm => (hs name hm).2
  rw [C.Program.defines_eq, C.Program.typeDefs_layout]
  split
  · exact List.count_eq_zero.2 fun hm => hnames s hm ‹_›
  · exact List.count_eq_one_of_mem hnodup (hknown.resolve_left ‹_›)

/-- What a definition mentions is scalar or defined in an earlier line. -/
theorem defined_before (h : Complete items l) {before after : List C.Line} {d : C.TypeDef}
    (hl : l.c.layout l.declared = before ++ .typeDef d :: after) :
    ∀ m ∈ d.mentions, ∃ s, m = .type (.named s) ∧
      (s ∈ C.scalars ∨ s ∈ before.filterMap C.Line.defines?) := by
  intro m hm
  have hdefs := C.Program.typeDefs_layout (p := l.c) (d := l.declared)
  rw [hl, List.filterMap_append, List.filterMap_cons] at hdefs
  obtain ⟨_, rfl, s, rfl, hs⟩ := h.grounded.definitions.ordered _ d _ hdefs.symm m hm
  rw [C.Program.defines_eq]
  exact ⟨s, rfl, hs⟩

/-! ## Constants, statics and functions -/

variable {before after : List C.Line} {line : C.Line} {name : String}

theorem constant_lookup (ho : Sequenced l) (hn : .constant name ∈ l.declared.constants) :
    ∃ c, l.c.constants.lookup name = some c := by
  obtain ⟨before, after, he⟩ := List.append_of_mem hn
  obtain ⟨_, c, hname, hc, _⟩ := ho.constants before _ after he
  cases hname
  exact ⟨c, hc⟩

theorem global_of_declared (ho : Sequenced l) {v : C.VarId} (hv : v ∈ l.declared.vars) :
    ∃ x g, l.c.vars[v.index]? = some x ∧ x.global = some g := by
  obtain ⟨before, after, he⟩ := List.append_of_mem hv
  obtain ⟨x, g, hx, hg, _⟩ := ho.vars before v after he
  exact ⟨x, g, hx, hg⟩

/-- The constants that lines declare are those of the items. -/
theorem declares_constants (h : Complete items l) (ho : Sequenced l) :
    (l.declared.constants.filterMap l.c.constant?).filterMap C.Line.declares? =
      items.filterMap Item.constantName? := by
  rw [List.filterMap_filterMap]
  have hone : ∀ e ∈ l.declared.constants,
      (l.c.constant? e).bind C.Line.declares? = some e.text := by
    intro e he
    obtain ⟨name, _, rfl⟩ := List.mem_map.1 (h.constants ▸ he)
    obtain ⟨c, hc⟩ := constant_lookup ho he
    rw [C.Program.constant?, C.Expr.text, hc]
    rfl
  rw [List.filterMap_congr hone, h.constants, List.filterMap_map]
  exact List.filterMap_some

/-- The variables that lines declare are the statics of the items. -/
theorem declares_globals (h : Complete items l) (ho : Sequenced l) :
    (l.declared.vars.filterMap l.c.global?).filterMap C.Line.declares? =
      items.filterMap Item.staticName? := by
  rw [List.filterMap_filterMap]
  have hone : ∀ v ∈ l.declared.vars, (l.c.global? v).bind C.Line.declares? =
      (l.c.vars[v.index]?).map (·.name) := by
    intro v hv
    obtain ⟨x, g, hx, hg⟩ := global_of_declared ho hv
    rw [C.Program.global?, hx, Option.bind_some, hg]
    rfl
  have hnames := congrArg (List.filterMap id) h.vars
  rw [C.Program.namesOf, List.filterMap_map, List.filterMap_map] at hnames
  rw [List.filterMap_congr hone]
  exact hnames.trans List.filterMap_some

/-- Lines about types and prototypes refer to no constant, static or function. -/
theorem references_of_types (h : ∀ m ∈ line.mentions l.c, ∃ t, m = .type t) :
    line.references l.c = [] := by
  refine List.filterMap_eq_nil_iff.2 fun m hm => ?_
  obtain ⟨t, rfl⟩ := h m hm
  rfl

theorem references_front (h : Complete items l) (hl : line ∈ l.c.front l.declared) :
    line.references l.c = [] := by
  rcases C.Program.mem_front hl with ⟨t, rfl⟩ | ⟨name, _, rfl⟩ | ⟨d, hd, rfl⟩
  · rfl
  · rfl
  · refine references_of_types fun m hm => ?_
    obtain ⟨before, after, he⟩ := List.append_of_mem hd
    obtain ⟨t, rfl, _⟩ := h.grounded.definitions.ordered before d after he m hm
    exact ⟨t, rfl⟩

theorem references_prototypes {fs : List C.FunctionId} (hl : line ∈ l.c.prototypeLayout fs) :
    line.references l.c = [] := by
  rcases C.Program.mem_prototypeLayout hl with ⟨t, rfl⟩ | ⟨f, x, _, rfl⟩
  · rfl
  · refine references_of_types fun m hm => ?_
    rcases List.mem_append.1 hm with hm | hm
    · unfold C.Ty.mentions at hm
      split at hm
      · exact absurd hm List.not_mem_nil
      · exact ⟨_, List.mem_singleton.1 hm⟩
    · obtain ⟨v, _, hv⟩ := List.mem_filterMap.1 hm
      obtain ⟨y, _, rfl⟩ := Option.map_eq_some_iff.1 hv
      exact ⟨_, rfl⟩

/-- What precedes is declared by a line. -/
theorem declared_of_precedes (ho : Sequenced l) {constants : List C.Expr} {vars : List C.VarId}
    (hc : constants ⊆ l.declared.constants) {m : C.Mention} (hp : Precedes constants vars l.c m)
    {A : C.FunctionId → Prop} (hm : Present A l m) (hr : l.c.reference? m = some name) :
    name ∈ (constants.filterMap l.c.constant?).filterMap C.Line.declares? ∨
      name ∈ (vars.filterMap l.c.global?).filterMap C.Line.declares? := by
  cases m with
  | constant n =>
    cases hr
    obtain ⟨c, hlook⟩ := constant_lookup ho (hc hp)
    exact .inl (C.Program.declares_constant hp hlook)
  | var v n =>
    obtain ⟨x, hx, hv⟩ := hp
    obtain ⟨y, hy, rfl, _⟩ := hm
    cases hx.symm.trans hy
    unfold C.Program.reference? C.Program.isGlobal at hr
    dsimp only at hr
    rw [hx] at hr
    cases hg : x.global with
    | none =>
      rw [Option.any_some, hg] at hr
      cases hr
    | some g =>
      rw [Option.any_some, hg] at hr
      cases hr
      exact .inr (C.Program.declares_global (hv (by rw [hg]; nofun)) hx hg)
  | function f n => exact hp.elim
  | _ => cases hr

/-- What a line refers to is declared by a line. -/
theorem declared_of_holds (ho : Sequenced l) {m : C.Mention}
    (hm : Present (· ∈ l.declared.functions) l m) (hr : l.c.reference? m = some name) :
    name ∈ (l.declared.constants.filterMap l.c.constant?).filterMap C.Line.declares? ∨
      name ∈ (l.declared.vars.filterMap l.c.global?).filterMap C.Line.declares? ∨
      name ∈ (l.c.prototypeLayout l.declared.functions).filterMap C.Line.declares? := by
  have hother : ∀ {m}, Precedes l.declared.constants l.declared.vars l.c m →
      Present (· ∈ l.declared.functions) l m → l.c.reference? m = some name →
      name ∈ (l.declared.constants.filterMap l.c.constant?).filterMap C.Line.declares? ∨
        name ∈ (l.declared.vars.filterMap l.c.global?).filterMap C.Line.declares? ∨
        name ∈ (l.c.prototypeLayout l.declared.functions).filterMap C.Line.declares? :=
    fun hp hm hr => (declared_of_precedes ho (List.Subset.refl _) hp hm hr).imp_right .inl
  cases m with
  | constant n => exact hother (m := .constant n) hm hm hr
  | var v n =>
    obtain ⟨x, hx, hn, hg⟩ := hm
    exact hother (m := .var v n) ⟨x, hx, hg⟩ ⟨x, hx, hn, hg⟩ hr
  | function f n =>
    obtain ⟨hf, x, hx, rfl⟩ := hm
    cases hr
    exact .inr (.inr (C.Program.declares_prototype hf hx))
  | _ => cases hr

/-- The line of a constant refers to constants before it and to statics. -/
theorem declared_of_constant (ho : Sequenced l)
    (hholds : ∀ m ∈ line.mentions l.c, Present (· ∈ l.declared.functions) l m)
    {earlier later : List C.Expr} {e : C.Expr} (he : l.declared.constants = earlier ++ e :: later)
    (hline : l.c.constant? e = some line) (hname : name ∈ line.references l.c) :
    line.isConstant = true ∧
      (name ∈ (earlier.filterMap l.c.constant?).filterMap C.Line.declares? ∨
        name ∈ (l.declared.vars.filterMap l.c.global?).filterMap C.Line.declares?) := by
  obtain ⟨n, c, rfl, hlook, hall⟩ := ho.constants earlier e later he
  rw [C.Program.constant?, C.Expr.text, hlook] at hline
  cases hline
  obtain ⟨m, hm, hr⟩ := List.mem_filterMap.1 hname
  refine ⟨rfl, ?_⟩
  rcases List.mem_cons.1 hm with rfl | hm'
  · cases hr
  · exact declared_of_precedes ho (he ▸ List.subset_append_left ..) (hall m hm') (hholds m hm) hr

/-- The line of a static refers to constants and to statics before it. -/
theorem declared_of_global (ho : Sequenced l)
    (hholds : ∀ m ∈ line.mentions l.c, Present (· ∈ l.declared.functions) l m)
    {earlier later : List C.VarId} {v : C.VarId} (hv : l.declared.vars = earlier ++ v :: later)
    (hline : l.c.global? v = some line) (hname : name ∈ line.references l.c) :
    line.isConstant = false ∧
      (name ∈ (l.declared.constants.filterMap l.c.constant?).filterMap C.Line.declares? ∨
        name ∈ (earlier.filterMap l.c.global?).filterMap C.Line.declares?) := by
  obtain ⟨x, g, hx, hg, hall⟩ := ho.vars earlier v later hv
  rw [C.Program.global?, hx, Option.bind_some, hg] at hline
  cases hline
  obtain ⟨m, hm, hr⟩ := List.mem_filterMap.1 hname
  refine ⟨rfl, ?_⟩
  rcases List.mem_cons.1 hm with rfl | hm'
  · cases hr
  · exact declared_of_precedes ho (List.Subset.refl _) (hall m hm') (hholds m hm) hr

/-- The lines of functions refer to what all lines before the functions declare. -/
theorem declared_of_function (ho : Sequenced l)
    (hholds : ∀ m ∈ line.mentions l.c, Present (· ∈ l.declared.functions) l m)
    (hl : l.c.back l.declared = before ++ line :: after) (hname : name ∈ line.references l.c) :
    line.isConstant = false ∧
      (name ∈ (l.declared.constants.filterMap l.c.constant?).filterMap C.Line.declares? ∨
        name ∈ (l.declared.vars.filterMap l.c.global?).filterMap C.Line.declares? ∨
        name ∈ before.filterMap C.Line.declares?) := by
  have hnone : line.references l.c ≠ [] := List.ne_nil_of_mem hname
  obtain ⟨m, hm, hr⟩ := List.mem_filterMap.1 hname
  rcases List.cons_eq_append_iff.1 hl with ⟨rfl, hplain⟩ | ⟨before, rfl, htail⟩
  · cases (List.cons.inj hplain).1
    cases hm
  rcases C.split_append htail with ⟨rest, hprototypes⟩ | ⟨fs, rfl, hfs⟩
  · have hin : line ∈ l.c.prototypeLayout l.declared.functions := hprototypes ▸ by simp
    exact absurd (references_prototypes hin) hnone
  · refine ⟨?_, (declared_of_holds ho (hholds m hm) hr).imp_right (.imp_right fun hd => ?_)⟩
    · have hin : line ∈ l.declared.functions.flatMap l.c.functionLayout := hfs ▸ by simp
      obtain ⟨f, _, hin⟩ := List.mem_flatMap.1 hin
      rcases C.Program.mem_functionLayout hin with ⟨_, rfl⟩ | ⟨_, _, rfl⟩ | ⟨_, _, _, _, rfl⟩
      all_goals rfl
    · rw [List.filterMap_cons, List.filterMap_append]
      exact List.mem_append_left _ hd

/-- Where names of items differ, a name that a line refers to is declared before, unless the line
declares a constant and the name is that of a static. -/
theorem declared_iff (h : Complete items l) (hn : (items.map Item.name).Nodup)
    (hl : l.c.layout l.declared = before ++ line :: after) (hname : name ∈ line.references l.c) :
    name ∈ before.filterMap C.Line.declares? ↔
      ¬ (line.isConstant = true ∧ name ∈ items.filterMap Item.staticName?) := by
  have ho := h.ordered (Item.naming_constantName?.nodup hn)
  have hin : line ∈ l.c.layout l.declared := by
    rw [hl]
    simp
  have hholds := h.holds hin
  have hplain : ∀ {before : List C.Line}, line.isConstant = false →
      name ∈ before.filterMap C.Line.declares? →
      (name ∈ before.filterMap C.Line.declares? ↔
        ¬ (line.isConstant = true ∧ name ∈ items.filterMap Item.staticName?)) :=
    fun hc hd => ⟨fun _ ⟨hc', _⟩ => Bool.false_ne_true (hc.symm.trans hc'), fun _ => hd⟩
  rw [C.Program.layout_eq] at hl
  rcases C.split_append hl with ⟨rest, hfront⟩ | ⟨cs, rfl, hl₁⟩
  · have hin : line ∈ l.c.front l.declared := hfront ▸ by simp
    exact absurd (h.references_front hin) (List.ne_nil_of_mem hname)
  rcases C.split_append hl₁ with ⟨rest, hconstants⟩ | ⟨vs, rfl, hl₂⟩
  · obtain ⟨earlier, e, later, he, rfl, hline⟩ := C.split_filterMap hconstants
    obtain ⟨hc, hd⟩ := declared_of_constant ho hholds he hline hname
    rw [List.filterMap_append, C.Program.declares_front, List.nil_append, hc]
    rw [h.declares_globals ho] at hd
    have hdisjoint : name ∈ (earlier.filterMap l.c.constant?).filterMap C.Line.declares? →
        name ∉ items.filterMap Item.staticName? := fun hd => by
      refine Item.naming_constantName?.disjoint Item.naming_staticName?
        Item.constantName?_or_staticName? hn ?_
      rw [← h.declares_constants ho, he, List.filterMap_append, List.filterMap_append]
      exact List.mem_append_left _ hd
    exact ⟨fun hd hs => hdisjoint hd hs.2, fun hs => hd.resolve_right fun hd => hs ⟨rfl, hd⟩⟩
  rcases C.split_append hl₂ with ⟨rest, hvars⟩ | ⟨fs, rfl, hl₃⟩
  · obtain ⟨earlier, v, later, hv, rfl, hline⟩ := C.split_filterMap hvars
    obtain ⟨hc, hd⟩ := declared_of_global ho hholds hv hline hname
    refine hplain hc ?_
    simp only [List.filterMap_append, List.mem_append]
    exact .inr hd
  · obtain ⟨hc, hd⟩ := declared_of_function ho hholds hl₃ hname
    refine hplain hc ?_
    simp only [List.filterMap_append, List.mem_append]
    exact .inr hd

/-- Functions that are to be written are functions of the items. -/
theorem nameOf?_mem (h : Complete items l) {f : C.FunctionId} (hf : l.c.nameOf? f = some name) :
    name ∈ items.filterMap Item.functionName? := by
  obtain ⟨x, hx, rfl⟩ := Option.map_eq_some_iff.1 hf
  rw [← h.functionNames]
  exact List.mem_map_of_mem (Array.mem_toList_iff.2 (Array.mem_of_getElem? hx))

theorem nodup_functionNames (h : Complete items l)
    (hn : (items.filterMap Item.functionName?).Nodup) :
    (l.declared.functions.filterMap l.c.nameOf?).Nodup := by
  refine List.Nodup.filterMap ?_ h.distinct
  intro f g name hf hg
  obtain ⟨x, hx, hxn⟩ := Option.map_eq_some_iff.1 hf
  obtain ⟨y, hy, hyn⟩ := Option.map_eq_some_iff.1 hg
  have hget : ∀ {i : Nat} {x : C.Function}, l.c.functions[i]? = some x →
      (items.filterMap Item.functionName?)[i]? = some x.name := by
    intro i x hx
    rw [← h.functionNames, List.getElem?_map, Array.getElem?_toList, hx]
    rfl
  have hf' := hget hx
  have hsame : f.index = g.index := by
    refine (List.getElem?_inj (List.getElem?_eq_some_iff.1 hf').1 hn).1 ?_
    rw [hf', hget hy, hxn, hyn]
  cases f
  cases g
  exact congrArg _ hsame

/-- Where names of items differ, no constant, static or function is declared twice. -/
theorem nodup_declares (h : Complete items l) (hn : (items.map Item.name).Nodup) :
    ((l.c.layout l.declared).filterMap C.Line.declares?).Nodup := by
  have ho := h.ordered (Item.naming_constantName?.nodup hn)
  have hfunctions : ∀ {name}, name ∈ l.declared.functions.filterMap l.c.nameOf? →
      name ∈ items.filterMap Item.functionName? := fun hm => by
    obtain ⟨f, _, hf⟩ := List.mem_filterMap.1 hm
    exact h.nameOf?_mem hf
  rw [C.Program.layout_eq, List.filterMap_append, List.filterMap_append, List.filterMap_append,
    C.Program.declares_front, h.declares_constants ho, h.declares_globals ho,
    C.Program.declares_back, List.nil_append]
  refine List.nodup_append.2 ⟨Item.naming_constantName?.nodup hn, List.nodup_append.2
    ⟨Item.naming_staticName?.nodup hn,
      h.nodup_functionNames (Item.naming_functionName?.nodup hn), ?_⟩, ?_⟩
  · rintro name hs _ hf rfl
    exact Item.naming_staticName?.disjoint Item.naming_functionName?
      Item.staticName?_or_functionName? hn hs (hfunctions hf)
  · rintro name hc _ hm rfl
    rcases List.mem_append.1 hm with hs | hf
    · exact Item.naming_constantName?.disjoint Item.naming_staticName?
        Item.constantName?_or_staticName? hn hc hs
    · exact Item.naming_constantName?.disjoint Item.naming_functionName?
        Item.constantName?_or_functionName? hn hc (hfunctions hf)

end Complete

/-- The text of a lowered program is that of its lines. -/
theorem output_of_write_runs {u : Unit} (hr : Runs write l u l') : l'.c.output =
    String.join ((l'.c.layout l'.declared).map fun line => line.text l'.c ++ "\n") := by
  unfold write at hr
  rw [runs_get_bind] at hr
  obtain ⟨_, l₁, rnote, h₁⟩ := runs_bind.1 hr
  obtain ⟨_, l₂, rwrite, h₂⟩ := runs_bind.1 h₁
  obtain ⟨hok, hl₂⟩ := runs_buildOrFail.1 rwrite
  rw [runs_get_bind] at h₂
  have hdeclared : l₂.declared = l.declared := by
    rw [hl₂, runs_note.1 rnote]
    rfl
  rw [runs_note.1 h₂]
  show l₂.c.output = String.join ((l₂.c.layout l₂.declared).map fun line => line.text l₂.c ++ "\n")
  rw [hdeclared, hl₂]
  exact C.Program.output_of_layout hok

end Lower

namespace Session

variable {u : CompilationUnit} {target : String} {l : Lowering}

/-- Lowering the checked program of a session. -/
theorem runs_lower (h : (ofUnit u).check.2.lower target = (.ok (), l)) :
    Lower.Runs
      (do Lower.enterPrimitives (ofUnit u).check.2.checked
          Lower.program (ofUnit u).check.2.checked u.program)
      (.empty target) () l := by
  have hr : Lower.Runs
      (do Lower.enterPrimitives (ofUnit u).check.2.checked
          Lower.program (ofUnit u).check.2.checked (ofUnit u).check.2.program)
      (.empty target) () l := h
  rw [check_program] at hr
  exact hr

/-- In the text of a lowered program whose struct types have names of their own, every type is
scalar or defined once, and what a definition mentions is scalar or defined before. -/
theorem types_defined (h : (ofUnit u).check.2.lower target = (.ok (), l))
    (hdistinct : (u.program.items.filterMap Item.structName?).Nodup)
    (hown : ∀ name ∈ u.program.items.filterMap Item.structName?,
      name ∉ C.scalars ∧ ∀ n, name ≠ C.Program.arrayName n) :
    l.c.output = String.join ((l.c.layout l.declared).map fun line => line.text l.c ++ "\n") ∧
    (∀ line ∈ l.c.layout l.declared, ∀ t, .type t ∈ line.mentions l.c → ∃ s, t = .named s ∧
      ((l.c.layout l.declared).filterMap C.Line.defines?).count s =
        if s ∈ C.scalars then 0 else 1) ∧
    ∀ before d after, l.c.layout l.declared = before ++ .typeDef d :: after → ∀ m ∈ d.mentions,
      ∃ s, m = .type (.named s) ∧ (s ∈ C.scalars ∨ s ∈ before.filterMap C.Line.defines?) := by
  have hr := runs_lower h
  have hcomplete := Lower.complete_of_runs hr
  obtain ⟨_, _, _, _, _, rwrite⟩ := Lower.bodies_of_runs hr
  rw [← hcomplete.structNames] at hdistinct hown
  exact ⟨Lower.output_of_write_runs rwrite,
    fun _ hl _ ht => hcomplete.defined_once hdistinct hown hl ht,
    fun _ _ _ hl => hcomplete.defined_before hl⟩

open Samples in
/-- The structs `P` and `Q` have names of their own. -/
theorem own_names_wrapping : ∀ name ∈ wrapping.program.items.filterMap Item.structName?,
    name ∉ C.scalars ∧ ∀ n, name ≠ C.Program.arrayName n := by
  have hnames : wrapping.program.items.filterMap Item.structName? = ["P", "Q"] := by decide +kernel
  have hown : ∀ name ∈ ["P", "Q"], name ∉ C.scalars ∧
      name.toList.take 3 ≠ ['_', '_', 'a'] := by decide
  rw [hnames]
  exact fun name hname => ⟨(hown name hname).1, fun n he =>
    (hown name hname).2 (he ▸ C.Program.take_arrayName n)⟩

open Samples in
/-- `struct P { a: [i32; 2] }  struct Q { p: P, r: [P; 3] }  fn f(x: [i32; 2]) { }` has two struct
types and two wrappers, one of them used twice. -/
theorem types_defined_wrapping : (ofUnit wrapping).Clean ∧
    ∃ l, (ofUnit wrapping).check.2.lower "linux" = (.ok (), l) ∧
      (l.c.layout l.declared).filterMap C.Line.defines? = ["__array_0", "P", "__array_1", "Q"] ∧
      (∀ line ∈ l.c.layout l.declared, ∀ t, .type t ∈ line.mentions l.c → ∃ s, t = .named s ∧
        ((l.c.layout l.declared).filterMap C.Line.defines?).count s =
          if s ∈ C.scalars then 0 else 1) ∧
      ∀ before d after, l.c.layout l.declared = before ++ .typeDef d :: after →
        ∀ m ∈ d.mentions, ∃ s, m = .type (.named s) ∧
          (s ∈ C.scalars ∨ s ∈ before.filterMap C.Line.defines?) := by
  have hclean : (ofUnit wrapping).Clean := by decide +kernel
  have hok : ((ofUnit wrapping).check.2.lower "linux").1.toBool = true := by decide +kernel
  have hdefines : (((ofUnit wrapping).check.2.lower "linux").2.c.layout
      ((ofUnit wrapping).check.2.lower "linux").2.declared).filterMap C.Line.defines? =
        ["__array_0", "P", "__array_1", "Q"] := by decide +kernel
  rcases hrun : (ofUnit wrapping).check.2.lower "linux" with ⟨e | u, l⟩
  · rw [hrun] at hok
    cases hok
  · rw [hrun] at hdefines
    obtain ⟨_, honce, hbefore⟩ := types_defined hrun (by decide +kernel) own_names_wrapping
    exact ⟨hclean, l, rfl, hdefines, honce, hbefore⟩

/-- In the text of a lowered program whose items have names of their own, constants, statics and
functions are declared once, and a line that refers to one stands behind its declaration, unless it
declares a constant and refers to a static. -/
theorem globals_declared (h : (ofUnit u).check.2.lower target = (.ok (), l))
    (hdistinct : (u.program.items.map Item.name).Nodup) :
    l.c.output = String.join ((l.c.layout l.declared).map fun line => line.text l.c ++ "\n") ∧
    ((l.c.layout l.declared).filterMap C.Line.declares?).Nodup ∧
    ∀ before line after, l.c.layout l.declared = before ++ line :: after →
      ∀ name ∈ line.references l.c, name ∈ before.filterMap C.Line.declares? ↔
        ¬ (line.isConstant = true ∧ name ∈ u.program.items.filterMap Item.staticName?) := by
  have hr := runs_lower h
  have hcomplete := Lower.complete_of_runs hr
  obtain ⟨_, _, _, _, _, rwrite⟩ := Lower.bodies_of_runs hr
  exact ⟨Lower.output_of_write_runs rwrite, hcomplete.nodup_declares hdistinct,
    fun _ _ _ hl _ hname => hcomplete.declared_iff hdistinct hl hname⟩

open Samples in
/-- In `static s: i32 = 1;  const c: i32 = s;` the constant is written before the static that it
refers to. -/
theorem globals_declared_initializing : (ofUnit initializing).Clean ∧
    ∃ l, (ofUnit initializing).check.2.lower "linux" = (.ok (), l) ∧
      ∃ before line after, l.c.layout l.declared = before ++ line :: after ∧
        line.references l.c = ["s"] ∧ "s" ∉ before.filterMap C.Line.declares? := by
  have hclean : (ofUnit initializing).Clean := by decide +kernel
  have hok : ((ofUnit initializing).check.2.lower "linux").1.toBool = true := by decide +kernel
  have hline : ((((ofUnit initializing).check.2.lower "linux").2.c.layout
      ((ofUnit initializing).check.2.lower "linux").2.declared).drop 5).head?.map (fun line =>
        (line.isConstant, line.references ((ofUnit initializing).check.2.lower "linux").2.c)) =
      some (true, ["s"]) := by decide +kernel
  rcases hrun : (ofUnit initializing).check.2.lower "linux" with ⟨e | u, l⟩
  · rw [hrun] at hok
    cases hok
  · rw [hrun] at hline
    dsimp only at hline
    rcases hdrop : (l.c.layout l.declared).drop 5 with _ | ⟨line, after⟩
    · rw [hdrop] at hline
      cases hline
    · rw [hdrop, List.head?_cons, Option.map_some, Option.some.injEq, Prod.mk.injEq] at hline
      have hsplit : l.c.layout l.declared = (l.c.layout l.declared).take 5 ++ line :: after := by
        rw [← hdrop, List.take_append_drop]
      obtain ⟨_, _, hiff⟩ := globals_declared hrun (by decide +kernel)
      refine ⟨hclean, l, rfl, _, line, after, hsplit, hline.2, fun hm => ?_⟩
      refine (hiff _ line after hsplit "s" ?_).1 hm ⟨hline.1, by decide +kernel⟩
      rw [hline.2]
      exact List.mem_singleton_self _

end Session

end MiddleEnd
