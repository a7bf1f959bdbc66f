/-
  What a lowered program mentions is there (`complete_of_runs`): types are defined, constants and
  variables of the whole program are declared, and the functions that are called are to be written.
  Where the names of constants differ, each initial value refers to what is declared before it,
  apart from statics in the values of constants: all statics are written after all constants
  (`Sequenced`).
-/
import MiddleEnd.Proofs.Lower.Mentions

namespace MiddleEnd

namespace Item

/-- The name of a struct item. -/
def structName? (i : Item) : Option String :=
  match i.kind with
  | .struct d => some d.name
  | _ => none

/-- The name of a constant. -/
def constantName? (i : Item) : Option String :=
  match i.kind with
  | .constant d => some d.name
  | _ => none

/-- The name of a static. -/
def staticName? (i : Item) : Option String :=
  match i.kind with
  | .static d => some d.name
  | _ => none

/-- The name of a function item. -/
def functionName? (i : Item) : Option String :=
  match i.kind with
  | .function d => some d.name
  | _ => none

end Item

/-- The names of variables. -/
def C.Program.namesOf (p : C.Program) (vs : List C.VarId) : List (Option String) :=
  vs.map fun v => (p.vars[v.index]?).map (·.name)

namespace Lower

variable {α : Type} {k : Checked} {l l' : Lowering} {A : C.FunctionId → Prop}

theorem Present.mono {B : C.FunctionId → Prop} {m : C.Mention} (h : Present A l m)
    (hAB : ∀ f, A f → B f) : Present B l m := by
  cases m with
  | function f name => exact ⟨hAB f h.1, h.2⟩
  | _ => exact h

theorem Grounded.mono {B : C.FunctionId → Prop} (h : Grounded A l) (hAB : ∀ f, A f → B f) :
    Grounded B l :=
  { h with mentioned := fun m hm => (h.mentioned m hm).mono hAB }

/-! ## Order -/

/-- What is mentioned is declared before, where these constants and variables are. No function
is. -/
def Precedes (constants : List C.Expr) (vars : List C.VarId) (p : C.Program) : C.Mention → Prop
  | .constant name => .constant name ∈ constants
  | .var v _ => ∃ x, p.vars[v.index]? = some x ∧ (x.global ≠ none → v ∈ vars)
  | .function .. => False
  | _ => True

theorem Precedes.later {constants : List C.Expr} {vars : List C.VarId} {p q : C.Program}
    {m : C.Mention} (h : Precedes constants vars p m) {more : List C.Expr} {moreVars : List C.VarId}
    (hc : constants ⊆ more) (hv : vars ⊆ moreVars) (hk : p.VarsKept q) :
    Precedes more moreVars q m := by
  cases m with
  | constant name => exact hc h
  | var v name =>
    obtain ⟨x, hx, hg⟩ := h
    exact ⟨x, (hk _ (Array.getElem?_eq_some_iff.1 hx).1).trans hx, fun hn => hv (hg hn)⟩
  | function f name => exact h
  | _ => trivial

/-- Where no function is admitted, everything that holds is declared. -/
theorem Present.precedes {m : C.Mention} (h : Present (fun _ => False) l m) :
    Precedes l.declared.constants l.declared.vars l.c m := by
  cases m with
  | constant name => exact h
  | var v name =>
    obtain ⟨x, hx, _, hg⟩ := h
    exact ⟨x, hx, hg⟩
  | function f name => exact h.1
  | _ => trivial

/-- Initial values refer to what is declared before them, and the values of constants to statics
besides. -/
structure Sequenced (l : Lowering) : Prop where
  constants : ∀ before e after, l.declared.constants = before ++ e :: after →
    ∃ name c, e = .constant name ∧ l.c.constants.lookup name = some c ∧
      ∀ m ∈ c.value.mentions, Precedes before l.declared.vars l.c m
  vars : ∀ before v after, l.declared.vars = before ++ v :: after →
    ∃ x g, l.c.vars[v.index]? = some x ∧ x.global = some g ∧
      ∀ m ∈ g.init.mentions, Precedes l.declared.constants before l.c m

/-- The order stays where no constants and no variables of the whole program are added. -/
theorem Sequenced.later (h : Sequenced l) (hv : l'.c.constants = l.c.constants)
    (hc : l'.declared.constants = l.declared.constants) (hd : l'.declared.vars = l.declared.vars)
    (hk : l.c.VarsKept l'.c) : Sequenced l' where
  constants before e after he := by
    obtain ⟨name, c, rfl, hlook, hall⟩ := h.constants before e after (hc ▸ he)
    refine ⟨name, c, rfl, hv ▸ hlook, fun m hm => ?_⟩
    exact (hall m hm).later (List.Subset.refl _) (hd ▸ List.Subset.refl _) hk
  vars before v after he := by
    obtain ⟨x, g, hx, hg, hall⟩ := h.vars before v after (hd ▸ he)
    refine ⟨x, g, (hk _ (Array.getElem?_eq_some_iff.1 hx).1).trans hx, hg, fun m hm => ?_⟩
    exact (hall m hm).later (hc ▸ List.Subset.refl _) (List.Subset.refl _) hk

/-! ## Types and struct items -/

theorem scalar_of_primitiveTy? {t : Ty} {ct : C.Ty} (h : primitiveTy? t = some ct)
    (defs : List C.TypeDef) : ct.KnownIn defs := by
  cases t with
  | bool r =>
    cases h
    exact ⟨_, rfl, .inl (by decide)⟩
  | int r w =>
    cases h
    cases w <;> exact ⟨_, rfl, .inl (by decide)⟩
  | uint r w =>
    cases h
    cases w <;> exact ⟨_, rfl, .inl (by decide)⟩
  | float r w =>
    cases h
    cases w <;> exact ⟨_, rfl, .inl (by decide)⟩
  | _ => cases h

/-- A type that is there is entered for a node. -/
theorem Sound.setType {base : Lowering} {F : List C.Mention} (h : Sound A base F l) (id : IrId)
    {t : C.Ty} (ht : t.KnownIn l.c.typeDefs) :
    Sound A base F { l with types := l.types.insert id t } := by
  refine h.step (.of_eq rfl rfl rfl rfl rfl) ⟨rfl, rfl, rfl, rfl, rfl, rfl, .refl _⟩
    h.grounded.definitions { entered := fun other s hs => ?_ }
  rcases eq_or_of_insert hs with rfl | hs
  · exact .inr ht
  · exact .inl (.entered hs)

theorem writes_primitives {base : Lowering} {F : List C.Mention} :
    Writes A base F (enterPrimitives k) fun _ => [] := by
  refine .of_kept (.forM fun b _ => (Kept.require _ _).bind fun id => (Kept.require _ _).bind
    fun t => ?_)
  intro l u l' hr hs
  obtain ⟨ct, l₁, rct, rset⟩ := runs_bind.1 hr
  obtain ⟨hct, rfl⟩ := runs_require.1 rct
  rw [runs_modify.1 rset]
  exact hs.setType id (scalar_of_primitiveTy? hct _)

theorem writes_types {base : Lowering} : ∀ (F : List C.Mention) (ms : Members),
    Writes A base F (types ms) fun ts => ts.map fun t => .type t.2
  | _, .nil => .pure [] (List.nil_subset _)
  | F, .cons name t rest => (Writes.type F t).bind fun ct => (writes_types _ rest).bind fun ts =>
    .pure ((name, ct) :: ts) (append_subset_both (a := [.type ct]))

/-- A struct type is defined. -/
theorem Grounded.structType (h : Grounded A l) (name : String) {fields : List (String × C.Ty)}
    (hf : ∀ f ∈ fields, f.2.KnownIn l.c.typeDefs) :
    Grounded A { l with c := (l.c.structType name fields).2 } := by
  exact h.step ⟨List.subset_append_left .., List.Subset.refl _, List.Subset.refl _, .of_eq rfl,
    fun _ x hx => ⟨x, hx, rfl, rfl⟩⟩ rfl (h.definitions.structType name hf).1 {}

/-- A constant is declared, under a name of its own for the node. -/
theorem Grounded.constant (h : Grounded A l) (id : IrId) (name : String) {t : C.Ty} {value : C.Expr}
    (ht : t.KnownIn l.c.typeDefs) (hv : ∀ m ∈ value.mentions, Present A l m) :
    Grounded A { l with
      c := (l.c.constant t name value).2
      constants := l.constants.insert id (.constant name)
      declared := { l.declared with
        constants := l.declared.constants ++ [.constant name] } } := by
  have ha : Ahead l { l with
      c := (l.c.constant t name value).2
      constants := l.constants.insert id (.constant name)
      declared := { l.declared with constants := l.declared.constants ++ [.constant name] } } :=
    ⟨List.Subset.refl _, List.subset_append_left .., List.Subset.refl _, .of_eq rfl,
      fun _ x hx => ⟨x, hx, rfl, rfl⟩⟩
  refine h.step ha rfl (h.definitions.congr rfl rfl rfl) {
    named := fun other e he m hm => ?_
    constant := fun c hc => ?_
    value := fun c hc m hm => ?_ }
  · rcases eq_or_of_insert he with rfl | he
    · rw [List.mem_singleton.1 hm]
      exact .inr (List.mem_append_right _ (List.mem_singleton_self _))
    · exact .inl (.named he hm)
  · rcases List.mem_cons.1 hc with rfl | hc
    · exact .inr (Present.later (m := .type t) ht ha)
    · exact .inl (.constant hc)
  · rcases List.mem_cons.1 hc with rfl | hc
    · exact .inr ((hv m hm).later ha)
    · exact .inl (.value hc hm)

/-- A variable of the whole program is declared for the node. -/
theorem Grounded.globalVariable (h : Grounded A l) (id : IrId) (name : String) {t : C.Ty}
    {init : C.Expr} (isMutable : Bool) (ht : t.KnownIn l.c.typeDefs)
    (hv : ∀ m ∈ init.mentions, Present A l m) :
    Grounded A { l with
      c := (l.c.globalVariable name t init isMutable).2
      vars := l.vars.insert id ⟨l.c.vars.size⟩
      declared := { l.declared with vars := l.declared.vars ++ [⟨l.c.vars.size⟩] } } := by
  have ha : Ahead l { l with
      c := (l.c.globalVariable name t init isMutable).2
      vars := l.vars.insert id ⟨l.c.vars.size⟩
      declared := { l.declared with vars := l.declared.vars ++ [⟨l.c.vars.size⟩] } } :=
    ⟨List.Subset.refl _, List.Subset.refl _, List.subset_append_left .., .of_push rfl,
      fun _ x hx => ⟨x, hx, rfl, rfl⟩⟩
  refine h.step ha rfl (h.definitions.congr rfl rfl rfl) {
    slot := fun other w hw => ?_
    typed := fun i x hx => ?_
    initial := fun i x g hx hg m hm => ?_ }
  · rcases eq_or_of_insert hw with rfl | hw
    · exact .inr ⟨_, Array.getElem?_push_size, fun _ =>
        List.mem_append_right _ (List.mem_singleton_self _)⟩
    · exact .inl (.slot hw)
  · rcases eq_or_of_push hx with rfl | hx
    · exact .inr (Present.later (m := .type t) ht ha)
    · exact .inl (.typed hx)
  · rcases eq_or_of_push hx with rfl | hx
    · cases hg
      exact .inr ((hv _ hm).later ha)
    · exact .inl (.initial hx hg hm)

/-- A function is entered for the node. -/
theorem Grounded.function (h : Grounded A l) (id : IrId) (f : C.Function)
    (hf : ∀ m ∈ f.result.mentions, Present A l m) :
    Grounded A { l with
      c := { l.c with functions := l.c.functions.push f }
      functions := l.functions.insert id ⟨l.c.functions.size⟩ } := by
  have hold : ∀ (i : Nat) x, l.c.functions[i]? = some x → (l.c.functions.push f)[i]? = some x := by
    intro i x hx
    rw [Array.getElem?_push, if_neg (Nat.ne_of_lt (Array.getElem?_eq_some_iff.1 hx).1), hx]
  have ha : Ahead l { l with
      c := { l.c with functions := l.c.functions.push f }
      functions := l.functions.insert id ⟨l.c.functions.size⟩ } :=
    ⟨List.Subset.refl _, List.Subset.refl _, List.Subset.refl _, .of_eq rfl,
      fun i x hx => ⟨x, hold i x hx, rfl, rfl⟩⟩
  have hadds : Adds A l { l with
      c := { l.c with functions := l.c.functions.push f }
      functions := l.functions.insert id ⟨l.c.functions.size⟩ } := by
    refine { result := fun i x hx m hm => ?_ }
    rcases eq_or_of_push hx with rfl | hx
    · exact .inr ((hf m hm).later ha)
    · exact .inl (.result hx hm)
  refine ⟨fun m hm => ?_, fun other g hg => ?_, h.definitions.congr rfl rfl rfl⟩
  · exact (hadds.mentioned hm).elim (fun hm => (h.mentioned m hm).later ha) fun hm => hm
  · rcases eq_or_of_insert hg with rfl | hg
    · exact ⟨f, Array.getElem?_push_size⟩
    · obtain ⟨x, hx⟩ := h.functions other g hg
      exact ⟨x, hold _ x hx⟩

/-! ## Items -/

theorem filterMap_snoc {β : Type} (f : β → Option α) (xs : List β) (x : β) :
    (xs ++ [x]).filterMap f = xs.filterMap f ++ (f x).toList := by
  rw [List.filterMap_append, List.filterMap_cons]
  cases f x <;> rfl

/-- These struct items have been lowered, and these constants and statics. -/
structure Laid (structs values : List Item) (l : Lowering) : Prop where
  grounded : Grounded (fun _ => False) l
  structNames : l.c.structNames = structs.filterMap Item.structName?
  constants : l.declared.constants = (values.filterMap Item.constantName?).map .constant
  vars : l.c.namesOf l.declared.vars = (values.filterMap Item.staticName?).map some
  /-- Where the names of constants differ, initial values refer to what is declared before. -/
  ordered : (values.filterMap Item.constantName?).Nodup → Sequenced l

/-- No function has been entered. -/
structure Functionless (l : Lowering) : Prop where
  functions : l.c.functions = #[]
  entries : ∀ id : IrId, l.functions[id]? = none

theorem Functionless.of_fixed {base : Lowering} (h : Functionless base) (hf : Fixed base l) :
    Functionless l := by
  have hnames := hf.names
  rw [h.functions, Array.map_empty] at hnames
  exact ⟨Array.map_eq_empty_iff.1 hnames, fun id => hf.functions ▸ h.entries id⟩

theorem Functionless.not_entered (h : Functionless l) (id : IrId) (f : C.FunctionId)
    (hf : l.functions[id]? = some f) : False := by
  rw [h.entries id] at hf
  cases hf

namespace Laid

variable {structs values : List Item} {base : Lowering} {F : List C.Mention}

theorem sound (h : Laid structs values l) : Sound (fun _ => False) l [] l := .start h.grounded

theorem namesOf_of_kept {p q : C.Program} {vs : List C.VarId} {names : List String}
    (h : p.namesOf vs = names.map some) (hk : p.VarsKept q) :
    q.namesOf vs = names.map some := by
  rw [← h]
  refine List.map_congr_left fun v hv => ?_
  have hin : (p.vars[v.index]?).map (·.name) ∈ names.map some := h ▸ List.mem_map_of_mem hv
  obtain ⟨name, _, hname⟩ := List.mem_map.1 hin
  obtain ⟨x, hx, _⟩ := Option.map_eq_some_iff.1 hname.symm
  rw [hk _ (Array.getElem?_eq_some_iff.1 hx).1]

/-- A step that leaves fixed what lowering an expression does. -/
theorem fixed (h : Laid structs values base) (hs : Sound (fun _ => False) base F l) :
    Laid structs values l where
  grounded := hs.grounded
  structNames := hs.fixed.structNames.trans h.structNames
  constants := hs.fixed.constants.trans h.constants
  vars := by
    rw [hs.fixed.vars]
    exact namesOf_of_kept h.vars hs.fixed.kept
  ordered hn := (h.ordered hn).later hs.fixed.values hs.fixed.constants hs.fixed.vars hs.fixed.kept

/-- Only the names of the items that have been lowered count. -/
theorem of_names {structs' values' : List Item} (h : Laid structs values l)
    (hs : structs'.filterMap Item.structName? = structs.filterMap Item.structName?)
    (hc : values'.filterMap Item.constantName? = values.filterMap Item.constantName?)
    (hv : values'.filterMap Item.staticName? = values.filterMap Item.staticName?) :
    Laid structs' values' l where
  grounded := h.grounded
  structNames := hs ▸ h.structNames
  constants := hc ▸ h.constants
  vars := hv ▸ h.vars
  ordered hn := h.ordered (hc ▸ hn)

/-- A struct type is defined and announced. -/
theorem structItem {i : Item} {d : StructDecl} {u : Unit} (h : Laid structs [] l)
    (hfree : Functionless l) (hi : i.kind = .struct d) (hr : Runs (structItem k i d) l u l') :
    Laid (structs ++ [i]) [] l' ∧ Functionless l' := by
  obtain ⟨t, _, rt, h₀⟩ := runs_bind.1 hr
  obtain ⟨_, rfl⟩ := runs_require.1 rt
  cases ht : t.struct? with
  | none =>
    rw [ht] at h₀
    exact absurd h₀ not_runs_defect
  | some found =>
    rw [ht] at h₀
    obtain ⟨members, l₁, rmembers, h₁⟩ := runs_bind.1 h₀
    obtain ⟨ct, l₂, rct, h₂⟩ := runs_bind.1 h₁
    obtain ⟨rfl, rfl⟩ := runs_build.1 rct
    obtain ⟨_, l₃, rset, rdeclare⟩ := runs_bind.1 h₂
    rw [runs_modify.1 rdeclare, runs_modify.1 rset]
    have hs := writes_types [] found.2 rmembers h.sound
    have hmembers : ∀ f ∈ members, f.2.KnownIn l₁.c.typeDefs := fun f hf =>
      hs.holds (.type f.2) (List.mem_append_left _ (List.mem_map_of_mem hf))
    have hlaid := h.fixed hs
    have hstill := hfree.of_fixed hs.fixed
    have hknown := (hs.grounded.definitions.structType d.name hmembers).2
    have hset := ((Sound.start (hs.grounded.structType d.name hmembers)).setType i.head.id.ir
      hknown).grounded
    refine ⟨⟨Sound.grounded ((Sound.start hset).congr rfl rfl rfl rfl rfl rfl rfl rfl), ?_,
      hlaid.constants, hlaid.vars, fun hn => ?_⟩, hstill.functions, hstill.entries⟩
    · show l₁.c.structNames ++ [d.name] = _
      rw [hlaid.structNames, filterMap_snoc, Item.structName?, hi]
      rfl
    · exact (hlaid.ordered hn).later rfl rfl rfl (.of_eq rfl)

/-- The type and the value of a constant or a static. -/
theorem initialized {t : Ty} {ct : C.Ty} {e : Expr} {v : C.Expr} {l₁ l₂ : Lowering}
    (h : Laid structs values l) (hfree : Functionless l) (rct : Runs (type t) l ct l₁)
    (rv : Runs (expr k e) l₁ v l₂) :
    Laid structs values l₂ ∧ Functionless l₂ ∧ ct.KnownIn l₂.c.typeDefs ∧
      ∀ m ∈ v.mentions, Present (fun _ => False) l₂ m := by
  have hs := (writesAll hfree.not_entered _ e).expr rv (Writes.type [] t rct h.sound)
  exact ⟨h.fixed hs, hfree.of_fixed hs.fixed, hs.holds (.type ct) (by simp),
    fun m hm => hs.holds m (List.mem_append_left _ hm)⟩

/-- A constant is declared. -/
theorem constantItem {i : Item} {d : ConstantDecl} {u : Unit} (h : Laid structs values l)
    (hfree : Functionless l) (hi : i.kind = .constant d)
    (hr : Runs (constantItem k i d) l u l') :
    Laid structs (values ++ [i]) l' ∧ Functionless l' := by
  obtain ⟨t, _, rt, h₀⟩ := runs_bind.1 hr
  obtain ⟨_, rfl⟩ := runs_require.1 rt
  obtain ⟨ct, l₁, rct, h₁⟩ := runs_bind.1 h₀
  obtain ⟨v, l₂, rv, h₂⟩ := runs_bind.1 h₁
  obtain ⟨e, l₃, re, h₃⟩ := runs_bind.1 h₂
  obtain ⟨rfl, rfl⟩ := runs_build.1 re
  obtain ⟨_, l₄, rset, rdeclare⟩ := runs_bind.1 h₃
  rw [runs_modify.1 rdeclare, runs_modify.1 rset]
  obtain ⟨hlaid, hstill, ht, hv⟩ := h.initialized hfree rct rv
  have hname : (values ++ [i]).filterMap Item.constantName? =
      values.filterMap Item.constantName? ++ [d.name] := by
    rw [filterMap_snoc, Item.constantName?, hi]
    rfl
  have hother : (values ++ [i]).filterMap Item.staticName? =
      values.filterMap Item.staticName? := by
    rw [filterMap_snoc, Item.staticName?, hi]
    exact List.append_nil _
  refine ⟨⟨hlaid.grounded.constant i.head.id.ir d.name ht hv, hlaid.structNames, ?_, ?_,
    fun hn => ?_⟩, hstill.functions, hstill.entries⟩
  · show l₂.declared.constants ++ [.constant d.name] = _
    rw [hname, hlaid.constants, List.map_append]
    rfl
  · rw [hother]
    exact hlaid.vars
  · rw [hname] at hn
    obtain ⟨hold, _, hnew⟩ := List.nodup_append.1 hn
    refine ⟨fun before e after he => ?_, fun before w after he => ?_⟩
    · rcases C.split_snoc he with ⟨rfl, rfl⟩ | ⟨rest, _, he⟩
      · exact ⟨d.name, ⟨ct, v⟩, rfl, List.lookup_cons_self, fun m hm => (hv m hm).precedes⟩
      · obtain ⟨name, c, rfl, hlook, hall⟩ := (hlaid.ordered hold).constants before e rest he
        refine ⟨name, c, rfl, ?_, hall⟩
        have hin : C.Expr.constant name ∈ l₂.declared.constants := by
          rw [he]
          simp
        rw [hlaid.constants] at hin
        obtain ⟨other, hother, hsame⟩ := List.mem_map.1 hin
        cases hsame
        have hne : name ≠ d.name := hnew name hother d.name (List.mem_singleton_self _)
        show ((d.name, (⟨ct, v⟩ : C.Constant)) :: l₂.c.constants).lookup name = some c
        rw [List.lookup_cons, beq_eq_false_iff_ne.2 hne]
        exact hlook
    · obtain ⟨x, g, hx, hg, hall⟩ := (hlaid.ordered hold).vars before w after he
      exact ⟨x, g, hx, hg, fun m hm => (hall m hm).later (List.subset_append_left ..)
        (List.Subset.refl _) (.of_eq rfl)⟩

/-- A static is declared. -/
theorem staticItem {i : Item} {d : StaticDecl} {u : Unit} (h : Laid structs values l)
    (hfree : Functionless l) (hi : i.kind = .static d)
    (hr : Runs (staticItem k i d) l u l') :
    Laid structs (values ++ [i]) l' ∧ Functionless l' := by
  obtain ⟨t, _, rt, h₀⟩ := runs_bind.1 hr
  obtain ⟨_, rfl⟩ := runs_require.1 rt
  obtain ⟨ct, l₁, rct, h₁⟩ := runs_bind.1 h₀
  obtain ⟨v, l₂, rv, h₂⟩ := runs_bind.1 h₁
  obtain ⟨e, l₃, re, h₃⟩ := runs_bind.1 h₂
  obtain ⟨rfl, rfl⟩ := runs_build.1 re
  obtain ⟨_, l₄, rset, rdeclare⟩ := runs_bind.1 h₃
  rw [runs_modify.1 rdeclare, runs_modify.1 rset]
  obtain ⟨hlaid, hstill, ht, hv⟩ := h.initialized hfree rct rv
  have hname : (values ++ [i]).filterMap Item.staticName? =
      values.filterMap Item.staticName? ++ [d.name] := by
    rw [filterMap_snoc, Item.staticName?, hi]
    rfl
  have hother : (values ++ [i]).filterMap Item.constantName? =
      values.filterMap Item.constantName? := by
    rw [filterMap_snoc, Item.constantName?, hi]
    exact List.append_nil _
  have hnew : (l₂.c.vars.push (⟨d.name, ct, some ⟨v, d.isMutable⟩⟩ : C.Variable))[
      l₂.c.vars.size]? = some ⟨d.name, ct, some ⟨v, d.isMutable⟩⟩ := Array.getElem?_push_size
  have hkept : l₂.c.VarsKept (l₂.c.globalVariable d.name ct v d.isMutable).2 := .of_push rfl
  refine ⟨⟨hlaid.grounded.globalVariable i.head.id.ir d.name d.isMutable ht hv,
    hlaid.structNames, ?_, ?_, fun hn => ?_⟩, hstill.functions, hstill.entries⟩
  · rw [hother]
    exact hlaid.constants
  · have hadded : (l₂.c.globalVariable d.name ct v d.isMutable).2.namesOf [⟨l₂.c.vars.size⟩] =
        [some d.name] := congrArg (fun x => [Option.map C.Variable.name x]) hnew
    rw [hname, List.map_append, ← namesOf_of_kept hlaid.vars hkept]
    exact List.map_append.trans (congrArg (_ ++ ·) hadded)
  · rw [hother] at hn
    refine ⟨fun before e after he => ?_, fun before w after he => ?_⟩
    · obtain ⟨name, c, rfl, hlook, hall⟩ := (hlaid.ordered hn).constants before e after he
      exact ⟨name, c, rfl, hlook, fun m hm => (hall m hm).later (List.Subset.refl _)
        (List.subset_append_left ..) hkept⟩
    · rcases C.split_snoc he with ⟨rfl, rfl⟩ | ⟨rest, _, he⟩
      · exact ⟨_, _, hnew, rfl, fun m hm => ((hv m hm).precedes).later (List.Subset.refl _)
          (List.Subset.refl _) hkept⟩
      · obtain ⟨x, g, hx, hg, hall⟩ := (hlaid.ordered hn).vars before w rest he
        exact ⟨x, g, (hkept _ (Array.getElem?_eq_some_iff.1 hx).1).trans hx, hg, fun m hm =>
          (hall m hm).later (List.Subset.refl _) (List.Subset.refl _) hkept⟩

/-- The loop over struct items. -/
theorem structs_of_runs {items : List Item} {u : Unit} (h : Laid [] [] l) (hfree : Functionless l)
    (hr : Runs (items.forM fun i =>
      match i.kind with
      | .struct d => Lower.structItem k i d
      | _ => return ()) l u l') : Laid items [] l' ∧ Functionless l' := by
  refine (chain_of_runs hr).grows (I := fun done l => Laid done [] l ∧ Functionless l) ?_ ⟨h, hfree⟩
  intro l i l' done ⟨h, hfree⟩ hr
  cases hi : i.kind with
  | struct d =>
    rw [hi] at hr
    exact h.structItem hfree hi hr
  | _ =>
    rw [hi] at hr
    obtain ⟨_, rfl⟩ := runs_pure.1 hr
    refine ⟨h.of_names ?_ rfl rfl, hfree⟩
    rw [filterMap_snoc, Item.structName?, hi]
    exact List.append_nil _

/-- The loop over constants and statics. -/
theorem values_of_runs {items : List Item} {u : Unit} (h : Laid structs [] l)
    (hfree : Functionless l)
    (hr : Runs (items.forM fun i =>
      match i.kind with
      | .constant d => Lower.constantItem k i d
      | .static d => Lower.staticItem k i d
      | _ => return ()) l u l') : Laid structs items l' ∧ Functionless l' := by
  refine (chain_of_runs hr).grows (I := fun done l => Laid structs done l ∧ Functionless l) ?_
    ⟨h, hfree⟩
  intro l i l' done ⟨h, hfree⟩ hr
  cases hi : i.kind with
  | constant d =>
    rw [hi] at hr
    exact h.constantItem hfree hi hr
  | static d =>
    rw [hi] at hr
    exact h.staticItem hfree hi hr
  | _ =>
    rw [hi] at hr
    obtain ⟨_, rfl⟩ := runs_pure.1 hr
    refine ⟨h.of_names rfl ?_ ?_, hfree⟩
    · rw [filterMap_snoc, Item.constantName?, hi]
      exact List.append_nil _
    · rw [filterMap_snoc, Item.staticName?, hi]
      exact List.append_nil _

end Laid

/-! ## Signatures -/

/-- All struct items, constants and statics have been lowered, and the signatures of these items. -/
structure Signed (items done : List Item) (l : Lowering) : Prop where
  laid : Laid items items l
  names : l.c.functions.toList.map (·.name) = done.filterMap Item.functionName?
  entries : ∀ (id : IrId) f, l.functions[id]? = some f →
    ∃ i ∈ done, (∃ d, i.kind = .function d) ∧ i.head.id.ir = id

theorem writes_resultType {base : Lowering} {F : List C.Mention} (t : Ty) :
    Writes A base F (resultType t) fun r => (r.getD .void).mentions := by
  unfold resultType
  cases t.isUnit with
  | true => exact .pure none (List.nil_subset _)
  | false =>
    refine (Writes.type F t).bind fun ct => .pure (some ct) ?_
    cases ct with
    | void => exact List.nil_subset _
    | _ => exact List.subset_append_left ..

/-- A function is entered. -/
theorem Signed.functionSignature {items done : List Item} {i : Item} {d : FunctionDecl} {u : Unit}
    (h : Signed items done l) (hi : i.kind = .function d)
    (hr : Runs (functionSignature k i d) l u l') : Signed items (done ++ [i]) l' := by
  obtain ⟨s, l₀, rs, h₀⟩ := runs_bind.1 hr
  obtain ⟨_, _, rt, rfn⟩ := runs_bind.1 rs
  obtain ⟨_, rfl⟩ := runs_require.1 rt
  obtain ⟨_, rfl⟩ := runs_require.1 rfn
  obtain ⟨ps, l₁, rps, h₁⟩ := runs_bind.1 h₀
  obtain ⟨r, l₂, rr, h₂⟩ := runs_bind.1 h₁
  obtain ⟨f, l₃, rf, rset⟩ := runs_bind.1 h₂
  obtain ⟨hf, rfl⟩ := runs_buildOrFail.1 rf
  cases hf
  rw [runs_modify.1 rset]
  have hs := writes_resultType s.2 rr (writes_types [] s.1 rps h.laid.sound)
  have hlaid := h.laid.fixed hs
  have hnames : l₂.c.functions.toList.map (·.name) = done.filterMap Item.functionName? := by
    rw [← h.names, ← Array.toList_map, ← Array.toList_map, hs.fixed.names]
  refine ⟨⟨?_, hlaid.structNames, hlaid.constants, hlaid.vars, fun hn => ?_⟩, ?_, fun id f hf => ?_⟩
  · exact hs.grounded.function i.head.id.ir ⟨d.name, r.getD .void, [], none, []⟩ fun m hm =>
      hs.holds m (List.mem_append_left _ hm)
  · exact (hlaid.ordered hn).later rfl rfl rfl (.of_eq rfl)
  · rw [filterMap_snoc, Item.functionName?, hi, ← hnames]
    show ((l₂.c.functions.push _).toList).map _ = _
    rw [Array.toList_push, List.map_append]
    rfl
  · have hf : (l₂.functions.insert i.head.id.ir ⟨l₂.c.functions.size⟩)[id]? = some f := hf
    rw [Std.TreeMap.getElem?_insert] at hf
    split at hf
    · exact ⟨i, List.mem_append_right _ (List.mem_singleton_self _), ⟨d, hi⟩,
        Std.LawfulEqOrd.eq_of_compare ‹_›⟩
    · rw [hs.fixed.functions] at hf
      obtain ⟨j, hj, hrest⟩ := h.entries id f hf
      exact ⟨j, List.mem_append_left _ hj, hrest⟩

/-- The loop over signatures. -/
theorem signed_of_runs {items : List Item} {u : Unit} (h : Laid items items l)
    (hfree : Functionless l)
    (hr : Runs (items.forM fun i =>
      match i.kind with
      | .function d => functionSignature k i d
      | _ => return ()) l u l') : Signed items items l' := by
  have hstart : Signed items [] l :=
    ⟨h, by rw [hfree.functions]; rfl, fun id f hf => (hfree.not_entered id f hf).elim⟩
  refine (chain_of_runs hr).grows (I := fun done l => Signed items done l) ?_ hstart
  intro l i l' done h hr
  cases hi : i.kind with
  | function d =>
    rw [hi] at hr
    exact h.functionSignature hi hr
  | _ =>
    rw [hi] at hr
    obtain ⟨_, rfl⟩ := runs_pure.1 hr
    refine ⟨h.laid, ?_, fun id f hf => ?_⟩
    · rw [filterMap_snoc, Item.functionName?, hi]
      exact h.names.trans (List.append_nil _).symm
    · obtain ⟨j, hj, hrest⟩ := h.entries id f hf
      exact ⟨j, List.mem_append_left _ hj, hrest⟩

/-! ## Bodies -/

variable {base : Lowering} {F : List C.Mention}

theorem writes_note (e : Event) : Writes A base F (note e) fun _ => [] :=
  .of_kept (.modify fun _ hs => hs.congr rfl rfl rfl rfl rfl rfl rfl rfl)

theorem writes_params (f : C.FunctionId) : ∀ (F : List C.Mention) (ps : List Param) (ts : Members),
    Writes A base F (params f ps ts) fun _ => []
  | _, [], _ => .pure () (List.nil_subset _)
  | _, _ :: _, .nil => .pure () (List.nil_subset _)
  | F, p :: rest, .cons _ t ts => (Writes.type F t).bind fun _ =>
    (Writes.parameter (by simp) f p.pattern.name).bind fun _ =>
    (Writes.setVariable (by simp) p.head.id.ir).bind fun _ => writes_params f _ rest ts

theorem writes_resultSlot (f : C.FunctionId) (result : Ty) :
    Writes A base F (resultSlot f result) slotOf := by
  unfold resultSlot
  cases result.isUnit with
  | true => exact .pure none (List.nil_subset _)
  | false =>
    refine (Writes.type F result).bind fun ct =>
      (Writes.newLocal (by simp) f "__ret").bind fun v => ?_
    refine (Writes.declareStmt none (by simp) (List.nil_subset _)).bind fun s => ?_
    exact (Writes.add (List.subset_append_left ..)).bind fun _ => .pure (some v) (by simp [slotOf])

theorem writes_finish {slot : Option C.VarId} {v : Option C.Expr} (ht : slotOf slot ⊆ F)
    (hv : mentionsOf v ⊆ F) : Writes A base F (finish slot v) fun _ => [] := by
  cases v with
  | none => exact .pure () (List.nil_subset _)
  | some value =>
    have hvalue : value.mentions ⊆ F := mentionsOf_some ▸ hv
    cases slot with
    | none => exact .add hvalue
    | some x =>
      have hx : C.Mention.slot x ∈ F := ht (List.mem_singleton_self _)
      exact (writes_store hx hvalue).bind fun _ => (Writes.varExpr hx).bind fun e =>
        .add (mentionsOf_some ▸ List.subset_append_left ..)

theorem writes_functionBody (hA : ∀ (id : IrId) f, base.functions[id]? = some f → A f) (i : Item)
    (d : FunctionDecl) : Writes A base F (functionBody k i d) fun _ => [] := by
  refine .ofState fun l _ => (Writes.require _ _).bind fun f => .ofState fun l' _ => ?_
  cases l'.isDeclared f with
  | true => exact .pure () (List.nil_subset _)
  | false =>
    have hsignature : ∀ F, Writes A base F (signatureOf k i d) fun _ => [] := fun F =>
      (Writes.require _ _).bind fun _ => .require _ _
    refine (hsignature _).bind fun s => (writes_params f _ d.params s.1).bind fun _ =>
      Writes.begins fun b => (writes_resultSlot f s.2).bind fun slot => ?_
    have henter : ∀ F, Writes A base F (pushFunction ⟨f, slot⟩) fun _ => [] := fun F =>
      (writes_note _).bind fun _ =>
        .of_kept (.modify fun _ hs => hs.congr rfl rfl rfl rfl rfl rfl rfl rfl)
    refine (henter _).bind fun _ => ?_
    cases d.body with
    | block g ss tail =>
      have hpop : ∀ F, Writes A base F popFunction fun _ => [] := fun F =>
        .of_kept fun l a l' hr hs => by
          obtain ⟨_, _, rfl⟩ := runs_popFunction.1 hr
          exact hs.congr rfl rfl rfl rfl rfl rfl rfl rfl
      have hbody : ∀ F b, Writes A base F (buildOrFail (·.setBody f b)) fun _ => [] := fun F b =>
        .of_kept fun l u l' hr hs => by
          obtain ⟨hok, rfl⟩ := runs_buildOrFail.1 hr
          unfold C.Program.setBody at hok ⊢
          split
          · exact hs.modifyFunction f fun _ => ⟨rfl, rfl⟩
          · exact hs
      have hdeclare : ∀ F, Writes A base F (declareFunction f) fun _ => [] := fun F =>
        .of_kept (.modify fun _ hs => hs.congr rfl rfl rfl rfl rfl rfl rfl rfl)
      exact (writesAll hA _ (.block g ss tail)).branch.bind fun v =>
        (writes_finish (by simp [List.subset_def]; grind)
          (List.subset_append_left ..)).bind fun _ =>
        (hpop _).discard.bind fun _ => Writes.popBlock.bind fun b => (hbody _ b).bind fun _ =>
        (hdeclare _).bind fun _ => writes_note _
    | _ => exact .defect _

/-- The functions to be written are those entered for these items, each once. -/
structure Written (entries : IrId → Option C.FunctionId) (done : List Item) (l : Lowering) : Prop
    where
  setting : (Lower.setting l).functions = entries
  distinct : l.declared.functions.Nodup
  declared : ∀ f, f ∈ l.declared.functions ↔
    ∃ i ∈ done, (∃ d, i.kind = .function d) ∧ entries i.head.id.ir = some f

theorem Written.bodyItem {entries : IrId → Option C.FunctionId} {done : List Item} {i : Item}
    (h : Written entries done l) (hr : Runs (bodyItem k i) l () l') :
    Written entries (done ++ [i]) l' := by
  rcases runs_bodyItem hr with ⟨d, f, hi, hf, ⟨hdone, rfl⟩ | ⟨hnew, hfilled⟩⟩ | ⟨hno, rfl⟩
  · rw [h.setting] at hf
    refine ⟨h.setting, h.distinct, fun g => (h.declared g).trans ⟨?_, ?_⟩⟩
    · rintro ⟨j, hj, hrest⟩
      exact ⟨j, List.mem_append_left _ hj, hrest⟩
    · rintro ⟨j, hj, hd, hg⟩
      rcases List.mem_append.1 hj with hj | hj
      · exact ⟨j, hj, hd, hg⟩
      · rw [List.mem_singleton.1 hj, hf] at hg
        cases hg
        exact (h.declared f).1 (List.contains_iff_mem.1 hdone)
  · rw [h.setting] at hf
    have hnot : f ∉ l.declared.functions := fun hm => by
      rw [Lowering.isDeclared, List.contains_iff_mem.2 hm] at hnew
      cases hnew
    refine ⟨hfilled.setting ▸ h.setting, ?_, fun g => ?_⟩
    · rw [hfilled.declared]
      exact List.nodup_append.2 ⟨h.distinct, List.nodup_singleton f, fun a ha b hb he =>
        hnot (by rw [← List.mem_singleton.1 hb, ← he]; exact ha)⟩
    · rw [hfilled.declared]
      refine List.mem_append.trans ⟨?_, ?_⟩
      · rintro (hg | hg)
        · obtain ⟨j, hj, hrest⟩ := (h.declared g).1 hg
          exact ⟨j, List.mem_append_left _ hj, hrest⟩
        · rw [List.mem_singleton.1 hg]
          exact ⟨i, List.mem_append_right _ (List.mem_singleton_self _), ⟨d, hi⟩, hf⟩
      · rintro ⟨j, hj, hd, hg⟩
        rcases List.mem_append.1 hj with hj | hj
        · exact .inl ((h.declared g).2 ⟨j, hj, hd, hg⟩)
        · rw [List.mem_singleton.1 hj, hf] at hg
          cases hg
          exact .inr (List.mem_singleton_self _)
  · refine ⟨h.setting, h.distinct, fun g => (h.declared g).trans ⟨?_, ?_⟩⟩
    · rintro ⟨j, hj, hrest⟩
      exact ⟨j, List.mem_append_left _ hj, hrest⟩
    · rintro ⟨j, hj, ⟨d, hd⟩, hg⟩
      rcases List.mem_append.1 hj with hj | hj
      · exact ⟨j, hj, ⟨d, hd⟩, hg⟩
      · rw [List.mem_singleton.1 hj] at hd
        exact absurd hd (hno d)

/-! ## Programs -/

/-- The bodies of functions fill one function after the other. -/
theorem written_of_runs {items : List Item} {u : Unit} (h : l.declared.functions = [])
    (hr : Runs (items.forM (bodyItem k)) l u l') :
    Written (Lower.setting l).functions items l' := by
  have hstart : Written (Lower.setting l).functions [] l := by
    refine ⟨rfl, ?_, fun f => ?_⟩
    · rw [h]
      exact List.nodup_nil
    · rw [h]
      simp
  exact (chain_of_runs hr).grows (I := fun done l₁ => Written (Lower.setting l).functions done l₁)
    (fun hw hi => hw.bodyItem hi) hstart

/-- The bodies of functions refer to functions that have an entry before any of them is filled. -/
theorem sound_of_bodies {items : List Item} {u : Unit}
    (h : Grounded (fun f => ∃ id : IrId, l.functions[id]? = some f) l)
    (hr : Runs (items.forM (bodyItem k)) l u l') :
    Sound (fun f => ∃ id : IrId, l.functions[id]? = some f) l [] l' := by
  refine (chain_of_runs hr).invariant (I := fun _ l₁ => Sound _ l [] l₁) ?_ (.start h)
  intro l₁ i l₂ _ hs hi
  unfold bodyItem at hi
  cases hkind : i.kind with
  | function d =>
    rw [hkind] at hi
    exact (writes_functionBody (fun id f hf => ⟨id, hf⟩) i d hi hs).weaken (List.nil_subset _)
  | _ =>
    rw [hkind] at hi
    obtain ⟨_, rfl⟩ := runs_pure.1 hi
    exact hs

/-- A lowered program: what is mentioned is there, struct types, constants, statics and functions
are those of the items, and every function that has been entered is to be written, once. -/
structure Complete (items : List Item) (l : Lowering) : Prop where
  grounded : Grounded (· ∈ l.declared.functions) l
  structNames : l.c.structNames = items.filterMap Item.structName?
  constants : l.declared.constants = (items.filterMap Item.constantName?).map .constant
  vars : l.c.namesOf l.declared.vars = (items.filterMap Item.staticName?).map some
  ordered : (items.filterMap Item.constantName?).Nodup → Sequenced l
  functionNames : l.c.functions.toList.map (·.name) = items.filterMap Item.functionName?
  distinct : l.declared.functions.Nodup
  functions : ∀ f ∈ l.declared.functions, ∃ x, l.c.functions[f.index]? = some x

theorem grounded_empty (target : String) : Grounded A (.empty target) := by
  refine ⟨fun m hm => ?_, fun id f hf => ?_, ⟨?_, rfl, rfl, rfl⟩⟩
  · cases hm with
    | block hs hm =>
      exact absurd hs (by simp [Lowering.empty, C.Program.empty, C.Program.statements])
    | pending ho hs hm => cases ho
    | slot hv => exact absurd hv (by simp [Lowering.empty])
    | named he hm => exact absurd he (by simp [Lowering.empty])
    | entered ht => exact absurd ht (by simp [Lowering.empty])
    | typed hx => exact absurd hx (by simp [Lowering.empty, C.Program.empty])
    | initial hx hg hm => exact absurd hx (by simp [Lowering.empty, C.Program.empty])
    | constant hc => cases hc
    | value hc hm => cases hc
    | result hx hm => exact absurd hx (by simp [Lowering.empty, C.Program.empty])
  · exact absurd hf (by simp [Lowering.empty])
  · intro before d after he
    exact absurd he (by simp [Lowering.empty, C.Program.empty])

theorem laid_empty (target : String) :
    Laid [] [] (.empty target) ∧ Functionless (.empty target) := by
  refine ⟨⟨grounded_empty target, rfl, rfl, rfl, fun _ => ⟨?_, ?_⟩⟩, rfl, fun id => rfl⟩
  · intro before e after he
    exact absurd he (by simp [Lowering.empty])
  · intro before v after he
    exact absurd he (by simp [Lowering.empty])

/-- Writing the text mentions nothing more. -/
theorem Grounded.written (h : Grounded A l) (output : String) (events : List Event) :
    Grounded A { l with c := { l.c with output := output }, events := events } := by
  exact h.step (.of_eq rfl rfl rfl rfl rfl) rfl (h.definitions.congr rfl rfl rfl) {}

/-- A lowered program is complete. -/
theorem complete_of_runs {p : Program} {target : String} {u : Unit}
    (hr : Runs (do enterPrimitives k; program k p) (.empty target) u l') : Complete p.items l' := by
  obtain ⟨_, l₁, rprim, h₁⟩ := runs_bind.1 hr
  obtain ⟨_, l₂, rnote, h₂⟩ := runs_bind.1 h₁
  obtain ⟨_, l₃, rstruct, h₃⟩ := runs_bind.1 h₂
  obtain ⟨_, l₄, rvalue, h₄⟩ := runs_bind.1 h₃
  obtain ⟨_, l₅, rsig, h₅⟩ := runs_bind.1 h₄
  obtain ⟨_, l₆, rbody, rwrite⟩ := runs_bind.1 h₅
  obtain ⟨hlaid, hfree⟩ := laid_empty target
  have hprimitives := writes_note _ rnote (writes_primitives rprim hlaid.sound)
  obtain ⟨hstructs, hfree⟩ := (hlaid.fixed hprimitives).structs_of_runs
    (hfree.of_fixed hprimitives.fixed) rstruct
  obtain ⟨hvalues, hfree⟩ := hstructs.values_of_runs hfree rvalue
  have hsigned := signed_of_runs hvalues hfree rsig
  have hunfilled : l₅.declared.functions = [] := by
    have hstart : Unfilled k (p.items.flatMap Item.declared) l₂ := by
      rw [runs_note.1 rnote]
      exact (unfilled_primitives (unfilled_empty target) rprim).note _
    have hvalue := unfilled_values (unfilled_structs hstart rstruct)
      (fun i hi _ id hid => List.mem_flatMap.2 ⟨i, hi, hid⟩) rvalue
    exact (unfilled_signatures hvalue rsig).2
  have hwritten := written_of_runs hunfilled rbody
  have hsound := sound_of_bodies (hsigned.laid.grounded.mono fun _ => False.elim) rbody
  have hlaid := hsigned.laid
  have hentered : ∀ f, (∃ id : IrId, l₅.functions[id]? = some f) → f ∈ l₆.declared.functions := by
    rintro f ⟨id, hf⟩
    obtain ⟨i, hi, hd, rfl⟩ := hsigned.entries id f hf
    exact (hwritten.declared f).2 ⟨i, hi, hd, hf⟩
  have hnames : l₆.c.functions.toList.map (·.name) = p.items.filterMap Item.functionName? := by
    rw [← hsigned.names, ← Array.toList_map, ← Array.toList_map, hsound.fixed.names]
  have hvars : l₆.c.namesOf l₆.declared.vars = (p.items.filterMap Item.staticName?).map some := by
    rw [hsound.fixed.vars]
    exact Laid.namesOf_of_kept hlaid.vars hsound.fixed.kept
  obtain ⟨output, events, rfl⟩ := runs_write rwrite
  exact {
    grounded := (hsound.grounded.mono hentered).written output events
    structNames := hsound.fixed.structNames.trans hlaid.structNames
    constants := hsound.fixed.constants.trans hlaid.constants
    vars := hvars
    ordered := fun hn => ((hlaid.ordered hn).later hsound.fixed.values hsound.fixed.constants
      hsound.fixed.vars hsound.fixed.kept).later rfl rfl rfl (.of_eq rfl)
    functionNames := hnames
    distinct := hwritten.distinct
    functions := fun f hf => by
      obtain ⟨i, _, _, hid⟩ := (hwritten.declared f).1 hf
      exact hsound.grounded.functions i.head.id.ir f (by rw [← hid, ← hwritten.setting]; rfl) }

end Lower

end MiddleEnd
