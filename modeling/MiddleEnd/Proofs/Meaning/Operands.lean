/-
  The C expressions of operands have the values of the operands (`Emits.computes`), where the store
  of the C program has the value of every declaration that has a variable (`Lower.Represents`).
  Operands of a direct body need no statements, so their C expressions are all there is to them.
-/
import MiddleEnd.Proofs.C.Evaluation
import MiddleEnd.Proofs.Lower.Slots
import MiddleEnd.Proofs.Meaning.Direct

namespace MiddleEnd

/-! ## Fields by name -/

section

variable {α : Type}

theorem lookup_of_mem {l : List (String × α)} (hn : (l.map Prod.fst).Nodup) {name : String} {v : α}
    (h : (name, v) ∈ l) : l.lookup name = some v := by
  induction l with
  | nil => cases h
  | cons p rest ih =>
    rw [List.map_cons, List.nodup_cons] at hn
    rw [List.lookup_cons]
    rcases List.mem_cons.1 h with rfl | h
    · rw [beq_self_eq_true]
    · have hne : name ≠ p.1 := fun he => hn.1 (he ▸ List.mem_map_of_mem h)
      rw [beq_eq_false_iff_ne.2 hne]
      exact ih hn.2 h

theorem arranged?_cons (given : List (String × α)) (name : String) (rest : List String) :
    arranged? given (name :: rest) =
      (given.lookup name).bind fun v => (arranged? given rest).map (v :: ·) := by
  unfold arranged?
  rw [List.mapM_cons, Option.bind_eq_bind, Option.pure_def]
  simp only [Option.bind_eq_bind, Option.map_eq_bind]
  rfl

/-- Fields that are looked up in their own order, where no two have one name. -/
theorem arranged?_of_subset {l : List (String × α)} (hn : (l.map Prod.fst).Nodup) :
    ∀ {fs : List (String × α)}, fs ⊆ l → arranged? l (fs.map Prod.fst) = some (fs.map Prod.snd)
  | [], _ => rfl
  | (name, v) :: rest, h => by
    obtain ⟨hf, hrest⟩ := List.cons_subset.1 h
    rw [List.map_cons, arranged?_cons, lookup_of_mem hn hf, arranged?_of_subset hn hrest]
    rfl

theorem arranged?_zip {names : List String} (hn : names.Nodup) {vs : List α}
    (hl : names.length = vs.length) : arranged? (names.zip vs) names = some vs := by
  have hfst : (names.zip vs).map Prod.fst = names := List.map_fst_zip (Nat.le_of_eq hl)
  have hsnd : (names.zip vs).map Prod.snd = vs := List.map_snd_zip (Nat.le_of_eq hl.symm)
  have h := arranged?_of_subset (l := names.zip vs) (hfst.symm ▸ hn) (List.Subset.refl _)
  rwa [hfst, hsnd] at h

end

namespace Lower

theorem lookup_filter {name other : String} : ∀ {given : List (String × C.Expr)} {v : C.Expr},
    (given.filter (·.1 ≠ name)).lookup other = some v → other ≠ name ∧ given.lookup other = some v
  | [], _, h => nomatch h
  | (x, w) :: rest, v, h => by
    by_cases hx : x = name
    · subst hx
      rw [List.filter_cons_of_neg (by simp)] at h
      obtain ⟨hne, hv⟩ := lookup_filter h
      rw [List.lookup_cons, beq_eq_false_iff_ne.2 hne]
      exact ⟨hne, hv⟩
    · rw [List.filter_cons_of_pos (by simpa using hx), List.lookup_cons] at h
      rw [List.lookup_cons]
      cases ho : other == x with
      | true =>
        rw [ho] at h
        exact ⟨fun he => hx ((beq_iff_eq.1 ho).symm.trans he), h⟩
      | false =>
        rw [ho] at h
        exact lookup_filter h

theorem arranged?_filter {name : String} {given : List (String × C.Expr)} :
    ∀ {names : List String} {vs : List C.Expr},
      arranged? (given.filter (·.1 ≠ name)) names = some vs →
      name ∉ names ∧ arranged? given names = some vs
  | [], vs, h => ⟨List.not_mem_nil, h⟩
  | other :: rest, vs, h => by
    rw [arranged?_cons] at h ⊢
    obtain ⟨v, hv, h⟩ := Option.bind_eq_some_iff.1 h
    obtain ⟨ws, hws, rfl⟩ := Option.map_eq_some_iff.1 h
    obtain ⟨hne, hv⟩ := lookup_filter hv
    obtain ⟨hnot, hws⟩ := arranged?_filter hws
    rw [hv, hws]
    exact ⟨by simp [Ne.symm hne, hnot], rfl⟩

/-- Where a value is found for every declared field, no two have one name. -/
theorem declaredOrder?_nodup : ∀ {names : List String} {given : List (String × C.Expr)}
    {vs : List C.Expr}, declaredOrder? given names = some vs →
      names.Nodup ∧ arranged? given names = some vs
  | [], given, vs, h => by
    cases h
    exact ⟨.nil, rfl⟩
  | name :: rest, given, vs, h => by
    obtain ⟨v, hv, h⟩ := Option.bind_eq_some_iff.1 h
    obtain ⟨ws, hws, rfl⟩ := Option.map_eq_some_iff.1 h
    obtain ⟨hn, harranged⟩ := declaredOrder?_nodup hws
    obtain ⟨hnot, harranged⟩ := arranged?_filter harranged
    rw [arranged?_cons, hv, harranged]
    exact ⟨List.nodup_cons.2 ⟨hnot, hn⟩, rfl⟩

/-- Values that are given in the order of the declaration are left in that order. -/
theorem declaredOrder?_self {given : List (String × C.Expr)} {vs : List C.Expr}
    (h : declaredOrder? given.reverse (given.map Prod.fst) = some vs) :
    (given.map Prod.fst).Nodup ∧ vs = given.map Prod.snd := by
  obtain ⟨hn, harranged⟩ := declaredOrder?_nodup h
  have hreverse : (given.reverse.map Prod.fst).Nodup := by
    rw [List.map_reverse, List.nodup_reverse]
    exact hn
  have hsame := arranged?_of_subset hreverse fun f hf => List.mem_reverse.2 hf
  exact ⟨hn, Option.some.inj (harranged.symm.trans hsame)⟩

end Lower

/-! ## Literals -/

/-- The literal has the primitive type that it selects, and the C type of that type. -/
def Literal.Stored (k : Checked) (g : Lower.Setting) (id : IrId) (lit : Literal) : Prop :=
  ∃ r, k.types.get? id = some (.ofPrimitive r lit.primitive) ∧
    ∀ ct, g.types r = some ct → ct = lit.primitive.machine

namespace Lower

section

variable {V : Type} {k : Checked} {g : Setting} {O : Operators V} {lit : Literal}

theorem isFloat_of_kind (h : lit.kind = .float) : lit.isFloat = true := by
  unfold Literal.isFloat Literal.primitive
  rw [h]
  cases lit.hint <;> rfl

theorem isFloat_ofPrimitive (r : IrId) (lit : Literal) :
    isFloat (.ofPrimitive r lit.primitive) = lit.isFloat := by
  unfold Literal.isFloat
  cases lit.primitive <;> rfl

theorem Compiles.machine {r : IrId} {p : Primitive} {ct : C.Ty}
    (h : Compiles g (.ofPrimitive r p) ct) : g.types r = some ct := by
  generalize ht : Ty.ofPrimitive r p = t at h
  cases h with
  | entered _ h =>
    subst ht
    cases p <;> exact h
  | array => cases p <;> cases ht

/-- The C constant has the value of the literal. -/
theorem Spells.value? {id : IrId} {v : C.Expr} {c : C.Store V} (h : Spells k g id lit v)
    (hs : lit.Stored k g id) {x : V} (hx : lit.value? O = some x) :
    v.value? O c = some (.data x) := by
  obtain ⟨r, hr, hct⟩ := hs
  unfold Literal.value? at hx
  cases h with
  | bool hk hb =>
    rw [if_pos hk, hb] at hx
    cases hx
    rfl
  | int hk ht hf hn hc =>
    cases hr.symm.trans ht
    rw [isFloat_ofPrimitive] at hf
    rw [if_neg (by rw [hk]; nofun), hf, if_neg Bool.false_ne_true, hn] at hx
    cases hx
    rw [hct _ hc.machine]
    rfl
  | float hk hf ht hv hc =>
    cases hr.symm.trans ht
    have hfloat : lit.isFloat = true := by
      cases hkind : lit.kind with
      | bool => exact absurd hkind hk
      | float => exact isFloat_of_kind hkind
      | int => exact isFloat_ofPrimitive r lit ▸ hf hkind
    rw [if_neg hk, if_pos hfloat, hv] at hx
    cases hx
    rw [hct _ hc.machine]
    rfl

end

/-! ## Operands -/

/-- The store of the C program has the values of all declarations that have variables. -/
def Represents {V : Type} (m : Slots) (s : Store V) (c : C.Store V) : Prop :=
  ∀ id x v, m.vars id = some x → s id = some v → c x = some v

section

variable {V : Type} {k : Checked} {g : Setting} {B : C.BlockId → List C.Stmt} {O : Operators V}
  {P : Expr → Result V → Prop} {globals : List IrId}

/-- Parts of a direct body, in which literals have their types. -/
structure Plain (k : Checked) (g : Setting) (globals : List IrId) (parts : List Part) : Prop where
  direct : Direct k globals parts
  literals : ∀ {h lit}, .expr (.literal h lit) ∈ parts → lit.Stored k g h.id.ir

namespace Plain

variable {parts parts' : List Part} {p : Part} {e f : Expr}

theorem sub (h : Plain k g globals parts) (hs : ∀ p ∈ parts', p ∈ parts) :
    Plain k g globals parts' :=
  ⟨h.direct.sub hs, fun hm => h.literals (hs _ hm)⟩

theorem tail (h : Plain k g globals (p :: parts)) : Plain k g globals parts :=
  h.sub fun _ hp => List.mem_cons_of_mem _ hp

theorem left (h : Plain k g globals (parts ++ parts')) : Plain k g globals parts :=
  h.sub fun _ hp => List.mem_append_left _ hp

theorem right (h : Plain k g globals (parts ++ parts')) : Plain k g globals parts' :=
  h.sub fun _ hp => List.mem_append_right _ hp

/-- An operand is as plain as what it belongs to. -/
theorem operand (h : Plain k g globals e.parts) (hf : f ∈ e.operands) :
    (Code.expr f).IsOperand ∧ Plain k g globals f.parts :=
  ⟨(h.direct.operand hf).1, h.sub (Expr.parts_operand hf)⟩

theorem operands {es : List Expr} (h : Plain k g globals e.parts) (hs : es ⊆ e.operands) :
    (Code.exprs es).IsOperand ∧ Plain k g globals (Expr.partsAll es) := by
  refine ⟨fun f hf => (h.direct.operand (hs hf)).1, h.sub fun p hp => ?_⟩
  obtain ⟨f, hf, hp⟩ := Expr.mem_partsAll.1 hp
  exact Expr.parts_operand (hs hf) p hp

end Plain

/-- The operands that a job is about. -/
def Job.operands? : Job → Option Code
  | .expr e _ => some (.expr e)
  | .exprs es _ => some (.exprs es)
  | .fields true fs _ => some (.exprs (fs.map FieldInit.value))
  | _ => none

/-- The C expressions have the values of the operands. -/
def Job.Computes (k : Checked) (O : Operators V) (P : Expr → Result V → Prop) (m : Slots) :
    Job → Prop
  | .expr e v => ∀ {s s' : Store V} {c : C.Store V} {w : Value V}, Represents m s c →
    Evaluates k O P s (.expr e) (.value w) s' → v.value? O c = some w
  | .exprs es vs => ∀ {s s' : Store V} {c : C.Store V} {ws : List V}, Represents m s c →
    Evaluates k O P s (.exprs es) (.values ws) s' → C.Expr.values? O c vs = some ws
  | .fields _ fs given => given.map Prod.fst = fs.map FieldInit.name ∧
    ∀ {s s' : Store V} {c : C.Store V} {ws : List V}, Represents m s c →
      Evaluates k O P s (.exprs (fs.map FieldInit.value)) (.values ws) s' →
      C.Expr.values? O c (given.map Prod.snd) = some ws
  | _ => True

theorem length_of_values? {c : C.Store V} : ∀ {vs : List C.Expr} {ws : List V},
    C.Expr.values? O c vs = some ws → vs.length = ws.length
  | [], ws, h => by
    cases h
    rfl
  | v :: rest, ws, h => by
    obtain ⟨w, _, h⟩ := Option.bind_eq_some_iff.1 h
    obtain ⟨us, hus, rfl⟩ := Option.map_eq_some_iff.1 h
    exact congrArg (· + 1) (length_of_values? hus)

/-- Operands of a direct body need no statements and no variables, and their C expressions have
their values. -/
theorem Emits.computes (hconst : ∀ id, g.constants id ≠ none → id ∈ globals)
    {m m' : Slots} {j : Job} {a : List C.Stmt} (h : Emits k g B m j a m') :
    ∀ {c : Code}, j.operands? = some c → c.IsOperand → Plain k g globals c.parts →
      a = [] ∧ m' = m ∧ j.Computes k O P m := by
  induction h with
  | literal h lit hl =>
    rintro _ ⟨⟩ _ hp
    refine ⟨rfl, rfl, ?_⟩
    intro s s' c w _ hev
    cases hev with
    | literal _ _ hx => exact hl.value? (hp.literals (List.mem_cons_self ..)) hx
  | use h name spelled hd hv =>
    rintro _ ⟨⟩ _ hp
    refine ⟨rfl, rfl, ?_⟩
    intro s s' c w hs hev
    cases hev with
    | identifier _ _ hd' hx =>
      cases hd.symm.trans hd'
      exact hs _ _ _ hv hx
  | @constant m id v h name hd _ hc =>
    rintro _ ⟨⟩ _ hp
    exact absurd (hconst id (hc ▸ Option.some_ne_none v)) (hp.direct.not_global hd)
  | @binary m m₁ m' lv rv a b h op lhs rhs _ _ ihl ihr =>
    rintro _ ⟨⟩ _ hp
    obtain ⟨hql, hpl⟩ := hp.operand (f := lhs) (List.mem_cons_self ..)
    obtain ⟨hqr, hpr⟩ := hp.operand (f := rhs) (List.mem_cons_of_mem _ (List.mem_singleton_self _))
    obtain ⟨rfl, rfl, hl⟩ := ihl rfl hql hpl
    obtain ⟨rfl, rfl, hr⟩ := ihr rfl hqr hpr
    refine ⟨rfl, rfl, ?_⟩
    intro s s' c w hs hev
    cases hev with
    | binary _ _ _ _ hop hboth hx =>
      obtain ⟨_, _, hus, hel, hboth⟩ := hboth.peel ⟨hql, hpl.direct⟩
      cases hus
      obtain ⟨_, _, hus, her, _⟩ := hboth.peel ⟨hqr, hpr.direct⟩
      cases hus
      rw [C.Expr.value?, hl hs hel, hr hs her]
      exact congrArg (Option.map Value.data) ((Operators.binary?_of_not_lazy hop _ _).trans hx)
    | decided _ op _ _ hel ht =>
      rw [C.Expr.value?, hl hs hel]
      exact congrArg (Option.map Value.data) (Operators.binary?_decided ht _)
    | undecided _ op _ _ hel ht her =>
      obtain ⟨rfl, _, _⟩ := hel.operand (Q := P) ⟨hql, hpl.direct⟩
      rw [C.Expr.value?, hl hs hel, hr hs her]
      exact congrArg (Option.map Value.data) (Operators.binary?_undecided ht _)
  | index h base position _ _ ihb ihp =>
    rintro _ ⟨⟩ _ hp
    obtain ⟨hqb, hpb⟩ := hp.operand (f := base) (List.mem_cons_self ..)
    obtain ⟨hqp, hpp⟩ := hp.operand (f := position)
      (List.mem_cons_of_mem _ (List.mem_singleton_self _))
    obtain ⟨rfl, rfl, hb⟩ := ihb rfl hqb hpb
    obtain ⟨rfl, rfl, hi⟩ := ihp rfl hqp hpp
    refine ⟨rfl, rfl, ?_⟩
    intro s s' c w hs hev
    cases hev with
    | index _ _ _ hboth hx =>
      obtain ⟨_, _, hus, heb, hboth⟩ := hboth.peel ⟨hqb, hpb.direct⟩
      cases hus
      obtain ⟨_, _, hus, hei, _⟩ := hboth.peel ⟨hqp, hpp.direct⟩
      cases hus
      rw [C.Expr.value?, hb hs heb, hi hs hei]
      exact congrArg (Option.map Value.data) hx
  | array h values _ _ _ ih =>
    rintro _ ⟨⟩ _ hp
    obtain ⟨hq, hp⟩ := hp.operands (List.Subset.refl values)
    obtain ⟨rfl, rfl, hvs⟩ := ih rfl hq hp
    refine ⟨rfl, rfl, ?_⟩
    intro s s' c w hs hev
    cases hev with
    | array _ _ he =>
      rw [C.Expr.value?, hvs hs he]
      rfl
  | @struct m m' ct r name decls given vs a h path fields ht _ _ ho ih =>
    rintro _ ⟨⟩ _ hp
    have hnames : fields.map FieldInit.name = decls.toList.map (·.1) := hp.direct.names_eq ht
    obtain ⟨hq, hp⟩ := hp.operands (List.Subset.refl (fields.map FieldInit.value))
    rw [beq_iff_eq.2 hnames] at ih
    obtain ⟨rfl, rfl, hgiven, hvs⟩ := ih rfl hq hp
    rw [← hnames, ← hgiven] at ho
    obtain ⟨hn, rfl⟩ := declaredOrder?_self ho
    refine ⟨rfl, rfl, ?_⟩
    intro s s' c w hs hev
    cases hev with
    | struct _ _ _ ht' he ha =>
      cases ht.symm.trans ht'
      have hws := hvs hs he
      have hlength := length_of_values? hws
      rw [List.length_map] at hlength
      rw [← hgiven, Members.names, ← hnames, ← hgiven,
        arranged?_zip hn ((List.length_map _).trans hlength)] at ha
      cases ha
      rw [C.Expr.value?, hws]
      rfl
  | exprsNil =>
    rintro _ ⟨⟩ _ _
    refine ⟨rfl, rfl, ?_⟩
    intro s s' c ws _ hev
    cases hev with
    | exprsNil => rfl
  | exprsCons e es _ _ ih₁ ih₂ =>
    rintro _ ⟨⟩ hq hp
    have hqe := hq e (List.mem_cons_self ..)
    obtain ⟨rfl, rfl, he⟩ := ih₁ rfl hqe hp.left
    obtain ⟨rfl, rfl, hes⟩ := ih₂ rfl (fun f hf => hq f (List.mem_cons_of_mem _ hf)) hp.right
    refine ⟨rfl, rfl, ?_⟩
    intro s s' c ws hs hev
    obtain ⟨v, vs, rfl, hev, hrest⟩ := hev.peel ⟨hqe, hp.left.direct⟩
    rw [C.Expr.values?, he hs hev, hes hs hrest]
    rfl
  | fieldsNil inOrder =>
    intro c hc _ _
    refine ⟨rfl, rfl, rfl, ?_⟩
    intro s s' c ws _ hev
    cases hev with
    | exprsNil => rfl
  | @fieldsCons m m₁ m' v vs a b inOrder h name value rest _ _ _ ih₁ ih₂ =>
    cases inOrder with
    | false => exact nofun
    | true =>
      rintro _ ⟨⟩ hq hp
      have hqe := hq value (List.mem_cons_self ..)
      obtain ⟨rfl, rfl, he⟩ := ih₁ rfl hqe hp.left
      have hqs : (Code.exprs (rest.map FieldInit.value)).IsOperand := fun f hf =>
        hq f (List.mem_cons_of_mem _ hf)
      obtain ⟨rfl, rfl, hnames, hes⟩ := ih₂ rfl hqs hp.right
      refine ⟨rfl, rfl, congrArg (name :: ·) hnames, ?_⟩
      intro s s' c ws hs hev
      obtain ⟨v, vs, rfl, hev, hrest⟩ := hev.peel ⟨hqe, hp.left.direct⟩
      rw [List.map_cons, C.Expr.values?, he hs hev, hes hs hrest]
      rfl
  | fieldsKeep inOrder h name value rest hi =>
    cases inOrder with
    | false => exact nofun
    | true => cases hi
  | call | copies =>
    rintro _ ⟨⟩ _ hp
    exact absurd hp.direct.inForm Bool.false_ne_true
  | retUnit | ret | assign | ifOnly | ifElse | ifElseIf | block =>
    rintro _ ⟨⟩ hq
    cases hq
  | tailNone | tailValue | tailEffect | innerBlock | innerOther | branch | effectItself | effect
  | declareNothing | declare | bindNothing | bind | stmtsNil | stmtsCons => exact nofun

end

end Lower

end MiddleEnd
