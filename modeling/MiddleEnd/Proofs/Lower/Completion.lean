/-
  Lowering a whole program does not stop at a fault, where the table that it works with says of
  every item and of every part of a body what lowering requires (`Lowerable`). Each phase enters
  what later ones look up: the C types of primitive types and of struct items, constants and
  variables, and the functions; between two items nothing that was entered is lost (`Stage`).
-/
import MiddleEnd.Proofs.Check.Outcome
import MiddleEnd.Proofs.Lower.Progress

namespace MiddleEnd

def Item.isFunction (i : Item) : Bool :=
  match i.kind with
  | .function _ => true
  | _ => false

namespace Program

theorem mem_functions {p : Program} {id : IrId} (h : id ∈ p.functions) :
    id ∈ (p.items.filter Item.isFunction).map (·.head.id.ir) := by
  obtain ⟨i, hi, he⟩ := List.mem_filterMap.1 h
  cases hk : i.kind with
  | function d =>
    rw [hk] at he
    exact List.mem_map.2 ⟨i, List.mem_filter.2 ⟨hi, by unfold Item.isFunction; rw [hk]⟩,
      Option.some.inj he⟩
  | struct d => rw [hk] at he; cases he
  | constant d => rw [hk] at he; cases he
  | static d => rw [hk] at he; cases he

end Program

namespace Lower

variable {α β : Type} {k : Checked} {p : Program} {E F : IrId → Prop} {vars : List IrId}
  {l l₁ l' : Lowering}

/-! ## Runs that end -/

/-- The step ends without a fault, and `P` holds afterwards. -/
def Ends (m : Lower α) (l : Lowering) (P : α → Lowering → Prop) : Prop :=
  ∃ a l', Runs m l a l' ∧ P a l'

section

variable {m : Lower α} {f : α → Lower β} {P : α → Lowering → Prop} {Q : β → Lowering → Prop}

theorem Ends.bind (h : Ends m l P) (hf : ∀ a l', P a l' → Ends (f a) l' Q) :
    Ends (m >>= f) l Q := by
  obtain ⟨a, l₁, hr, hp⟩ := h
  obtain ⟨b, l', hr', hq⟩ := hf a l₁ hp
  exact ⟨b, l', runs_bind.2 ⟨a, l₁, hr, hr'⟩, hq⟩

theorem Leaves.ends (h : Leaves m l P) : Ends m l fun a l' => Stays l l' ∧ P a l' := h

theorem Ends.bindRequire {d : Defect} {o : Option α} {a : α} (h : o = some a)
    (hf : Ends (f a) l Q) : Ends (require d o >>= f) l Q := by
  rw [h]
  exact hf

theorem Ends.bindGet {f : Lowering → Lower β} (hf : Ends (f l) l Q) : Ends (get >>= f) l Q := hf

/-- A loop whose steps end and keep what may depend on the members that are left. -/
theorem ends_forM {f : α → Lower Unit} {I : List α → Lowering → Prop}
    (step : ∀ {a rest l}, I (a :: rest) l → Ends (f a) l fun _ l' => I rest l') :
    ∀ (xs : List α) {l : Lowering}, I xs l → Ends (xs.forM f) l fun _ l' => I [] l'
  | [], l, h => ⟨(), l, runs_pure.2 ⟨rfl, rfl⟩, h⟩
  | _ :: rest, _, h => (step h).bind fun _ _ h₁ => ends_forM step rest h₁

end

/-! ## Between two items -/

/-- What lowering has entered: C types for `E`, functions for `F`, something for every variable;
everything declared can be written. -/
structure Stage (k : Checked) (E F : IrId → Prop) (vars : List IrId) (l : Lowering) : Prop where
  types : ∀ r, E r → (l.types[r]?).isSome = true
  functions : ∀ id, F id → (l.functions[id]?).isSome = true
  vars : ∀ id ∈ vars, Held k id →
    (l.vars[id]?).isSome = true ∨ (l.constants[id]?).isSome = true
  inside : ∀ (id : IrId) f, l.functions[id]? = some f → f.index < l.c.functions.size
  writtenConstants : ∀ e ∈ l.declared.constants, (l.c.constants.lookup e.text).isSome = true
  writtenVars : ∀ v ∈ l.declared.vars, ∃ x, l.c.vars[v.index]? = some x ∧ x.global.isSome = true

namespace Stage

theorem stays (h : Stage k E F vars l) (hs : Stays l l') : Stage k E F vars l' where
  types r hr := by rw [hs.types]; exact h.types r hr
  functions id hid := by rw [hs.functions]; exact h.functions id hid
  vars id hid hh := by
    rw [hs.constants]
    exact (h.vars id hid hh).imp_left (hs.vars id)
  inside id f hf := by
    rw [hs.functions] at hf
    rw [hs.size]
    exact h.inside id f hf
  writtenConstants e he := by
    rw [hs.declared] at he
    rw [hs.named]
    exact h.writtenConstants e he
  writtenVars v hv := by
    rw [hs.declared] at hv
    obtain ⟨x, hx, hg⟩ := h.writtenVars v hv
    exact ⟨x, hs.made _ x hx, hg⟩

theorem note (h : Stage k E F vars l) (e : Event) : Stage k E F vars (l.note e) :=
  ⟨h.types, h.functions, h.vars, h.inside, h.writtenConstants, h.writtenVars⟩

theorem empty (target : String) :
    Stage k (fun _ => False) (fun _ => False) [] (.empty target) where
  types _ h := h.elim
  functions _ h := h.elim
  vars _ h := absurd h List.not_mem_nil
  inside _ _ h := by cases h
  writtenConstants _ h := absurd h List.not_mem_nil
  writtenVars _ h := absurd h List.not_mem_nil

/-- Fewer things are looked up. -/
theorem mono (h : Stage k E F vars l) {E' F' : IrId → Prop} {vars' : List IrId}
    (hE : ∀ r, E' r → E r) (hF : ∀ id, F' id → F id) (hv : ∀ id ∈ vars', id ∈ vars) :
    Stage k E' F' vars' l where
  types r hr := h.types r (hE r hr)
  functions id hid := h.functions id (hF id hid)
  vars id hid := h.vars id (hv id hid)
  inside := h.inside
  writtenConstants := h.writtenConstants
  writtenVars := h.writtenVars

/-- A C type is entered. -/
theorem setType (h : Stage k E F vars l) (r : IrId) (ct : C.Ty) :
    Stage k (fun x => E x ∨ x = r) F vars { l with types := l.types.insert r ct } where
  types x hx := by
    show ((l.types.insert r ct)[x]?).isSome = true
    rw [Std.TreeMap.getElem?_insert]
    split
    · rfl
    · rename_i hne
      refine h.types x (hx.resolve_right ?_)
      rintro rfl
      exact hne (Std.compare_eq_iff_eq.2 rfl)
  functions := h.functions
  vars := h.vars
  inside := h.inside
  writtenConstants := h.writtenConstants
  writtenVars := h.writtenVars

end Stage

/-! ## Single items -/

theorem does_types : ∀ (ms : Members) {l : Lowering}, ms.Stored E →
    (∀ r, E r → (l.types[r]?).isSome = true) → Does (types ms) l
  | .nil, _, _, _ => does_pure []
  | .cons name t rest, _, h, hl =>
    (does_type h.1 hl).bind fun ct _ h₁ _ =>
      (does_types rest h.2 fun r hr => by rw [h₁.types]; exact hl r hr).bind
        fun _ _ _ _ => does_pure _

theorem does_resultType {t : Ty} (h : t.isUnit = true ∨ t.Stored E)
    (hl : ∀ r, E r → (l.types[r]?).isSome = true) : Does (resultType t) l := by
  unfold resultType
  cases hu : t.isUnit with
  | true => exact does_pure none
  | false =>
    have hs : t.Stored E := h.resolve_left (by rw [hu]; exact Bool.false_ne_true)
    exact (does_type hs hl).bind fun ct _ _ _ => does_pure (some ct)

theorem ends_structItem {i : Item} {d : StructDecl} {r : IrId} {name : String} {fields : Members}
    (h : Stage k E F vars l) (ht : k.types.get? i.head.id.ir = some (.struct r name fields))
    (hs : fields.Stored E) : Ends (structItem k i d) l fun _ l' =>
      Stage k (fun x => E x ∨ x = i.head.id.ir) F vars l' := by
  refine .bindRequire ht ((does_types fields hs h.types).ends.bind fun members l₁ h₁ => ?_)
  let l₂ : Lowering := { l₁ with c := (l₁.c.structType d.name members).2 }
  have hstage : Stage k E F vars l₂ :=
    have hl := h.stays h₁.1
    ⟨hl.types, hl.functions, hl.vars, hl.inside, hl.writtenConstants, hl.writtenVars⟩
  have hset := hstage.setType i.head.id.ir (l₁.c.structType d.name members).1
  exact ⟨(), _, runs_bind.2 ⟨_, l₂, runs_build.2 ⟨rfl, rfl⟩, runs_bind.2 ⟨(), _,
    runs_modify.2 rfl, runs_modify.2 rfl⟩⟩, hset.types, hset.functions, hset.vars, hset.inside,
    hset.writtenConstants, hset.writtenVars⟩

/-! ## Constants and variables of the whole program -/

/-- What lowering requires of a constant or static item: a literal as its initial value, and a type
that needs storage. -/
def Lowerable.Initial (k : Checked) (E : IrId → Prop) (i : Item) : Prop :=
  ∀ e, i.initial? = some e → (∃ h lit ty, e = .literal h lit ∧ k.types.get? h.id.ir = some ty ∧
      ty.Stored E ∧ Readable ty lit) ∧
    ∃ t, k.types.get? i.head.id.ir = some t ∧ t.Stored E

namespace Stage

/-- A constant is declared. -/
theorem constant (h : Stage k E F vars l) (id : IrId) (ct : C.Ty) (name : String) (v : C.Expr) :
    Stage k E F (id :: vars) { l with
      c := (l.c.constant ct name v).2
      constants := l.constants.insert id (.constant name)
      declared := { l.declared with
        constants := l.declared.constants ++ [.constant name] } } where
  types := h.types
  functions := h.functions
  inside := h.inside
  writtenVars := h.writtenVars
  vars other hid hh := by
    show (l.vars[other]?).isSome = true ∨
      ((l.constants.insert id (.constant name))[other]?).isSome = true
    rw [Std.TreeMap.getElem?_insert]
    split
    · exact .inr rfl
    · rename_i hne
      refine h.vars other ((List.mem_cons.1 hid).resolve_left ?_) hh
      rintro rfl
      exact hne (Std.compare_eq_iff_eq.2 rfl)
  writtenConstants e he := by
    show (List.lookup e.text ((name, ⟨ct, v⟩) :: l.c.constants)).isSome = true
    rw [List.lookup_cons]
    split
    · rfl
    · rename_i hne
      rcases List.mem_append.1 he with he | he
      · exact h.writtenConstants e he
      · rw [List.mem_singleton.1 he] at hne
        have hne : (name == name) = false := hne
        rw [beq_self_eq_true] at hne
        cases hne

/-- A variable of the whole program is declared. -/
theorem static (h : Stage k E F vars l) (id : IrId) (ct : C.Ty) (name : String) (init : C.Expr)
    (isMutable : Bool) :
    Stage k E F (id :: vars) { l with
      c := (l.c.globalVariable name ct init isMutable).2
      vars := l.vars.insert id ⟨l.c.vars.size⟩
      declared := { l.declared with vars := l.declared.vars ++ [⟨l.c.vars.size⟩] } } where
  types := h.types
  functions := h.functions
  inside := h.inside
  writtenConstants := h.writtenConstants
  vars other hid hh := by
    show ((l.vars.insert id ⟨l.c.vars.size⟩)[other]?).isSome = true ∨
      (l.constants[other]?).isSome = true
    rw [Std.TreeMap.getElem?_insert]
    split
    · exact .inl rfl
    · rename_i hne
      refine h.vars other ((List.mem_cons.1 hid).resolve_left ?_) hh
      rintro rfl
      exact hne (Std.compare_eq_iff_eq.2 rfl)
  writtenVars v hv := by
    show ∃ x, (l.c.vars.push _)[v.index]? = some x ∧ _
    rcases List.mem_append.1 hv with hv | hv
    · obtain ⟨x, hx, hg⟩ := h.writtenVars v hv
      have hlt : v.index < l.c.vars.size := (Array.getElem?_eq_some_iff.1 hx).1
      refine ⟨x, ?_, hg⟩
      rw [Array.getElem?_push, if_neg (Nat.ne_of_lt hlt)]
      exact hx
    · rw [List.mem_singleton.1 hv]
      exact ⟨_, Array.getElem?_push_size, rfl⟩

end Stage

theorem ends_constantItem {i : Item} {d : ConstantDecl} (h : Stage k E F vars l)
    (hd : i.initial? = some d.value) (hi : Lowerable.Initial k E i) :
    Ends (constantItem k i d) l fun _ l' => Stage k E F (i.head.id.ir :: vars) l' := by
  obtain ⟨⟨g, lit, ty, hlit, hget, hty, hread⟩, t, ht, hstored⟩ := hi _ hd
  refine .bindRequire ht ((does_type hstored h.types).ends.bind fun ct l₁ h₁ => ?_)
  have hl₁ := h.stays h₁.1
  rw [hlit]
  refine (does_literal hl₁.types hget hty hread).ends.bind fun v l₂ h₂ => ?_
  exact ⟨(), _, runs_bind.2 ⟨_, _, runs_build.2 ⟨rfl, rfl⟩, runs_bind.2 ⟨(), _,
    runs_modify.2 rfl, runs_modify.2 rfl⟩⟩, (hl₁.stays h₂.1).constant i.head.id.ir ct d.name v⟩

theorem ends_staticItem {i : Item} {d : StaticDecl} (h : Stage k E F vars l)
    (hd : i.initial? = some d.value) (hi : Lowerable.Initial k E i) :
    Ends (staticItem k i d) l fun _ l' => Stage k E F (i.head.id.ir :: vars) l' := by
  obtain ⟨⟨g, lit, ty, hlit, hget, hty, hread⟩, t, ht, hstored⟩ := hi _ hd
  refine .bindRequire ht ((does_type hstored h.types).ends.bind fun ct l₁ h₁ => ?_)
  have hl₁ := h.stays h₁.1
  rw [hlit]
  refine (does_literal hl₁.types hget hty hread).ends.bind fun v l₂ h₂ => ?_
  exact ⟨(), _, runs_bind.2 ⟨_, _, runs_build.2 ⟨rfl, rfl⟩, runs_bind.2 ⟨(), _,
    runs_modify.2 rfl, runs_modify.2 rfl⟩⟩, (hl₁.stays h₂.1).static i.head.id.ir ct d.name v
      d.isMutable⟩

/-! ## Functions -/

/-- What lowering requires of a function item: parameters and result that are values, and a block as
its body, whose names are in scope and whose parts can be lowered. -/
structure Lowerable.Function (k : Checked) (E F : IrId → Prop) (vars : List IrId) (i : Item)
    (d : FunctionDecl) : Prop where
  signature : ∃ r ps result, k.types.get? i.head.id.ir = some (.fn r ps result) ∧
    ps.length = d.params.length ∧ ps.Stored E ∧ (result.isUnit = true ∨ result.Stored E)
  block : ∃ h ss tail, d.body = .block h ss tail
  inScope : d.body.scoped k.scope (d.params.map (·.head.id.ir) ++ vars) = true
  supported : Supported k E F d.body.parts

/-- A function is entered. -/
theorem Stage.function (h : Stage k E F vars l) (id : IrId) (x : C.Function) :
    Stage k E (fun other => F other ∨ other = id) vars { l with
      c := { l.c with functions := l.c.functions.push x }
      functions := l.functions.insert id ⟨l.c.functions.size⟩ } where
  types := h.types
  vars := h.vars
  writtenConstants := h.writtenConstants
  writtenVars := h.writtenVars
  functions other hother := by
    show ((l.functions.insert id ⟨l.c.functions.size⟩)[other]?).isSome = true
    rw [Std.TreeMap.getElem?_insert]
    split
    · rfl
    · rename_i hne
      refine h.functions other (hother.resolve_right ?_)
      rintro rfl
      exact hne (Std.compare_eq_iff_eq.2 rfl)
  inside other f hf := by
    have hf : (l.functions.insert id ⟨l.c.functions.size⟩)[other]? = some f := hf
    show f.index < (l.c.functions.push x).size
    rw [Array.size_push]
    rw [Std.TreeMap.getElem?_insert] at hf
    split at hf
    · cases hf
      exact Nat.lt_succ_self _
    · exact Nat.lt_succ_of_lt (h.inside other f hf)

theorem ends_signatureOf {i : Item} {d : FunctionDecl} {r : IrId} {ps : Members} {result : Ty}
    (ht : k.types.get? i.head.id.ir = some (.fn r ps result)) {f : Members × Ty → Lower α}
    {Q : α → Lowering → Prop} (hf : Ends (f (ps, result)) l Q) :
    Ends (signatureOf k i d >>= f) l Q := by
  have hs : Runs (signatureOf k i d) l (ps, result) l :=
    runs_bind.2 ⟨_, l, runs_require.2 ⟨ht, rfl⟩, runs_require.2 ⟨rfl, rfl⟩⟩
  obtain ⟨a, l', hr, hq⟩ := hf
  exact ⟨a, l', runs_bind.2 ⟨_, l, hs, hr⟩, hq⟩

theorem ends_functionSignature {i : Item} {d : FunctionDecl} {r : IrId} {ps : Members} {result : Ty}
    (h : Stage k E F vars l) (ht : k.types.get? i.head.id.ir = some (.fn r ps result))
    (hps : ps.Stored E) (hresult : result.isUnit = true ∨ result.Stored E) :
    Ends (functionSignature k i d) l fun _ l' =>
      Stage k E (fun id => F id ∨ id = i.head.id.ir) vars l' := by
  refine ends_signatureOf ht ?_
  refine (does_types ps hps h.types).ends.bind fun members l₁ h₁ => ?_
  have hl₁ := h.stays h₁.1
  refine (does_resultType hresult hl₁.types).ends.bind fun ct l₂ h₂ => ?_
  exact ⟨(), _, runs_bind.2 ⟨_, _, runs_buildOrFail.2 ⟨rfl, rfl⟩, runs_modify.2 rfl⟩,
    (hl₁.stays h₂.1).function i.head.id.ir ⟨d.name, ct.getD .void, [], none, []⟩⟩

theorem does_parameter (f : C.FunctionId) (name : String) (ct : C.Ty) :
    Does (build (·.parameter f name ct)) l := by
  obtain ⟨v, l₁, hr, hs, _⟩ := does_newLocal (l := l) f name ct
  obtain ⟨rfl, rfl⟩ := runs_build.1 hr
  refine ⟨_, _, runs_build.2 ⟨rfl, rfl⟩, ?_, trivial⟩
  exact ⟨hs.types, hs.functions, hs.constants, hs.active, hs.depth, hs.declared, hs.vars, hs.named,
    (Array.size_modify ..).trans hs.size, hs.made⟩

/-- Every parameter gets a variable. -/
theorem leaves_params {f : C.FunctionId} : ∀ (ps : List Param) (ts : Members) {l : Lowering},
    ts.length = ps.length → ts.Stored E → (∀ r, E r → (l.types[r]?).isSome = true) →
    Leaves (params f ps ts) l fun _ l' =>
      ∀ id ∈ ps.map (·.head.id.ir), (l'.vars[id]?).isSome = true
  | [], _, _, _, _, _ => leaves_pure fun _ hm => absurd hm List.not_mem_nil
  | p :: rest, .cons _ t ts, l, hn, hs, hl =>
    (does_type hs.1 hl).bind fun ct _ h₁ _ =>
    (does_parameter f p.pattern.name ct).bind fun v _ h₂ _ =>
    (leaves_setVariable p.head.id.ir v).bind fun _ _ h₃ hp => by
      have hall := (h₁.trans h₂).trans h₃
      obtain ⟨u, l', hr, h₄, hrest⟩ := leaves_params (f := f) rest ts
        (Nat.succ.inj hn) hs.2 fun r hr => by rw [hall.types]; exact hl r hr
      refine ⟨u, l', hr, h₄, ?_⟩
      intro id hid
      rcases List.mem_cons.1 hid with rfl | hid
      · exact h₄.vars _ hp
      · exact hrest id hid

theorem does_resultSlot {f : C.FunctionId} {result : Ty}
    (h : result.isUnit = true ∨ result.Stored E)
    (hl : ∀ r, E r → (l.types[r]?).isSome = true) (hb : l.blocks ≠ []) :
    Does (resultSlot f result) l := by
  unfold resultSlot
  cases hu : result.isUnit with
  | true => exact does_pure none
  | false =>
    have hs : result.Stored E := h.resolve_left (by rw [hu]; exact Bool.false_ne_true)
    exact (does_type hs hl).bind fun ct _ h₁ _ => (does_newLocal f "__ret" ct).bind fun v _ h₂ _ =>
      Leaves.bindLook ((does_addStmt (Open.blocks_of_length hb (h₁.trans h₂).depth)).bind
        fun _ _ _ _ => does_pure (some v))

theorem does_finish (hb : l.blocks ≠ []) : ∀ (slot : Option C.VarId) (value : Option C.Expr),
    Does (finish slot value) l
  | _, none => does_pure ()
  | some v, some value => (does_store v value hb).bind fun _ _ h _ =>
    Leaves.bindLook (does_addStmt (Open.blocks_of_length hb h.depth))
  | none, some _ => does_addStmt hb

/-- A function that is being filled now. -/
def filling (a : Activation) (l : Lowering) : Lowering :=
  { l.note (.functionEntered a.function.index) with active := a :: l.active }

theorem runs_filling {a : Activation} : Runs (pushFunction a) l () (filling a l) :=
  runs_bind.2 ⟨(), l.note (.functionEntered a.function.index), runs_note.2 rfl, runs_modify.2 rfl⟩

/-- A function that was entered can be left. -/
theorem left {a : Activation} (h : Stays (filling a l) l₁) :
    ∃ l', Runs popFunction l₁ a l' ∧ Stays l l' := by
  refine ⟨_, runs_popFunction.2 ⟨l.active, h.active, rfl⟩, ?_⟩
  exact ⟨h.types, h.functions, h.constants, rfl, h.depth, h.declared, h.vars, h.named, h.size,
    h.made⟩

/-- A function is filled and declared. -/
theorem Stage.filled (h : Stage k E F vars l) (f : C.FunctionId) (body : C.BlockId) :
    Stage k E F vars { l with
      c := l.c.modifyFunction f fun g => { g with body := some body }
      declared := { l.declared with functions := l.declared.functions ++ [f] } } where
  types := h.types
  functions := h.functions
  vars := h.vars
  writtenConstants := h.writtenConstants
  writtenVars := h.writtenVars
  inside id g hg := by
    show g.index < (l.c.functions.modify f.index _).size
    rw [Array.size_modify]
    exact h.inside id g hg

theorem ends_functionBody {i : Item} {d : FunctionDecl} (h : Stage k E F vars l)
    (hF : F i.head.id.ir) (hi : Lowerable.Function k E F vars i d) :
    Ends (functionBody k i d) l fun _ l' => Stage k E F vars l' := by
  obtain ⟨r, ps, result, ht, hn, hps, hresult⟩ := hi.signature
  obtain ⟨g, ss, tail, hb⟩ := hi.block
  obtain ⟨f, hf⟩ := Option.isSome_iff_exists.1 (h.functions _ hF)
  unfold functionBody
  refine .bindGet (.bindRequire hf (.bindGet ?_))
  split
  · exact ⟨(), l, runs_pure.2 ⟨rfl, rfl⟩, h⟩
  refine ends_signatureOf ht ?_
  refine (leaves_params d.params ps hn hps h.types).ends.bind fun _ l₁ h₁ => ?_
  have hl₁ := h.stays h₁.1
  obtain ⟨slot, l₂, rslot, h₂, _⟩ := does_resultSlot (f := f) (l := opened l₁) hresult hl₁.types
    (List.cons_ne_nil _ _)
  have hopen : Open k E F (d.params.map (·.head.id.ir) ++ vars) (filling ⟨f, slot⟩ l₂) := by
    refine Open.more ⟨List.cons_ne_nil _ _, ?_, ?_, ?_, ?_⟩ ?_
    · exact Open.blocks_of_length (List.cons_ne_nil _ _) h₂.depth
    · exact fun r hr => (congrArg (·[r]?.isSome) h₂.types).trans (hl₁.types r hr)
    · exact fun id hid => (congrArg (·[id]?.isSome) h₂.functions).trans (hl₁.functions id hid)
    · intro id hid hh
      refine (hl₁.vars id hid hh).imp (h₂.vars id) fun hc => ?_
      exact (congrArg (·[id]?.isSome) h₂.constants).trans hc
    · exact fun id hid _ => h₂.vars id (h₁.2 id hid)
  obtain ⟨v, l₃, rbody, h₃, _⟩ := (works hi.supported hi.inScope).branch hopen
  obtain ⟨_, l₄, rfinish, h₄, _⟩ := does_finish (hopen.stays h₃).blocks slot v
  obtain ⟨l₅, rleave, h₅⟩ := left (h₃.trans h₄)
  obtain ⟨b, l₆, rpop, h₆⟩ := closed (h₂.trans h₅)
  have hl₆ := hl₁.stays h₆
  have hset : (l₆.c.setBody f b) = (.ok (), l₆.c.modifyFunction f fun g =>
      { g with body := some b }) := if_pos (hl₆.inside i.head.id.ir f (by
    rw [(h₁.1.trans h₆).functions]
    exact hf))
  rw [hb] at rbody ⊢
  refine ⟨(), _, runs_opened l₁ (runs_bind.2 ⟨slot, l₂, rslot, runs_bind.2 ⟨(), _, runs_filling,
    runs_bind.2 ⟨v, l₃, rbody, runs_bind.2 ⟨_, l₄, rfinish, runs_bind.2 ⟨PUnit.unit, l₅,
    runs_discard.2 ⟨_, rleave⟩, runs_bind.2 ⟨b, l₆, rpop, runs_bind.2 ⟨(), _,
    runs_buildOrFail.2 ⟨congrArg (·.1) hset, rfl⟩, runs_bind.2 ⟨(), _, runs_modify.2 rfl,
    runs_note.2 rfl⟩⟩⟩⟩⟩⟩⟩⟩), ?_⟩
  rw [hset]
  exact (hl₆.filled f b).note _

/-! ## Programs -/

/-- What lowering requires of a checked program. The table has the types of `E` from the start, in
which only primitive types are. -/
structure Lowerable (k : Checked) (E : IrId → Prop) (p : Program) : Prop where
  primitives : ∀ b ∈ k.scope.bindings.builtins, ∃ r t, k.types.builtinId? b.node = some r ∧
    k.types.get? r = some t ∧ (primitiveTy? t).isSome = true
  entered : ∀ r, E r → ∃ b ∈ k.scope.bindings.builtins, k.types.builtinId? b.node = some r
  structs : Check.Layered k.types E (p.items.filter Item.isStruct)
  firm : ∀ i ∈ p.items, ∀ ty, k.types.get? i.head.id.ir = some ty →
    ty.complete = true ∧ ty.solid = true
  initials : ∀ i ∈ p.items, Lowerable.Initial k (fun r => E r ∨ r ∈ p.structs) i
  functions : ∀ i ∈ p.items, ∀ d, i.kind = .function d →
    Lowerable.Function k (fun r => E r ∨ r ∈ p.structs) (· ∈ p.functions) p.globals i d

theorem ends_enterPrimitives (h : Lowerable k E p) (target : String) :
    Ends (enterPrimitives k) (.empty target) fun _ l' => Stage k E (fun _ => False) [] l' := by
  have hloop := ends_forM (f := fun b => do
      let id ← require (.builtinWithoutId b.name) (k.types.builtinId? b.node)
      let t ← require (.builtinWithoutType b.name) (k.types.get? id)
      setType id (← primitive t))
    (I := fun bs l => (∀ b ∈ bs, b ∈ k.scope.bindings.builtins) ∧
      ∃ E', Stage k E' (fun _ => False) [] l ∧
        ∀ r, E r → E' r ∨ ∃ b ∈ bs, k.types.builtinId? b.node = some r)
    ?_ k.scope.bindings.builtins (l := .empty target)
    ⟨fun _ hb => hb, _, .empty target, fun r hr => .inr (h.entered r hr)⟩
  · obtain ⟨u, l', hr, _, E', hs, hE⟩ := hloop
    refine ⟨u, l', hr, hs.mono ?_ (fun _ h => h) fun _ h => h⟩
    intro r hr
    exact (hE r hr).resolve_right fun ⟨_, hm, _⟩ => absurd hm List.not_mem_nil
  · intro b rest l ⟨hin, E', hs, hE⟩
    obtain ⟨hb, hrest⟩ := List.forall_mem_cons.1 hin
    obtain ⟨r, t, hr, ht, hp⟩ := h.primitives b hb
    obtain ⟨ct, hct⟩ := Option.isSome_iff_exists.1 hp
    refine .bindRequire hr (.bindRequire ht (.bindRequire hct ⟨(), _, runs_modify.2 rfl, hrest,
      _, hs.setType r ct, ?_⟩))
    intro x hx
    rcases hE x hx with hx | ⟨c, hc, hx⟩
    · exact .inl (.inl hx)
    · rcases List.mem_cons.1 hc with rfl | hc
      · exact .inl (.inr (Option.some.inj (hx.symm.trans hr)))
      · exact .inr ⟨c, hc, hx⟩

/-- A phase that lowers the items of one kind. Each of them enters its identity. -/
theorem ends_phase {f : Item → Lower Unit} {q : Item → Bool}
    {I : (IrId → Prop) → List Item → Lowering → Prop}
    (mono : ∀ {S S' : IrId → Prop} {l}, (∀ r, S' r → S r) → I S [] l → I S' [] l)
    (skip : ∀ i, q i = false → f i = return ())
    (step : ∀ {S i rest l}, q i = true → I S (i :: rest) l →
      Ends (f i) l fun _ l' => I (fun r => S r ∨ r = i.head.id.ir) rest l') :
    ∀ (items : List Item) {S : IrId → Prop} {l : Lowering}, I S (items.filter q) l →
      Ends (items.forM f) l fun _ l' =>
        I (fun r => S r ∨ r ∈ (items.filter q).map (·.head.id.ir)) [] l'
  | [], S, l, h =>
    ⟨(), l, runs_pure.2 ⟨rfl, rfl⟩, mono (fun r hr => hr.resolve_right List.not_mem_nil) h⟩
  | i :: rest, S, l, h => by
    cases hq : q i with
    | false =>
      rw [List.filter_cons_of_neg (by rw [hq]; exact Bool.false_ne_true)] at h ⊢
      obtain ⟨u, l', hr, hi⟩ := ends_phase mono skip step rest h
      refine ⟨u, l', runs_bind.2 ⟨(), l, ?_, hr⟩, hi⟩
      rw [skip i hq]
      exact runs_pure.2 ⟨rfl, rfl⟩
    | true =>
      rw [List.filter_cons_of_pos hq] at h ⊢
      refine (step hq h).bind fun _ _ h₁ => ?_
      obtain ⟨u, l', hr, hi⟩ := ends_phase mono skip step rest h₁
      refine ⟨u, l', hr, mono ?_ hi⟩
      rintro r (hr | hr)
      · exact .inl (.inl hr)
      · exact (List.mem_cons.1 hr).imp_left .inr |>.elim (fun h => .inl h) .inr

/-- All struct types are entered, each after those that its fields refer to. -/
theorem ends_structs (h : Lowerable k E p) (hl : Stage k E (fun _ => False) [] l) :
    Ends (p.items.forM fun i =>
      match i.kind with
      | .struct d => structItem k i d
      | _ => return ()) l fun _ l' =>
        Stage k (fun r => E r ∨ r ∈ p.structs) (fun _ => False) [] l' := by
  have hphase := ends_phase (q := Item.isStruct) (S := E) (l := l)
    (f := fun i => match i.kind with
      | .struct d => structItem k i d
      | _ => return ())
    (I := fun S is l => Stage k S (fun _ => False) [] l ∧ Check.Layered k.types S is ∧
      ∀ i ∈ is, i ∈ p.items)
    (fun hS hs => ⟨hs.1.mono hS (fun _ h => h) fun _ h => h, trivial, hs.2.2⟩)
    ?_ ?_ p.items ⟨hl, h.structs, fun i hi => (List.mem_filter.1 hi).1⟩
  · obtain ⟨u, l', hr, hs, _⟩ := hphase
    exact ⟨u, l', hr, hs⟩
  · intro i hq
    unfold Item.isStruct at hq
    cases hk : i.kind with
    | struct d => rw [hk] at hq; cases hq
    | _ => rfl
  · intro S i rest l hq ⟨hs, ⟨⟨name, fields, hget, hplain⟩, hlayers⟩, hin⟩
    obtain ⟨hi, hrest⟩ := List.forall_mem_cons.1 hin
    obtain ⟨hc, hsolid⟩ := h.firm i hi _ hget
    unfold Item.isStruct at hq
    cases hk : i.kind with
    | struct d =>
      obtain ⟨u, l', hr, hs'⟩ := ends_structItem (d := d) hs hget (hplain.stored hc hsolid)
      exact ⟨u, l', hr, hs', hlayers, hrest⟩
    | _ => rw [hk] at hq; cases hq

/-- All constants and variables of the whole program are entered. -/
theorem ends_values (h : Lowerable k E p)
    (hl : Stage k (fun r => E r ∨ r ∈ p.structs) (fun _ => False) [] l) :
    Ends (p.items.forM fun i =>
      match i.kind with
      | .constant d => constantItem k i d
      | .static d => staticItem k i d
      | _ => return ()) l fun _ l' =>
        Stage k (fun r => E r ∨ r ∈ p.structs) (fun _ => False) p.globals l' := by
  have hphase := ends_phase (q := (·.initial?.isSome)) (S := fun _ => False) (l := l)
    (f := fun i => match i.kind with
      | .constant d => constantItem k i d
      | .static d => staticItem k i d
      | _ => return ())
    (I := fun S is l => ∃ vars, Stage k (fun r => E r ∨ r ∈ p.structs) (fun _ => False) vars l ∧
      (∀ r, S r → r ∈ vars) ∧ ∀ i ∈ is, i ∈ p.items)
    ?_ ?_ ?_ p.items ⟨[], hl, fun _ hr => hr.elim, fun i hi => (List.mem_filter.1 hi).1⟩
  · obtain ⟨u, l', hr, vars, hs, hvars, _⟩ := hphase
    exact ⟨u, l', hr, hs.mono (fun _ h => h) (fun _ h => h) fun id hid => hvars id (.inr hid)⟩
  · rintro S S' l hS ⟨vars, hs, hvars, hin⟩
    exact ⟨vars, hs, fun r hr => hvars r (hS r hr), hin⟩
  · intro i hq
    unfold Item.initial? at hq
    cases hk : i.kind with
    | constant d => rw [hk] at hq; cases hq
    | static d => rw [hk] at hq; cases hq
    | _ => rfl
  · rintro S i rest l hq ⟨vars, hs, hvars, hin⟩
    obtain ⟨hi, hrest⟩ := List.forall_mem_cons.1 hin
    have hmore : ∀ r, S r ∨ r = i.head.id.ir → r ∈ i.head.id.ir :: vars := fun r hr =>
      List.mem_cons.2 (hr.symm.imp_right (hvars r))
    cases hk : i.kind with
    | constant d =>
      obtain ⟨u, l', hr, hs'⟩ := ends_constantItem (d := d) hs (by unfold Item.initial?; rw [hk])
        (h.initials i hi)
      exact ⟨u, l', hr, _, hs', hmore, hrest⟩
    | static d =>
      obtain ⟨u, l', hr, hs'⟩ := ends_staticItem (d := d) hs (by unfold Item.initial?; rw [hk])
        (h.initials i hi)
      exact ⟨u, l', hr, _, hs', hmore, hrest⟩
    | function d => unfold Item.initial? at hq; rw [hk] at hq; cases hq
    | struct d => unfold Item.initial? at hq; rw [hk] at hq; cases hq

/-- All functions are entered. -/
theorem ends_signatures (h : Lowerable k E p)
    (hl : Stage k (fun r => E r ∨ r ∈ p.structs) (fun _ => False) p.globals l) :
    Ends (p.items.forM fun i =>
      match i.kind with
      | .function d => functionSignature k i d
      | _ => return ()) l fun _ l' =>
        Stage k (fun r => E r ∨ r ∈ p.structs) (· ∈ p.functions) p.globals l' := by
  have hphase := ends_phase (q := Item.isFunction) (S := fun _ => False) (l := l)
    (f := fun i => match i.kind with
      | .function d => functionSignature k i d
      | _ => return ())
    (I := fun S is l => Stage k (fun r => E r ∨ r ∈ p.structs) S p.globals l ∧
      ∀ i ∈ is, i ∈ p.items)
    (fun hS hs => ⟨hs.1.mono (fun _ h => h) hS fun _ h => h, hs.2⟩)
    ?_ ?_ p.items ⟨hl, fun i hi => (List.mem_filter.1 hi).1⟩
  · obtain ⟨u, l', hr, hs, _⟩ := hphase
    exact ⟨u, l', hr, hs.mono (fun _ h => h) (fun id hid => .inr (Program.mem_functions hid))
      fun _ h => h⟩
  · intro i hq
    unfold Item.isFunction at hq
    cases hk : i.kind with
    | function d => rw [hk] at hq; cases hq
    | _ => rfl
  · intro S i rest l hq ⟨hs, hin⟩
    obtain ⟨hi, hrest⟩ := List.forall_mem_cons.1 hin
    unfold Item.isFunction at hq
    cases hk : i.kind with
    | function d =>
      obtain ⟨r, ps, result, hget, _, hps, hresult⟩ := (h.functions i hi d hk).signature
      obtain ⟨u, l', hr, hs'⟩ := ends_functionSignature (d := d) hs hget hps hresult
      exact ⟨u, l', hr, hs', hrest⟩
    | _ => rw [hk] at hq; cases hq

/-- All functions are filled. -/
theorem ends_bodies (h : Lowerable k E p)
    (hl : Stage k (fun r => E r ∨ r ∈ p.structs) (· ∈ p.functions) p.globals l) :
    Ends (p.items.forM fun i =>
      match i.kind with
      | .function d => functionBody k i d
      | _ => return ()) l fun _ l' =>
        Stage k (fun r => E r ∨ r ∈ p.structs) (· ∈ p.functions) p.globals l' := by
  have hloop := ends_forM (l := l)
    (f := fun i => match i.kind with
      | .function d => functionBody k i d
      | _ => return ())
    (I := fun is l => Stage k (fun r => E r ∨ r ∈ p.structs) (· ∈ p.functions) p.globals l ∧
      ∀ i ∈ is, i ∈ p.items) ?_ p.items ⟨hl, fun _ hi => hi⟩
  · obtain ⟨u, l', hr, hs, _⟩ := hloop
    exact ⟨u, l', hr, hs⟩
  · intro i rest l ⟨hs, hin⟩
    obtain ⟨hi, hrest⟩ := List.forall_mem_cons.1 hin
    cases hk : i.kind with
    | function d =>
      have hF : i.head.id.ir ∈ p.functions :=
        List.mem_filterMap.2 ⟨i, hi, by rw [hk]⟩
      obtain ⟨u, l', hr, hs'⟩ := ends_functionBody hs hF (h.functions i hi d hk)
      exact ⟨u, l', hr, hs', hrest⟩
    | _ => exact ⟨(), l, runs_pure.2 ⟨rfl, rfl⟩, hs, hrest⟩

theorem untilDefect_of_ok : ∀ (xs : List (Except Defect String)),
    (∀ x ∈ xs, ∃ line, x = .ok line) → (C.Program.untilDefect xs).2 = none
  | [], _ => rfl
  | x :: rest, h => by
    obtain ⟨⟨line, rfl⟩, hrest⟩ := List.forall_mem_cons.1 h
    exact untilDefect_of_ok rest hrest

/-- What was declared can be written. -/
theorem Stage.lines_ok (h : Stage k E F vars l) :
    ∀ x ∈ l.c.lines l.declared, ∃ line, x = .ok line := by
  have hplain : ∀ lines : List String, ∀ x ∈ lines.map Except.ok,
      ∃ line, x = (.ok line : Except Defect String) :=
    fun lines => List.forall_mem_map.2 fun line _ => ⟨line, rfl⟩
  refine List.forall_mem_append.2 ⟨List.forall_mem_append.2 ⟨List.forall_mem_append.2
    ⟨List.forall_mem_append.2 ⟨hplain _, List.forall_mem_map.2 ?_⟩, List.forall_mem_map.2 ?_⟩, ?_⟩,
    hplain _⟩
  · intro e he
    obtain ⟨c, hc⟩ := Option.isSome_iff_exists.1 (h.writtenConstants e he)
    unfold C.Program.constantLine
    rw [hc]
    exact ⟨_, rfl⟩
  · intro v hv
    obtain ⟨⟨name, ct, global⟩, hx, hg⟩ := h.writtenVars v hv
    obtain ⟨g, rfl⟩ := Option.isSome_iff_exists.1 hg
    unfold C.Program.globalLine
    rw [hx]
    exact ⟨_, rfl⟩
  · exact List.forall_mem_singleton.2 ⟨"", rfl⟩

theorem ends_write (h : Stage k E F vars l) : Ends write l fun _ _ => True := by
  have hok : (l.c.write l.declared).1 = .ok () := by
    unfold C.Program.write
    have hnone := untilDefect_of_ok _ h.lines_ok
    revert hnone
    cases C.Program.untilDefect (l.c.lines l.declared) with
    | mk lines defect =>
      rintro rfl
      rfl
  unfold write
  exact .bindGet ⟨(), _, runs_bind.2 ⟨(), _, runs_note.2 rfl, runs_bind.2 ⟨(), _,
    runs_buildOrFail.2 ⟨hok, rfl⟩, runs_bind.2 ⟨_, _, rfl, runs_note.2 rfl⟩⟩⟩, trivial⟩

/-- Lowering a checked program that has all that lowering requires does not stop at a fault. -/
theorem Lowerable.ends (h : Lowerable k E p) (target : String) :
    Ends (do enterPrimitives k; program k p) (.empty target) fun _ _ => True := by
  refine (ends_enterPrimitives h target).bind fun _ l hl => ?_
  have hl := hl.note (.lowering p.items.length)
  obtain ⟨u, l', hr, _⟩ := (ends_structs h hl).bind fun _ l₁ h₁ => (ends_values h h₁).bind
    fun _ l₂ h₂ => (ends_signatures h h₂).bind fun _ l₃ h₃ => (ends_bodies h h₃).bind
    fun _ l₄ h₄ => ends_write h₄
  exact ⟨u, l', runs_bind.2 ⟨(), _, runs_note.2 rfl, hr⟩, trivial⟩

end Lower

end MiddleEnd
