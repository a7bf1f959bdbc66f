/-
  Lowering a body never stops at a fault, where its types are stored or unit, its names are in scope
  and its literals can be read (`works`). Every step of lowering requires something: a function that
  is being filled and an open block, a C type for a type, a variable or constant for a name, a C
  function for a callee. `Open` says that all of it is there, and no step takes any of it away
  (`Stays`).

  A `let` whose type is unit or not known makes no variable; so names must not stand for such a
  declaration (`Held`).
-/
import MiddleEnd.Proofs.Lower.Emitted
import MiddleEnd.Proofs.Lower.Fields
import MiddleEnd.Proofs.Syntax.Scoped
import MiddleEnd.Proofs.Ty.Stored

namespace MiddleEnd.Lower

variable {α β : Type} {k : Checked} {E F : IrId → Prop} {l l₁ l' : Lowering}

/-! ## Runs that work -/

/-- What steps between two states leave as it was. Declarations may get variables and functions
may get names. -/
structure Stays (l l' : Lowering) : Prop where
  types : l'.types = l.types
  functions : l'.functions = l.functions
  constants : l'.constants = l.constants
  active : l'.active = l.active
  depth : l'.blocks.length = l.blocks.length
  declared : l'.declared = l.declared
  vars : ∀ id : IrId, (l.vars[id]?).isSome = true → (l'.vars[id]?).isSome = true
  named : l'.c.constants = l.c.constants
  size : l'.c.functions.size = l.c.functions.size
  made : ∀ (i : Nat) x, l.c.vars[i]? = some x → l'.c.vars[i]? = some x

theorem Stays.refl (l : Lowering) : Stays l l :=
  ⟨rfl, rfl, rfl, rfl, rfl, rfl, fun _ h => h, rfl, rfl, fun _ _ h => h⟩

theorem Stays.trans (h : Stays l l₁) (h' : Stays l₁ l') : Stays l l' where
  types := h'.types.trans h.types
  functions := h'.functions.trans h.functions
  constants := h'.constants.trans h.constants
  active := h'.active.trans h.active
  depth := h'.depth.trans h.depth
  declared := h'.declared.trans h.declared
  vars id hid := h'.vars id (h.vars id hid)
  named := h'.named.trans h.named
  size := h'.size.trans h.size
  made i x hx := h'.made i x (h.made i x hx)

/-- The step ends without a fault and leaves everything where it was, and `P` holds afterwards. -/
def Leaves (m : Lower α) (l : Lowering) (P : α → Lowering → Prop) : Prop :=
  ∃ a l', Runs m l a l' ∧ Stays l l' ∧ P a l'

/-- The step ends without a fault and leaves everything where it was. -/
abbrev Does (m : Lower α) (l : Lowering) : Prop := Leaves m l fun _ _ => True

section

variable {m : Lower α} {f : α → Lower β} {P : α → Lowering → Prop} {Q : β → Lowering → Prop}

theorem Leaves.bind (h : Leaves m l P)
    (hf : ∀ a l', Stays l l' → P a l' → Leaves (f a) l' Q) : Leaves (m >>= f) l Q := by
  obtain ⟨a, l₁, hr, hs, hp⟩ := h
  obtain ⟨b, l', hr', hs', hq⟩ := hf a l₁ hs hp
  exact ⟨b, l', runs_bind.2 ⟨a, l₁, hr, hr'⟩, hs.trans hs', hq⟩

theorem leaves_pure {a : α} (h : P a l) : Leaves (pure a) l P :=
  ⟨a, l, runs_pure.2 ⟨rfl, rfl⟩, .refl l, h⟩

theorem does_pure (a : α) : Does (pure a) l := leaves_pure trivial

/-- What is required is there. -/
theorem Leaves.bindRequire {d : Defect} {o : Option α} {a : α} (h : o = some a)
    (hf : Leaves (f a) l Q) : Leaves (require d o >>= f) l Q := by
  rw [h]
  exact hf

theorem Leaves.bindTypeOf {f : Ty → Lower β} {id : IrId} {t : Ty} (h : k.types.get? id = some t)
    (hf : Leaves (f t) l Q) : Leaves (typeOf k id >>= f) l Q :=
  .bindRequire h hf

theorem Leaves.bindGet {f : Lowering → Lower β} (hf : Leaves (f l) l Q) :
    Leaves (get >>= f) l Q :=
  hf

theorem Leaves.bindLook {g : C.Program → α} (hf : Leaves (f (g l.c)) l Q) :
    Leaves (look g >>= f) l Q :=
  hf

theorem does_require {d : Defect} {o : Option α} (h : o.isSome = true) : Does (require d o) l := by
  obtain ⟨a, rfl⟩ := Option.isSome_iff_exists.1 h
  exact does_pure a

end

/-! ## What lowering requires -/

/-- The node has a type for which a declaration gets a variable. -/
def Held (k : Checked) (id : IrId) : Prop :=
  ∃ t, k.types.get? id = some t ∧ t.isUnit = false ∧ t.isInfer = false

/-- A function is being filled, a block is open, and there is something for all types in `E`, all
functions in `F` and all variables. -/
structure Open (k : Checked) (E F : IrId → Prop) (vars : List IrId) (l : Lowering) : Prop where
  active : l.active ≠ []
  blocks : l.blocks ≠ []
  types : ∀ r, E r → (l.types[r]?).isSome = true
  functions : ∀ id, F id → (l.functions[id]?).isSome = true
  vars : ∀ id ∈ vars, Held k id →
    (l.vars[id]?).isSome = true ∨ (l.constants[id]?).isSome = true

namespace Open

variable {vars : List IrId}

theorem blocks_of_length (h : l.blocks ≠ []) (hd : l'.blocks.length = l.blocks.length) :
    l'.blocks ≠ [] := by
  rw [← List.length_pos_iff] at h ⊢
  omega

theorem stays (h : Open k E F vars l) (hs : Stays l l') : Open k E F vars l' where
  active := by rw [hs.active]; exact h.active
  blocks := blocks_of_length h.blocks hs.depth
  types r hr := by rw [hs.types]; exact h.types r hr
  functions id hid := by rw [hs.functions]; exact h.functions id hid
  vars id hid hh := by
    rw [hs.constants]
    exact (h.vars id hid hh).imp_left (hs.vars id)

/-- More variables are visible. -/
theorem more (h : Open k E F vars l) {new : List IrId}
    (hn : ∀ id ∈ new, Held k id → (l.vars[id]?).isSome = true) : Open k E F (new ++ vars) l where
  active := h.active
  blocks := h.blocks
  types := h.types
  functions := h.functions
  vars id hid hh := by
    rcases List.mem_append.1 hid with hid | hid
    · exact .inl (hn id hid hh)
    · exact h.vars id hid hh

/-- A `let` that got its variable is visible. -/
theorem bind (h : Open k E F vars l) {id : IrId} (hid : (l.vars[id]?).isSome = true) :
    Open k E F ([id] ++ vars) l :=
  h.more fun other ho _ => by
    rw [List.mem_singleton.1 ho]
    exact hid

/-- A `let` that makes no variable is not to be named. -/
theorem bindNothing (h : Open k E F vars l) {id : IrId} {t : Ty} (ht : k.types.get? id = some t)
    (hn : (t.isUnit || t.isInfer) = true) : Open k E F ([id] ++ vars) l :=
  h.more fun other ho hh => by
    obtain ⟨t', ht', hu, hi⟩ := hh
    rw [List.mem_singleton.1 ho] at ht'
    cases ht.symm.trans ht'
    rw [hu, hi] at hn
    cases hn

end Open

/-! ## Types and variables -/

theorem stays_arrayType (l : Lowering) (element : C.Ty) (length : C.Expr) :
    Stays l { l with c := (l.c.arrayType element length).2 } := by
  unfold C.Program.arrayType
  dsimp only
  split
  · exact .refl l
  · exact ⟨rfl, rfl, rfl, rfl, rfl, rfl, fun _ h => h, rfl, rfl, fun _ _ h => h⟩

theorem does_entered {t : Ty} (h : (l.types[t.ref]?).isSome = true) : Does (entered t) l := by
  obtain ⟨ct, hct⟩ := Option.isSome_iff_exists.1 h
  have hr : Runs (require (.neverCompiled t) l.types[t.ref]?) l ct l := runs_require.2 ⟨hct, rfl⟩
  exact ⟨ct, l, hr, .refl l, trivial⟩

/-- A stored type has a C type. -/
theorem does_type : ∀ {t : Ty} {l : Lowering}, t.Stored E →
    (∀ r, E r → (l.types[r]?).isSome = true) → Does (type t) l
  | .bool r, _, h, hl => does_entered (hl r h)
  | .int r _, _, h, hl => does_entered (hl r h)
  | .uint r _, _, h, hl => does_entered (hl r h)
  | .float r _, _, h, hl => does_entered (hl r h)
  | .struct r _ _, _, h, hl => does_entered (hl r h)
  | .array _ element capacity, _, h, hl =>
    (does_type (t := element) h hl).bind fun e l' _ _ =>
      ⟨_, _, runs_build.2 ⟨rfl, rfl⟩, stays_arrayType l' e (arrayLength capacity), trivial⟩

theorem does_addStmt {s : C.Stmt} (h : l.blocks ≠ []) : Does (addStmt s) l := by
  obtain ⟨o, rest, hb⟩ := List.exists_cons_of_ne_nil h
  refine ⟨(), _, runs_addStmt.2 ⟨o, rest, hb, rfl⟩, ?_, trivial⟩
  exact ⟨rfl, rfl, rfl, rfl, by rw [hb]; rfl, rfl, fun _ h => h, rfl, rfl, fun _ _ h => h⟩

theorem does_activation (h : l.active ≠ []) : Does activation l := by
  obtain ⟨a, rest, ha⟩ := List.exists_cons_of_ne_nil h
  exact ⟨a, l, runs_activation.2 ⟨by rw [ha]; rfl, rfl⟩, .refl l, trivial⟩

theorem does_discard {m : Lower α} (h : Does m l) : Does (discard m) l := by
  obtain ⟨a, l', hr, hs, _⟩ := h
  exact ⟨PUnit.unit, l', runs_discard.2 ⟨a, hr⟩, hs, trivial⟩

theorem does_newLocal (f : C.FunctionId) (name : String) (ct : C.Ty) :
    Does (build (·.newLocal f name ct)) l := by
  refine ⟨_, _, runs_build.2 ⟨rfl, rfl⟩, ?_, trivial⟩
  refine ⟨rfl, rfl, rfl, rfl, rfl, rfl, fun _ h => h, rfl, Array.size_modify .., ?_⟩
  intro i x hx
  have hlt : i < l.c.vars.size := (Array.getElem?_eq_some_iff.1 hx).1
  show (l.c.vars.push _)[i]? = some x
  rw [Array.getElem?_push, if_neg (Nat.ne_of_lt hlt)]
  exact hx

theorem leaves_setVariable (id : IrId) (v : C.VarId) :
    Leaves (setVariable id v) l fun _ l' => (l'.vars[id]?).isSome = true := by
  refine ⟨(), _, runs_modify.2 rfl, ?_, ?_⟩
  · refine ⟨rfl, rfl, rfl, rfl, rfl, rfl, ?_, rfl, rfl, fun _ _ h => h⟩
    intro other hother
    show ((l.vars.insert id v)[other]?).isSome = true
    rw [Std.TreeMap.getElem?_insert]
    split
    · rfl
    · exact hother
  · show ((l.vars.insert id v)[id]?).isSome = true
    rw [Std.TreeMap.getElem?_insert_self]
    rfl

theorem does_temporary {vars : List IrId} {t : Ty} (ht : t.Stored E) (h : Open k E F vars l) :
    Does (temporary t) l :=
  (does_type ht h.types).bind fun ct _ h₁ _ =>
    (does_activation (h.stays h₁).active).bind fun a _ h₂ _ =>
    (does_newLocal a.function "__tmp" ct).bind fun v _ h₃ _ =>
    Leaves.bindLook ((does_addStmt (((h.stays h₁).stays h₂).stays h₃).blocks).bind fun _ _ _ _ =>
      does_pure v)

theorem does_temporary? {vars : List IrId} {t : Ty} (ht : t.isUnit = true ∨ t.Stored E)
    (h : Open k E F vars l) : Does (temporary? t) l := by
  unfold temporary?
  cases hu : t.isUnit with
  | true => exact does_pure none
  | false =>
    have hs : t.Stored E := ht.resolve_left (by rw [hu]; exact Bool.false_ne_true)
    exact (does_temporary hs h).bind fun v _ _ _ => does_pure (some v)

theorem does_store (v : C.VarId) (value : C.Expr) (h : l.blocks ≠ []) : Does (store v value) l :=
  Leaves.bindLook (does_addStmt h)

theorem does_storeIn (h : l.blocks ≠ []) :
    ∀ (target : Option C.VarId) (value : Option C.Expr), Does (storeIn target value) l
  | some v, some value => does_store v value h
  | some _, none => does_pure _
  | none, _ => does_pure _

theorem does_load : ∀ target : Option C.VarId, Does (load target) l
  | some v => does_pure (l.c.varExpr v)
  | none => does_pure C.Expr.unit

theorem leaves_declare (id : IrId) (name : String) (ct : C.Ty) (init : Option C.Expr)
    (ha : l.active ≠ []) (hb : l.blocks ≠ []) :
    Leaves (declare id name ct init) l fun _ l' => (l'.vars[id]?).isSome = true :=
  (does_activation ha).bind fun a _ h₁ _ =>
    (does_newLocal a.function name ct).bind fun v _ h₂ _ =>
    (leaves_setVariable id v).bind fun _ l₃ h₃ hid => Leaves.bindLook (by
      have hdepth := ((h₁.trans h₂).trans h₃).depth
      obtain ⟨u, l₄, hr, hs, _⟩ := does_addStmt (s := l₃.c.declareStmt v init)
        (Open.blocks_of_length hb hdepth)
      exact ⟨u, l₄, hr, hs, hs.vars id hid⟩)

/-- A new block, opened. -/
def opened (l : Lowering) : Lowering :=
  let l₀ : Lowering := { l with c := l.c.newBlock.2 }
  { l₀.note (.blockOpened (l₀.blocks.length + 1)) with
    blocks := ⟨⟨l.c.blocks.size⟩, []⟩ :: l₀.blocks }

theorem runs_opened (l : Lowering) {f : C.BlockId → Lower α} {a : α}
    (h : Runs (f ⟨l.c.blocks.size⟩) (opened l) a l') :
    Runs (do let b ← build (·.newBlock); pushBlock b; f b) l a l' :=
  runs_bind.2 ⟨⟨l.c.blocks.size⟩, { l with c := l.c.newBlock.2 }, runs_build.2 ⟨rfl, rfl⟩,
    runs_bind.2 ⟨(), opened l, runs_pushBlock.2 rfl, h⟩⟩

theorem Open.opened {vars : List IrId} (h : Open k E F vars l) : Open k E F vars (opened l) :=
  ⟨h.active, List.cons_ne_nil _ _, h.types, h.functions, h.vars⟩

/-- What was opened can be closed. -/
theorem closed (h : Stays (opened l) l₁) : ∃ b l', Runs popBlock l₁ b l' ∧ Stays l l' := by
  have hdepth : l₁.blocks.length = l.blocks.length + 1 := h.depth
  obtain ⟨o, rest, hb⟩ := List.exists_cons_of_length_eq_add_one hdepth
  have hlength : rest.length = l.blocks.length := by
    rw [hb] at hdepth
    exact Nat.succ.inj hdepth
  refine ⟨o.block, _, runs_popBlock.2 ⟨o, rest, hb, rfl, rfl⟩, ?_⟩
  exact ⟨h.types, h.functions, h.constants, h.active, hlength, h.declared, h.vars, h.named, h.size,
    h.made⟩

/-- A block of its own for a body that works in it. -/
theorem does_inBlock {vars : List IrId} (target : Option C.VarId) {body : Lower (Option C.Expr)}
    (h : Open k E F vars l) (hbody : ∀ {l'}, Open k E F vars l' → Does body l') :
    Does (inBlock target body) l := by
  refine (does_discard (does_activation h.active)).bind fun _ l₁ h₁ _ => ?_
  have hin := (h.stays h₁).opened
  obtain ⟨v, l₂, rbody, h₂, _⟩ := hbody hin
  obtain ⟨_, l₃, rstore, h₃, _⟩ := does_storeIn (hin.stays h₂).blocks target v
  obtain ⟨b, l', rpop, hl⟩ := closed (h₂.trans h₃)
  have hrest : Runs (do storeIn target (← body); popBlock) (opened l₁) b l' :=
    runs_bind.2 ⟨v, l₂, rbody, runs_bind.2 ⟨_, l₃, rstore, rpop⟩⟩
  exact ⟨b, l', runs_opened l₁ (f := fun _ => do storeIn target (← body); popBlock) hrest, hl,
    trivial⟩

/-! ## What bodies must be like -/

/-- The text of a literal of type `t` can be read. -/
def Readable (t : Ty) (lit : Literal) : Prop :=
  match lit.kind with
  | .bool => (bool? (plainSpelling lit.spelling)).isSome = true
  | .float => (Binary.binary64.ofText? (plainSpelling lit.spelling)).isSome = true
  | .int =>
    if isFloat t then (Binary.binary64.ofText? (plainSpelling lit.spelling)).isSome = true
    else (int? (plainSpelling lit.spelling)).isSome = true

/-- What lowering an expression requires of the expression itself. -/
def Supports (k : Checked) (E F : IrId → Prop) : Expr → Prop
  | .literal h lit => ∃ t, k.types.get? h.id.ir = some t ∧ t.Stored E ∧ Readable t lit
  | .identifier h name => ∀ id, Check.declaration k.scope (.identifier h name) = .ok id → Held k id
  | .call _ f _ => ∃ decl id, k.scope.bindings.name? f.surface = some decl ∧
    k.scope.registry.node? ⟨f.head.id.crate, decl⟩ = some id ∧ F id
  | .array h _ => ∃ t, k.types.get? h.id.ir = some t ∧ t.Stored E
  | .copies h _ _ => ∃ t, k.types.get? h.id.ir = some t ∧ t.Stored E
  | .struct h _ fields => ∃ r name decls, k.types.get? h.id.ir = some (.struct r name decls) ∧
    E r ∧ decls.names.Nodup ∧ ∀ n ∈ decls.names, n ∈ fields.map FieldInit.name
  | _ => True

/-- All parts can be lowered, as far as each is concerned. -/
structure Supported (k : Checked) (E F : IrId → Prop) (parts : List Part) : Prop where
  typed : ∀ e, .expr e ∈ parts →
    ∃ t, k.types.get? e.ir = some t ∧ (t.isUnit = true ∨ t.Stored E)
  exprs : ∀ e, .expr e ∈ parts → Supports k E F e
  binds : ∀ h q, .bind h q ∈ parts →
    ∃ t, k.types.get? h.id.ir = some t ∧ ((t.isUnit || t.isInfer) = true ∨ t.Stored E)

namespace Supported

variable {p : Part} {parts parts' : List Part}

theorem mono (h : Supported k E F parts) (hp : ∀ p ∈ parts', p ∈ parts) :
    Supported k E F parts' where
  typed e he := h.typed e (hp _ he)
  exprs e he := h.exprs e (hp _ he)
  binds g q hm := h.binds g q (hp _ hm)

theorem tail (h : Supported k E F (p :: parts)) : Supported k E F parts :=
  h.mono fun _ hm => List.mem_cons_of_mem _ hm

theorem left (h : Supported k E F (parts ++ parts')) : Supported k E F parts :=
  h.mono fun _ hm => List.mem_append_left _ hm

theorem right (h : Supported k E F (parts ++ parts')) : Supported k E F parts' :=
  h.mono fun _ hm => List.mem_append_right _ hm

end Supported

/-! ## Names, literals and fields -/

variable {vars : List IrId}

theorem does_declaration {e : Expr} {id : IrId} (h : Check.declaration k.scope e = .ok id) :
    Leaves (declaration k e) l fun a _ => a = id := by
  unfold Check.declaration at h
  split at h
  · cases h
  · rename_i decl hdecl
    split at h
    · cases h
    · rename_i d hd
      split at h
      · cases h
      · rename_i id' hid
        cases h
        exact .bindRequire hdecl (.bindRequire hd (by
          rw [hid]
          exact leaves_pure rfl))

theorem does_identifier {h : Head} {name : String} (ho : Open k E F vars l)
    (hs : k.scope.sees vars (.identifier h name) = true)
    (hheld : Supports k E F (.identifier h name)) :
    Does (identifier k (.identifier h name) name) l := by
  obtain ⟨id, hd, hid⟩ := Scope.sees_iff.1 hs
  refine (does_declaration hd).bind fun a l' hl ha => ?_
  subst ha
  have hfound := (ho.stays hl).vars a hid (hheld a hd)
  refine .bindGet ?_
  cases hv : l'.vars[a]? with
  | some v => exact does_pure _
  | none => exact does_require (hfound.resolve_left (by rw [hv]; exact Bool.false_ne_true))

theorem does_literal {id : IrId} {lit : Literal} {t : Ty}
    (hl : ∀ r, E r → (l.types[r]?).isSome = true) (ht : k.types.get? id = some t)
    (hs : t.Stored E) (hr : Readable t lit) : Does (literal k id lit) l := by
  refine .bindTypeOf ht ?_
  have hfloat : (Binary.binary64.ofText? (plainSpelling lit.spelling)).isSome = true →
      Does (literal.float lit t (plainSpelling lit.spelling)) l := by
    intro hv
    obtain ⟨v, hv⟩ := Option.isSome_iff_exists.1 hv
    exact .bindRequire hv ((does_type hs hl).bind fun ct _ _ _ => does_pure _)
  unfold Readable at hr
  cases hk : lit.kind with
  | bool =>
    rw [hk] at hr
    obtain ⟨b, hb⟩ := Option.isSome_iff_exists.1 hr
    exact .bindRequire hb (does_pure _)
  | float =>
    rw [hk] at hr
    exact hfloat hr
  | int =>
    rw [hk] at hr
    cases hf : isFloat t with
    | true =>
      rw [hf] at hr
      exact hfloat hr
    | false =>
      rw [hf] at hr
      obtain ⟨n, hn⟩ := Option.isSome_iff_exists.1 hr
      exact .bindRequire hn ((does_type hs hl).bind fun ct _ _ _ => does_pure _)

theorem does_callee {f : Expr} {h : Head} {args : List Expr} (ho : Open k E F vars l)
    (hs : Supports k E F (.call h f args)) : Does (callee k f) l := by
  obtain ⟨decl, id, hd, hid, hF⟩ := hs
  exact .bindRequire hd (.bindRequire hid (does_require (ho.functions id hF)))

/-- Different names that all have values are put into the order of the declaration. -/
theorem does_inDeclaredOrder {struct : String} : ∀ {names : List String}
    {given : List (String × C.Expr)}, names.Nodup → (∀ n ∈ names, n ∈ given.map (·.1)) →
      Does (inDeclaredOrder struct given names) l
  | [], _, _, _ => does_pure []
  | name :: rest, given, hn, hg => by
    obtain ⟨hname, hrest⟩ := List.nodup_cons.1 hn
    obtain ⟨v, hv⟩ : ∃ v, given.lookup name = some v := by
      rw [← Option.ne_none_iff_exists']
      intro hnone
      obtain ⟨p, hp, he⟩ := List.mem_map.1 (hg name (List.mem_cons_self ..))
      exact bne_iff_ne.1 (List.lookup_eq_none_iff.1 hnone p hp) he.symm
    refine .bindRequire hv ((does_inDeclaredOrder hrest ?_).bind fun vs _ _ _ => does_pure _)
    intro n hm
    have hne : n ≠ name := fun he => hname (he ▸ hm)
    exact (mem_map_filter hne).2 (hg n (List.mem_cons_of_mem _ hm))

theorem does_effect {e : Expr} {value : Lower C.Expr} (hv : Does value l)
    (hb : l.blocks ≠ []) : Does (effect e value) l := by
  refine hv.bind fun v l' hl _ => ?_
  cases addsItself e with
  | true => exact does_pure _
  | false => exact does_addStmt (Open.blocks_of_length hb hl.depth)

theorem does_hasValue {e : Expr} {t : Ty} (ht : k.types.get? e.ir = some t) :
    Does (hasValue k e) l := by
  have hof : Does (do return !(← typeOf k e.ir).isUnit : Lower Bool) l :=
    .bindTypeOf ht (does_pure _)
  cases e with
  | ret g value => exact does_pure false
  | _ => exact hof

theorem does_keep {t : Ty} (value : C.Expr) (ht : t.isUnit = true ∨ t.Stored E)
    (h : Open k E F vars l) : Does (keep t value) l := by
  refine (does_temporary? ht h).bind fun target l' hl _ => ?_
  cases target with
  | none => exact does_pure value
  | some v =>
    exact (does_store v value (h.stays hl).blocks).bind fun _ l' _ _ => does_pure (l'.c.varExpr v)

/-! ## Expressions and statements -/

/-- The expression can be lowered, by itself and as a branch. -/
structure Works (k : Checked) (E F : IrId → Prop) (vars : List IrId) (e : Expr) : Prop where
  expr : ∀ {l}, Open k E F vars l → Does (expr k e) l
  branch : ∀ {l}, Open k E F vars l → Does (branch k e) l

theorem works_of_expr {e : Expr} (hb : ∀ g ss tail, e ≠ .block g ss tail)
    (he : ∀ {l}, Open k E F vars l → Does (expr k e) l) : Works k E F vars e := by
  refine ⟨he, ?_⟩
  intro l ho
  have hdoes : Does (effectOnly e (expr k e)) l :=
    (does_effect (he ho) ho.blocks).bind fun _ _ _ _ => does_pure none
  cases e with
  | block g ss tail => exact absurd rfl (hb g ss tail)
  | _ => exact hdoes

theorem does_tail {e : Expr} (hw : Works k E F vars e) {t : Ty} (ht : k.types.get? e.ir = some t)
    (ho : Open k E F vars l) : Does (tailValue k (some e)) l := by
  refine (does_hasValue ht).bind fun b l' hl _ => ?_
  cases b with
  | true => exact (hw.expr (ho.stays hl)).bind fun v _ _ _ => does_pure (some v)
  | false =>
    exact (does_effect (hw.expr (ho.stays hl)) (ho.stays hl).blocks).bind fun _ _ _ _ =>
      does_pure none

/-- A block whose contents work. -/
theorem works_block {h : Head} {ss : List Stmt} {tail : Option Expr} {t : Ty}
    (ht : k.types.get? h.id.ir = some t) (hu : t.isUnit = true ∨ t.Stored E)
    (hb : ∀ {l}, Open k E F vars l → Does (branch k (.block h ss tail)) l) :
    Works k E F vars (.block h ss tail) := by
  refine ⟨fun ho => ?_, hb⟩
  rw [expr_block]
  exact .bindTypeOf ht ((does_temporary? hu ho).bind fun target _ h₁ _ =>
    (does_inBlock target (ho.stays h₁) hb).bind fun b _ h₂ _ =>
    (does_addStmt ((ho.stays h₁).stays h₂).blocks).bind fun _ _ _ _ => does_load target)

mutual

theorem works : ∀ {e : Expr} {vars : List IrId}, Supported k E F e.parts →
    e.scoped k.scope vars = true → Works k E F vars e
  | .literal h lit, _, hs, _ => works_of_expr (by simp) fun ho => by
    obtain ⟨t, ht, hstored, hr⟩ := hs.exprs _ (List.mem_singleton_self _)
    exact does_literal ho.types ht hstored hr
  | .identifier h name, _, hs, hv => works_of_expr (by simp) fun ho =>
    does_identifier ho hv (hs.exprs _ (List.mem_singleton_self _))
  | .ret _ none, _, _, _ => works_of_expr (by simp) fun ho =>
    (does_discard (does_activation ho.active)).bind fun _ _ hl _ =>
      (does_addStmt (ho.stays hl).blocks).bind fun _ _ _ _ => does_pure C.Expr.unit
  | .ret _ (some value), _, hs, hv => works_of_expr (by simp) fun ho =>
    ((works (e := value) hs.tail hv).expr ho).bind fun v _ h₁ _ =>
      (does_discard (does_activation (ho.stays h₁).active)).bind fun _ _ h₂ _ =>
      (does_addStmt ((ho.stays h₁).stays h₂).blocks).bind fun _ _ _ _ => does_pure C.Expr.unit
  | .call h f args, _, hs, hv => works_of_expr (by simp) fun ho =>
    (does_callee ho (hs.exprs _ (List.mem_cons_self ..))).bind fun g _ h₁ _ =>
      (works_exprs args hs.tail.tail hv (ho.stays h₁)).bind fun vs _ _ _ => does_pure _
  | .assign _ target value, _, hs, hv => by
    obtain ⟨hvt, hvv⟩ := Bool.and_eq_true _ _ ▸ hv
    exact works_of_expr (by simp) fun ho =>
      ((works (e := target) hs.tail.left hvt).expr ho).bind fun t _ h₁ _ =>
      ((works (e := value) hs.tail.right hvv).expr (ho.stays h₁)).bind fun v _ h₂ _ =>
      (does_addStmt ((ho.stays h₁).stays h₂).blocks).bind fun _ _ _ _ => does_pure t
  | .binary _ op lhs rhs, _, hs, hv => by
    obtain ⟨hvl, hvr⟩ := Bool.and_eq_true _ _ ▸ hv
    exact works_of_expr (by simp) fun ho =>
      ((works (e := lhs) hs.tail.left hvl).expr ho).bind fun l _ h₁ _ =>
      ((works (e := rhs) hs.tail.right hvr).expr (ho.stays h₁)).bind fun r _ _ _ => does_pure _
  | .ifOnly g condition body, _, hs, hv => by
    obtain ⟨hvc, hvb⟩ := Bool.and_eq_true _ _ ▸ hv
    refine works_of_expr (by simp) fun ho => ?_
    rw [expr_ifOnly]
    exact ((works (e := condition) hs.tail.left hvc).expr ho).bind fun c _ h₁ _ =>
      (does_inBlock none (ho.stays h₁)
        (works (e := body) hs.tail.right hvb).branch).bind fun b _ h₂ _ =>
      (does_addStmt ((ho.stays h₁).stays h₂).blocks).bind fun _ _ _ _ => does_pure C.Expr.unit
  | .ifElse g condition thenBody elseBody, _, hs, hv => by
    obtain ⟨hvc, hvb⟩ := Bool.and_eq_true _ _ ▸ hv
    obtain ⟨hvt, hve⟩ := Bool.and_eq_true _ _ ▸ hvb
    obtain ⟨t, ht, hu⟩ := hs.typed _ (List.mem_cons_self ..)
    refine works_of_expr (by simp) fun ho => ?_
    rw [expr_ifElse]
    exact .bindTypeOf ht (((works (e := condition) hs.tail.left hvc).expr ho).bind fun c _ h₁ _ =>
      (does_temporary? hu (ho.stays h₁)).bind fun target _ h₂ _ =>
      (does_inBlock target ((ho.stays h₁).stays h₂)
        (works (e := thenBody) hs.tail.right.left hvt).branch).bind fun b _ h₃ _ =>
      (does_inBlock target (((ho.stays h₁).stays h₂).stays h₃)
        (works (e := elseBody) hs.tail.right.right hve).branch).bind fun d _ h₄ _ =>
      (does_addStmt ((((ho.stays h₁).stays h₂).stays h₃).stays h₄).blocks).bind fun _ _ _ _ =>
      does_load target)
  | .ifElseIf g condition thenBody elseIf, _, hs, hv => by
    obtain ⟨hvc, hvb⟩ := Bool.and_eq_true _ _ ▸ hv
    obtain ⟨hvt, hve⟩ := Bool.and_eq_true _ _ ▸ hvb
    refine works_of_expr (by simp) fun ho => ?_
    rw [expr_ifElseIf]
    exact ((works (e := condition) hs.tail.left hvc).expr ho).bind fun c _ h₁ _ =>
      (does_inBlock none (ho.stays h₁)
        (works (e := thenBody) hs.tail.right.left hvt).branch).bind fun b _ h₂ _ =>
      (does_inBlock none ((ho.stays h₁).stays h₂)
        (works (e := elseIf) hs.tail.right.right hve).branch).bind fun d _ h₃ _ =>
      (does_addStmt (((ho.stays h₁).stays h₂).stays h₃).blocks).bind fun _ _ _ _ =>
      does_pure C.Expr.unit
  | .block g ss none, _, hs, hv => by
    obtain ⟨t, ht, hu⟩ := hs.typed _ (List.mem_cons_self ..)
    exact works_block ht hu fun ho =>
      (works_stmts ss hs.tail hv ho).bind fun _ _ _ _ => does_pure none
  | .block g ss (some e), _, hs, hv => by
    obtain ⟨hvs, hve⟩ := Bool.and_eq_true _ _ ▸ hv
    obtain ⟨t, ht, hu⟩ := hs.typed _ (List.mem_cons_self ..)
    obtain ⟨te, hte, _⟩ := hs.typed e (List.mem_cons_of_mem _
      (List.mem_append_right _ e.self_mem_parts))
    exact works_block ht hu fun ho =>
      (works_stmts ss hs.tail.left hvs ho).bind fun _ _ _ hin =>
        does_tail (works (e := e) hs.tail.right hve) hte hin
  | .index _ base position, _, hs, hv => by
    obtain ⟨hvb, hvp⟩ := Bool.and_eq_true _ _ ▸ hv
    exact works_of_expr (by simp) fun ho =>
      ((works (e := base) hs.tail.left hvb).expr ho).bind fun b _ h₁ _ =>
      ((works (e := position) hs.tail.right hvp).expr (ho.stays h₁)).bind fun p _ _ _ =>
      does_pure _
  | .array h values, _, hs, hv => works_of_expr (by simp) fun ho => by
    obtain ⟨t, ht, hstored⟩ := hs.exprs _ (List.mem_cons_self ..)
    exact .bindTypeOf ht ((does_type hstored ho.types).bind fun ct _ h₁ _ =>
      (works_exprs values hs.tail hv (ho.stays h₁)).bind fun vs _ _ _ => does_pure _)
  | .copies h element count, _, hs, hv => works_of_expr (by simp) fun ho => by
    obtain ⟨t, ht, hstored⟩ := hs.exprs _ (List.mem_cons_self ..)
    exact .bindTypeOf ht ((does_type hstored ho.types).bind fun ct _ h₁ _ =>
      ((works (e := element) hs.tail hv).expr (ho.stays h₁)).bind fun v _ _ _ => does_pure _)
  | .struct h path fields, _, hs, hv => works_of_expr (by simp) fun ho => by
    obtain ⟨r, name, decls, ht, hr, hn, hall⟩ := hs.exprs _ (List.mem_cons_self ..)
    have hstored : (Ty.struct r name decls).Stored E := hr
    refine .bindTypeOf ht ((does_type hstored ho.types).bind fun ct _ h₁ _ =>
      (works_fields fields _ hs.tail.tail hv (ho.stays h₁)).bind fun given _ _ hg =>
      (does_inDeclaredOrder hn fun n hm => ?_).bind fun vs _ _ _ => does_pure _)
    rw [List.map_reverse, List.mem_reverse, hg]
    exact hall n hm

theorem works_exprs : ∀ (es : List Expr) {vars : List IrId} {l : Lowering},
    Supported k E F (Expr.partsAll es) → Expr.scopedAll k.scope vars es = true →
    Open k E F vars l → Does (exprs k es) l
  | [], _, _, _, _, _ => does_pure []
  | e :: rest, _, _, hs, hv, ho => by
    obtain ⟨hve, hvr⟩ := Bool.and_eq_true _ _ ▸ hv
    exact ((works (e := e) hs.left hve).expr ho).bind fun v _ h₁ _ =>
      (works_exprs rest hs.right hvr (ho.stays h₁)).bind fun vs _ _ _ => does_pure _

theorem works_fields : ∀ (fs : List FieldInit) {vars : List IrId} {l : Lowering} (inOrder : Bool),
    Supported k E F (FieldInit.partsAll fs) → FieldInit.scopedAll k.scope vars fs = true →
    Open k E F vars l → Leaves (fieldInits k inOrder fs) l
      fun given _ => given.map (·.1) = fs.map FieldInit.name
  | [], _, _, _, _, _, _ => leaves_pure rfl
  | .mk g name value :: rest, _, _, inOrder, hs, hv, ho => by
    obtain ⟨hvv, hvr⟩ := Bool.and_eq_true _ _ ▸ hv
    obtain ⟨t, ht, hu⟩ := hs.typed value (List.mem_cons_of_mem _
      (List.mem_append_left _ value.self_mem_parts))
    refine ((works (e := value) hs.tail.left hvv).expr ho).bind fun v _ h₁ _ => ?_
    cases inOrder || isInert value with
    | true =>
      exact (works_fields rest inOrder hs.tail.right hvr (ho.stays h₁)).bind
        fun ws _ _ hw => leaves_pure (congrArg (name :: ·) hw)
    | false =>
      exact .bindTypeOf ht ((does_keep v hu (ho.stays h₁)).bind fun w _ h₂ _ =>
        (works_fields rest inOrder hs.tail.right hvr ((ho.stays h₁).stays h₂)).bind
          fun ws _ _ hw => leaves_pure (congrArg (name :: ·) hw))

theorem works_stmt : ∀ (st : Stmt) {vars : List IrId} {l : Lowering},
    Supported k E F st.parts → st.scoped k.scope vars = true → Open k E F vars l →
    Leaves (stmt k st) l fun _ l' => Open k E F (st.introduced ++ vars) l'
  | .expr e, _, _, hs, hv, ho => by
    obtain ⟨u, l', hr, hl, _⟩ := does_effect (e := e) ((works (e := e) hs hv).expr ho) ho.blocks
    exact ⟨u, l', hr, hl, ho.stays hl⟩
  | .bind h pattern ascribed none, vars, l, hs, _, ho => by
    obtain ⟨t, ht, hu⟩ := hs.binds h pattern (List.mem_cons_self ..)
    refine .bindTypeOf ht ?_
    cases hn : t.isUnit || t.isInfer with
    | true => exact leaves_pure (ho.bindNothing ht hn)
    | false =>
      have hstored := hu.resolve_left (by rw [hn]; exact Bool.false_ne_true)
      exact (does_type hstored ho.types).bind fun ct _ h₁ _ => by
        obtain ⟨u, l', hr, hl, hid⟩ := leaves_declare h.id.ir pattern.name ct none
          (ho.stays h₁).active (ho.stays h₁).blocks
        exact ⟨u, l', hr, hl, ((ho.stays h₁).stays hl).bind hid⟩
  | .bind h pattern ascribed (some init), vars, l, hs, hv, ho => by
    obtain ⟨t, ht, hu⟩ := hs.binds h pattern (List.mem_cons_self ..)
    have hinit := works (e := init) hs.tail.right hv
    refine .bindTypeOf ht ?_
    cases hn : t.isUnit || t.isInfer with
    | true =>
      obtain ⟨u, l', hr, hl, _⟩ := does_effect (e := init) (hinit.expr ho) ho.blocks
      exact ⟨u, l', hr, hl, (ho.stays hl).bindNothing ht hn⟩
    | false =>
      have hstored := hu.resolve_left (by rw [hn]; exact Bool.false_ne_true)
      exact (does_type hstored ho.types).bind fun ct _ h₁ _ =>
        (hinit.expr (ho.stays h₁)).bind fun v _ h₂ _ => by
          have hopen := (ho.stays h₁).stays h₂
          obtain ⟨u, l', hr, hl, hid⟩ := leaves_declare h.id.ir pattern.name ct (some v)
            hopen.active hopen.blocks
          exact ⟨u, l', hr, hl, (hopen.stays hl).bind hid⟩

theorem works_stmts : ∀ (sts : List Stmt) {vars : List IrId} {l : Lowering},
    Supported k E F (Stmt.partsAll sts) → Stmt.scopedAll k.scope vars sts = true →
    Open k E F vars l →
    Leaves (stmts k sts) l fun _ l' => Open k E F (Stmt.introducedAll sts ++ vars) l'
  | [], _, _, _, _, ho => leaves_pure ho
  | st :: rest, _, _, hs, hv, ho => by
    obtain ⟨hvs, hvr⟩ := Bool.and_eq_true _ _ ▸ hv
    rw [Stmt.introducedAll, List.append_assoc]
    exact (works_stmt st hs.left hvs ho).bind fun _ _ _ hin =>
      works_stmts rest hs.right hvr hin

end

end MiddleEnd.Lower
