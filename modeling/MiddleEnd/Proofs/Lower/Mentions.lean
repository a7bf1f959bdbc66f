/-
  Mentions. Whatever lowering mentions is there when it is mentioned: a type is defined, a constant
  or variable of the whole program is declared, a function has its entry, and a variable stands
  under its own name (`Present`). This holds of everything that a state mentions, in statements, in
  initial values and in its tables (`Grounded`), and nothing that is there goes away (`Ahead`).

  Expressions are made first and put into statements later. So what a step gives is carried along as
  a list of mentions, each of which still holds later (`Writes.bind`).
-/
import MiddleEnd.Proofs.C.Definitions
import MiddleEnd.Proofs.C.Variables
import MiddleEnd.Proofs.Lower.Fields
import MiddleEnd.Proofs.Lower.Whole

namespace MiddleEnd

namespace C

mutual

/-- An expression mentions the variables that it reads. -/
theorem Expr.mention_of_use {u : VarId × String} : ∀ {e : Expr}, u ∈ e.uses →
    .var u.1 u.2 ∈ e.mentions
  | .var v name, h => by
    rw [List.mem_singleton.1 h]
    exact List.mem_singleton_self _
  | .binary _ lhs rhs, h =>
    List.mem_append.2 ((List.mem_append.1 h).imp Expr.mention_of_use Expr.mention_of_use)
  | .index base position, h =>
    List.mem_append.2 ((List.mem_append.1 h).imp Expr.mention_of_use Expr.mention_of_use)
  | .call _ _ args, h => List.mem_cons_of_mem _ (Expr.mention_of_useAll h)
  | .array _ values, h => List.mem_cons_of_mem _ (Expr.mention_of_useAll h)
  | .struct _ values, h => List.mem_cons_of_mem _ (Expr.mention_of_useAll h)
  | .verbatim _, h | .int _ _, h | .float _ _, h | .bool _, h | .unit, h | .constant _, h =>
    absurd h List.not_mem_nil

theorem Expr.mention_of_useAll {u : VarId × String} : ∀ {es : List Expr}, u ∈ Expr.usesAll es →
    .var u.1 u.2 ∈ Expr.mentionsAll es
  | [], h => absurd h List.not_mem_nil
  | _ :: _, h =>
    List.mem_append.2 ((List.mem_append.1 h).imp Expr.mention_of_use Expr.mention_of_useAll)

end

end C

namespace Lower

variable {α β : Type} {k : Checked} {l l' : Lowering} {A : C.FunctionId → Prop}

/-! ## What is there -/

/-- What is mentioned is there. Only the functions `A` are to be mentioned. -/
def Present (A : C.FunctionId → Prop) (l : Lowering) : C.Mention → Prop
  | .type t => t.KnownIn l.c.typeDefs
  | .constant name => .constant name ∈ l.declared.constants
  | .var v name => ∃ x, l.c.vars[v.index]? = some x ∧ x.name = name ∧
    (x.global ≠ none → v ∈ l.declared.vars)
  | .slot v => ∃ x, l.c.vars[v.index]? = some x ∧ (x.global ≠ none → v ∈ l.declared.vars)
  | .function f name => A f ∧ ∃ x, l.c.functions[f.index]? = some x ∧ x.name = name
  | .foreign _ => False

/-- What is there in the first state is there in the second. -/
structure Ahead (l l' : Lowering) : Prop where
  typeDefs : l.c.typeDefs ⊆ l'.c.typeDefs
  constants : l.declared.constants ⊆ l'.declared.constants
  declaredVars : l.declared.vars ⊆ l'.declared.vars
  vars : l.c.VarsKept l'.c
  functions : ∀ (i : Nat) x, l.c.functions[i]? = some x →
    ∃ y, l'.c.functions[i]? = some y ∧ y.name = x.name ∧ y.result = x.result

theorem Ahead.of_eq (ht : l'.c.typeDefs = l.c.typeDefs)
    (hc : l'.declared.constants = l.declared.constants) (hd : l'.declared.vars = l.declared.vars)
    (hv : l'.c.vars = l.c.vars) (hf : l'.c.functions = l.c.functions) : Ahead l l' where
  typeDefs := ht ▸ List.Subset.refl _
  constants := hc ▸ List.Subset.refl _
  declaredVars := hd ▸ List.Subset.refl _
  vars := .of_eq hv
  functions _ x hx := ⟨x, hf ▸ hx, rfl, rfl⟩

theorem Ahead.getElem? (h : Ahead l l') {i : Nat} {x : C.Variable} (hx : l.c.vars[i]? = some x) :
    l'.c.vars[i]? = some x :=
  (h.vars i (Array.getElem?_eq_some_iff.1 hx).1).trans hx

theorem Present.later {m : C.Mention} (h : Present A l m) (ha : Ahead l l') : Present A l' m := by
  cases m with
  | type t => exact C.Ty.KnownIn.mono h ha.typeDefs
  | constant name => exact ha.constants h
  | var v name =>
    obtain ⟨x, hx, hname, hg⟩ := h
    exact ⟨x, ha.getElem? hx, hname, fun hn => ha.declaredVars (hg hn)⟩
  | slot v =>
    obtain ⟨x, hx, hg⟩ := h
    exact ⟨x, ha.getElem? hx, fun hn => ha.declaredVars (hg hn)⟩
  | function f name =>
    obtain ⟨hA, x, hx, hname⟩ := h
    obtain ⟨y, hy, hyname, _⟩ := ha.functions _ x hx
    exact ⟨hA, y, hy, hyname.trans hname⟩
  | foreign text => exact h

/-! ## What a state mentions -/

inductive Mentioned (l : Lowering) : C.Mention → Prop
  | block {b : C.BlockId} {s : C.Stmt} {m : C.Mention} :
    s ∈ l.c.statements b → m ∈ s.mentions → Mentioned l m
  | pending {o : OpenBlock} {s : C.Stmt} {m : C.Mention} :
    o ∈ l.blocks → s ∈ o.pending → m ∈ s.mentions → Mentioned l m
  | slot {id : IrId} {v : C.VarId} : l.vars[id]? = some v → Mentioned l (.slot v)
  | named {id : IrId} {e : C.Expr} {m : C.Mention} :
    l.constants[id]? = some e → m ∈ e.mentions → Mentioned l m
  | entered {id : IrId} {t : C.Ty} : l.types[id]? = some t → Mentioned l (.type t)
  | typed {i : Nat} {x : C.Variable} : l.c.vars[i]? = some x → Mentioned l (.type x.type)
  | initial {i : Nat} {x : C.Variable} {g : C.Global} {m : C.Mention} :
    l.c.vars[i]? = some x → x.global = some g → m ∈ g.init.mentions → Mentioned l m
  | constant {c : String × C.Constant} : c ∈ l.c.constants → Mentioned l (.type c.2.type)
  | value {c : String × C.Constant} {m : C.Mention} :
    c ∈ l.c.constants → m ∈ c.2.value.mentions → Mentioned l m
  | result {i : Nat} {x : C.Function} {m : C.Mention} :
    l.c.functions[i]? = some x → m ∈ x.result.mentions → Mentioned l m

/-- What the second state mentions, the first mentions too or it is there: a field for each kind of
mention, left out where a step adds none of the kind. -/
structure Adds (A : C.FunctionId → Prop) (l l' : Lowering) : Prop where
  block : ∀ b, ∀ s ∈ l'.c.statements b, ∀ m ∈ s.mentions, Mentioned l m ∨ Present A l' m := by
    exact fun _ _ hs _ hm => .inl (.block hs hm)
  pending : ∀ o ∈ l'.blocks, ∀ s ∈ o.pending, ∀ m ∈ s.mentions,
      Mentioned l m ∨ Present A l' m := by
    exact fun _ ho _ hs _ hm => .inl (.pending ho hs hm)
  slot : ∀ (id : IrId) v, l'.vars[id]? = some v →
      Mentioned l (.slot v) ∨ Present A l' (.slot v) := by
    exact fun _ _ hv => .inl (.slot hv)
  named : ∀ (id : IrId) e, l'.constants[id]? = some e → ∀ m ∈ e.mentions,
      Mentioned l m ∨ Present A l' m := by
    exact fun _ _ he _ hm => .inl (.named he hm)
  entered : ∀ (id : IrId) t, l'.types[id]? = some t →
      Mentioned l (.type t) ∨ Present A l' (.type t) := by
    exact fun _ _ ht => .inl (.entered ht)
  typed : ∀ (i : Nat) x, l'.c.vars[i]? = some x →
      Mentioned l (.type x.type) ∨ Present A l' (.type x.type) := by
    exact fun _ _ hx => .inl (.typed hx)
  initial : ∀ (i : Nat) x g, l'.c.vars[i]? = some x → x.global = some g → ∀ m ∈ g.init.mentions,
      Mentioned l m ∨ Present A l' m := by
    exact fun _ _ _ hx hg _ hm => .inl (.initial hx hg hm)
  constant : ∀ c ∈ l'.c.constants,
      Mentioned l (.type c.2.type) ∨ Present A l' (.type c.2.type) := by
    exact fun _ hc => .inl (.constant hc)
  value : ∀ c ∈ l'.c.constants, ∀ m ∈ c.2.value.mentions, Mentioned l m ∨ Present A l' m := by
    exact fun _ hc _ hm => .inl (.value hc hm)
  result : ∀ (i : Nat) x, l'.c.functions[i]? = some x → ∀ m ∈ x.result.mentions,
      Mentioned l m ∨ Present A l' m := by
    exact fun _ _ hx _ hm => .inl (.result hx hm)

theorem Adds.mentioned (h : Adds A l l') {m : C.Mention} (hm : Mentioned l' m) :
    Mentioned l m ∨ Present A l' m := by
  cases hm with
  | block hs hm => exact h.block _ _ hs m hm
  | pending ho hs hm => exact h.pending _ ho _ hs m hm
  | slot hv => exact h.slot _ _ hv
  | named he hm => exact h.named _ _ he m hm
  | entered ht => exact h.entered _ _ ht
  | typed hx => exact h.typed _ _ hx
  | initial hx hg hm => exact h.initial _ _ _ hx hg m hm
  | constant hc => exact h.constant _ hc
  | value hc hm => exact h.value _ hc m hm
  | result hx hm => exact h.result _ _ hx m hm

/-- After an entry a table holds the entry and what it held before. -/
theorem eq_or_of_insert {m : Std.TreeMap IrId α} {id other : IrId} {x y : α}
    (h : (m.insert id x)[other]? = some y) : y = x ∨ m[other]? = some y := by
  rw [Std.TreeMap.getElem?_insert] at h
  split at h
  · exact .inl (Option.some.inj h).symm
  · exact .inr h

theorem eq_or_of_push {xs : Array α} {i : Nat} {x y : α} (h : (xs.push x)[i]? = some y) :
    y = x ∨ xs[i]? = some y := by
  rw [Array.getElem?_push] at h
  split at h
  · exact .inl (Option.some.inj h).symm
  · exact .inr h

/-- Whatever the state mentions is there, and so are the functions that have been entered. -/
structure Grounded (A : C.FunctionId → Prop) (l : Lowering) : Prop where
  mentioned : ∀ m, Mentioned l m → Present A l m
  functions : ∀ (id : IrId) f, l.functions[id]? = some f → ∃ x, l.c.functions[f.index]? = some x
  definitions : l.c.WellDefined

/-- A step that takes nothing away and mentions only what is there. -/
theorem Grounded.step (h : Grounded A l) (ha : Ahead l l') (hf : l'.functions = l.functions)
    (hd : l'.c.WellDefined) (hadds : Adds A l l') : Grounded A l' where
  mentioned m hm := (hadds.mentioned hm).elim (fun hm => (h.mentioned m hm).later ha) id
  functions id f hid := by
    rw [hf] at hid
    obtain ⟨x, hx⟩ := h.functions id f hid
    obtain ⟨y, hy, _⟩ := ha.functions _ x hx
    exact ⟨y, hy⟩
  definitions := hd

/-- What lowering an expression leaves alone. -/
structure Fixed (base l : Lowering) : Prop where
  functions : l.functions = base.functions
  names : l.c.functions.map (·.name) = base.c.functions.map (·.name)
  values : l.c.constants = base.c.constants
  constants : l.declared.constants = base.declared.constants
  vars : l.declared.vars = base.declared.vars
  structNames : l.c.structNames = base.c.structNames
  kept : base.c.VarsKept l.c

theorem Fixed.refl (l : Lowering) : Fixed l l := ⟨rfl, rfl, rfl, rfl, rfl, rfl, .refl _⟩

theorem Fixed.trans {base l₁ : Lowering} (h : Fixed base l) (h' : Fixed l l₁) : Fixed base l₁ where
  functions := h'.functions.trans h.functions
  names := h'.names.trans h.names
  values := h'.values.trans h.values
  constants := h'.constants.trans h.constants
  vars := h'.vars.trans h.vars
  structNames := h'.structNames.trans h.structNames
  kept := h.kept.trans h'.kept

/-- Everything is grounded, what is fixed is as in `base`, and these mentions hold. -/
structure Sound (A : C.FunctionId → Prop) (base : Lowering) (F : List C.Mention) (l : Lowering) :
    Prop where
  grounded : Grounded A l
  fixed : Fixed base l
  holds : ∀ m ∈ F, Present A l m

namespace Sound

variable {base : Lowering} {F G : List C.Mention}

theorem start (h : Grounded A l) : Sound A l [] l := ⟨h, .refl l, nofun⟩

theorem weaken (h : Sound A base F l) (hsub : G ⊆ F) : Sound A base G l :=
  { h with holds := fun m hm => h.holds m (hsub hm) }

theorem more (h : Sound A base F l) (hG : ∀ m ∈ G, Present A l m) : Sound A base (G ++ F) l :=
  { h with holds := fun m hm => (List.mem_append.1 hm).elim (hG m) (h.holds m) }

/-- A step that takes nothing away and mentions only what is there. -/
theorem step (h : Sound A base F l) (ha : Ahead l l') (hf : Fixed l l')
    (hd : l'.c.WellDefined) (hadds : Adds A l l') : Sound A base F l' :=
  ⟨h.grounded.step ha hf.functions hd hadds, h.fixed.trans hf, fun m hm => (h.holds m hm).later ha⟩

/-- A step on open blocks and finished ones. -/
theorem restate (h : Sound A base F l) (blocks : Array (List C.Stmt)) {opened : List OpenBlock}
    {active : List Activation} {events : List Event}
    (hb : ∀ b : C.BlockId, ∀ s ∈ (blocks[b.index]?).getD [], ∀ m ∈ s.mentions, Present A l m)
    (ho : ∀ o ∈ opened, ∀ s ∈ o.pending, ∀ m ∈ s.mentions, Present A l m) :
    Sound A base F { l with
      c := { l.c with blocks := blocks }
      blocks := opened
      active := active
      events := events } := by
  exact h.step (.of_eq rfl rfl rfl rfl rfl)
    ⟨rfl, rfl, rfl, rfl, rfl, rfl, .refl _⟩ (h.grounded.definitions.congr rfl rfl rfl)
    { block := fun b s hs m hm => .inr (hb b s hs m hm)
      pending := fun o ho' s hs m hm => .inr (ho o ho' s hs m hm) }

/-- A step that touches nothing of what is mentioned. -/
theorem congr (h : Sound A base F l) (hc : l'.c = l.c) (ht : l'.types = l.types)
    (hf : l'.functions = l.functions) (hv : l'.vars = l.vars) (hk : l'.constants = l.constants)
    (hb : l'.blocks = l.blocks) (hd : l'.declared.constants = l.declared.constants)
    (hdv : l'.declared.vars = l.declared.vars) : Sound A base F l' := by
  refine h.step (.of_eq (congrArg _ hc) hd hdv (congrArg _ hc) (congrArg _ hc))
    ⟨hf, congrArg (·.functions.map (·.name)) hc, congrArg (·.constants) hc, hd, hdv,
      congrArg (·.structNames) hc, .of_eq (congrArg _ hc)⟩
    (hc ▸ h.grounded.definitions) ?_
  exact {
    block := fun _ _ hs _ hm => .inl (.block (hc ▸ hs) hm)
    pending := fun _ ho _ hs _ hm => .inl (.pending (hb ▸ ho) hs hm)
    slot := fun _ _ hid => .inl (.slot (hv ▸ hid))
    named := fun _ _ he _ hm => .inl (.named (hk ▸ he) hm)
    entered := fun _ _ hid => .inl (.entered (ht ▸ hid))
    typed := fun _ _ hx => .inl (.typed (hc ▸ hx))
    initial := fun _ _ _ hx hg _ hm => .inl (.initial (hc ▸ hx) hg hm)
    constant := fun _ hin => .inl (.constant (hc ▸ hin))
    value := fun _ hin _ hm => .inl (.value (hc ▸ hin) hm)
    result := fun _ _ hx _ hm => .inl (.result (hc ▸ hx) hm) }

/-- One more variable, which belongs to a function. -/
theorem push (h : Sound A base F l) {t : C.Ty} (ht : .type t ∈ F) (name : String) :
    Sound A base (.slot ⟨l.c.vars.size⟩ :: F)
      { l with c := { l.c with vars := l.c.vars.push ⟨name, t, none⟩ } } := by
  have hstep : Sound A base F
      { l with c := { l.c with vars := l.c.vars.push ⟨name, t, none⟩ } } := by
    refine h.step ⟨List.Subset.refl _, List.Subset.refl _, List.Subset.refl _, .of_push rfl,
      fun _ x hx => ⟨x, hx, rfl, rfl⟩⟩ ⟨rfl, rfl, rfl, rfl, rfl, rfl, .of_push rfl⟩
      (h.grounded.definitions.congr rfl rfl rfl)
      { typed := fun i x hx => ?_, initial := fun i x g hx hg m hm => ?_ }
    · rcases eq_or_of_push hx with rfl | hx
      · exact .inr (h.holds _ ht)
      · exact .inl (.typed hx)
    · rcases eq_or_of_push hx with rfl | hx
      · cases hg
      · exact .inl (.initial hx hg hm)
  refine hstep.more (G := [_]) fun m hm => ?_
  rw [List.mem_singleton.1 hm]
  exact ⟨⟨name, t, none⟩, Array.getElem?_push_size, fun hn => absurd rfl hn⟩

/-- A step on a function that keeps its name and its result type. -/
theorem modifyFunction (h : Sound A base F l) (f : C.FunctionId) {g : C.Function → C.Function}
    (hg : ∀ x, (g x).name = x.name ∧ (g x).result = x.result) :
    Sound A base F { l with c := l.c.modifyFunction f g } := by
  have hget : ∀ i, (l.c.functions.modify f.index g)[i]? =
      if f.index = i then (l.c.functions[i]?).map g else l.c.functions[i]? := fun i =>
    Array.getElem?_modify
  have hahead : ∀ (i : Nat) x, l.c.functions[i]? = some x →
      ∃ y, (l.c.functions.modify f.index g)[i]? = some y ∧ y.name = x.name ∧
        y.result = x.result := by
    intro i x hx
    rw [hget, hx]
    split
    · exact ⟨g x, rfl, hg x⟩
    · exact ⟨x, rfl, rfl, rfl⟩
  have hnames : (l.c.functions.modify f.index g).map (·.name) = l.c.functions.map (·.name) := by
    refine Array.ext_getElem? fun i => ?_
    rw [Array.getElem?_map, Array.getElem?_map, hget]
    split
    · rw [Option.map_map]
      exact congrArg (Option.map · _) (funext fun x => (hg x).1)
    · rfl
  refine h.step ⟨List.Subset.refl _, List.Subset.refl _, List.Subset.refl _, .of_eq rfl, hahead⟩
    ⟨rfl, hnames, rfl, rfl, rfl, rfl, .of_eq rfl⟩
    (h.grounded.definitions.congr rfl rfl rfl) { result := fun i x hx m hm => ?_ }
  have hx := (hget _).symm.trans hx
  split at hx
  · obtain ⟨y, hy, rfl⟩ := Option.map_eq_some_iff.1 hx
    exact .inl (.result hy ((hg y).2 ▸ hm))
  · exact .inl (.result hx hm)

theorem stated (h : Sound A base F l) {b : C.BlockId} {s : C.Stmt} (hs : s ∈ l.c.statements b) :
    ∀ m ∈ s.mentions, Present A l m :=
  fun _ hm => h.grounded.mentioned _ (.block hs hm)

theorem waiting (h : Sound A base F l) {o : OpenBlock} (ho : o ∈ l.blocks) {s : C.Stmt}
    (hs : s ∈ o.pending) : ∀ m ∈ s.mentions, Present A l m :=
  fun _ hm => h.grounded.mentioned _ (.pending ho hs hm)

end Sound

/-! ## Steps -/

/-- Where the mentions `F` hold, the step keeps the state sound, and what it gives has these
mentions besides, which hold then. -/
def Writes (A : C.FunctionId → Prop) (base : Lowering) (F : List C.Mention) (m : Lower α)
    (G : α → List C.Mention) : Prop :=
  ∀ ⦃l a l'⦄, Runs m l a l' → Sound A base F l → Sound A base (G a ++ F) l'

/-- The mentions of a value that there may be. -/
def mentionsOf (v : Option C.Expr) : List C.Mention := C.Expr.mentionsAll v.toList

/-- A variable that there may be. -/
def slotOf (v : Option C.VarId) : List C.Mention := v.toList.map .slot

namespace Writes

variable {base : Lowering} {F : List C.Mention} {G : α → List C.Mention} {H : β → List C.Mention}

theorem pure (a : α) (h : G a ⊆ F) : Writes A base F (pure a) G := by
  intro l b l' hr hs
  obtain ⟨rfl, rfl⟩ := runs_pure.1 hr
  exact hs.weaken (List.append_subset.2 ⟨h, List.Subset.refl _⟩)

/-- A step after another, where something else is known about what that one gives. -/
theorem bind_of {m : Lower α} {f : α → Lower β} {P : α → Prop} (h : Writes A base F m G)
    (hP : ∀ {l a l'}, Runs m l a l' → Sound A base F l → P a)
    (hf : ∀ a, P a → Writes A base (G a ++ F) (f a) H) : Writes A base F (m >>= f) H := by
  intro l b l' hr hs
  obtain ⟨a, l₁, ha, hb⟩ := runs_bind.1 hr
  refine (hf a (hP ha hs) hb (h ha hs)).weaken ?_
  exact List.append_subset.2 ⟨List.subset_append_left .., fun x hx =>
    List.mem_append_right _ (List.mem_append_right _ hx)⟩

theorem bind {m : Lower α} {f : α → Lower β} (h : Writes A base F m G)
    (hf : ∀ a, Writes A base (G a ++ F) (f a) H) : Writes A base F (m >>= f) H :=
  h.bind_of (P := fun _ => True) (fun _ _ => trivial) fun a _ => hf a

/-- A step that keeps the state sound. -/
theorem of_kept {m : Lower α} (h : Kept (Sound A base F) m) : Writes A base F m fun _ => [] :=
  fun _ _ _ hr hs => h hr hs

theorem kept {m : Lower α} (h : Writes A base F m G) : Kept (Sound A base F) m :=
  fun _ _ _ hr hs => (h hr hs).weaken (List.subset_append_right ..)

theorem discard {m : Lower α} (h : Writes A base F m G) :
    Writes A base F (discard m) fun _ => [] :=
  .of_kept h.kept.discard

theorem ofState {f : Lowering → Lower α} (h : ∀ l, Sound A base F l → Writes A base F (f l) G) :
    Writes A base F (get >>= f) G := by
  intro l a l' hr hs
  exact h l hs (runs_get_bind.1 hr) hs

theorem require (d : Defect) (o : Option α) : Writes A base F (require d o) fun _ => [] :=
  .of_kept (.require d o)

theorem defect (d : Defect) : Writes A base F (defect d : Lower α) G :=
  fun _ _ _ hr => absurd hr not_runs_defect

theorem typeOf (id : IrId) : Writes A base F (typeOf k id) fun _ => [] := .of_kept (.typeOf id)

theorem activation : Writes A base F activation fun _ => [] := .of_kept .activation

/-! ### Types and variables -/

theorem entered (t : Ty) : Writes A base F (entered t) fun ct => [.type ct] := by
  intro l ct l' hr hs
  obtain ⟨hget, rfl⟩ := runs_require.1 (runs_get_bind.1 hr)
  refine hs.more fun m hm => ?_
  rw [List.mem_singleton.1 hm]
  exact hs.grounded.mentioned _ (.entered hget)

theorem mentions_arrayLength {l : Lowering} (capacity : Nat) :
    ∀ m ∈ (arrayLength capacity).mentions, ∃ t, m = .type t ∧ t.KnownIn l.c.typeDefs := by
  intro m hm
  rw [List.mem_singleton.1 hm]
  exact ⟨_, rfl, "int32_t", rfl, .inl (by decide)⟩

theorem arrayType {element : C.Ty} (he : .type element ∈ F) (capacity : Nat) :
    Writes A base F (build (·.arrayType element (arrayLength capacity))) fun ct => [.type ct] := by
  intro l ct l' hr hs
  obtain ⟨rfl, rfl⟩ := runs_build.1 hr
  obtain ⟨hd, hknown⟩ := hs.grounded.definitions.arrayType (hs.holds _ he)
    (mentions_arrayLength (l := l) capacity)
  have hkept : (l.c.arrayType element (arrayLength capacity)).2 = { l.c with
      typeDefs := (l.c.arrayType element (arrayLength capacity)).2.typeDefs
      arrays := (l.c.arrayType element (arrayLength capacity)).2.arrays } ∧
      l.c.typeDefs ⊆ (l.c.arrayType element (arrayLength capacity)).2.typeDefs := by
    unfold C.Program.arrayType
    dsimp only
    split
    · exact ⟨rfl, List.Subset.refl _⟩
    · exact ⟨rfl, List.subset_append_left ..⟩
  have hstep : Sound A base F { l with c := (l.c.arrayType element (arrayLength capacity)).2 } := by
    rw [hkept.1] at hd ⊢
    exact hs.step ⟨hkept.2, List.Subset.refl _, List.Subset.refl _, .of_eq rfl,
      fun _ x hx => ⟨x, hx, rfl, rfl⟩⟩ ⟨rfl, rfl, rfl, rfl, rfl, rfl, .of_eq rfl⟩ hd {}
  refine hstep.more fun m hm => ?_
  rw [List.mem_singleton.1 hm]
  exact hknown

theorem type : ∀ (F : List C.Mention) (t : Ty), Writes A base F (type t) fun ct => [.type ct]
  | _, .bool _ | _, .int _ _ | _, .uint _ _ | _, .float _ _ | _, .struct _ _ _ => entered _
  | F, .array _ element capacity => (type F element).bind fun _ =>
    arrayType (List.mem_append_left _ (List.mem_singleton_self _)) capacity
  | _, .error _ | _, .unit _ | _, .infer _ | _, .fn _ _ _ | _, .field _ _ _ | _, .generic _ _ =>
    .defect _

/-- A variable that there is, spelled by its name. -/
theorem varExpr {v : C.VarId} (h : .slot v ∈ F) :
    Writes A base F (look (·.varExpr v)) C.Expr.mentions := by
  intro l e l' hr hs
  obtain ⟨rfl, rfl⟩ := runs_look.1 hr
  obtain ⟨x, hx, hg⟩ := hs.holds _ h
  refine hs.more fun m hm => ?_
  unfold C.Program.varExpr at hm
  rw [hx] at hm
  rw [List.mem_singleton.1 hm]
  exact ⟨x, hx, rfl, hg⟩

/-- The declaration of a variable that there is. -/
theorem declareStmt {v : C.VarId} (init : Option C.Expr) (h : .slot v ∈ F)
    (hi : mentionsOf init ⊆ F) :
    Writes A base F (look (·.declareStmt v init)) C.Stmt.mentions := by
  intro l s l' hr hs
  obtain ⟨rfl, rfl⟩ := runs_look.1 hr
  obtain ⟨x, hx, hg⟩ := hs.holds _ h
  refine hs.more fun m hm => ?_
  unfold C.Program.declareStmt at hm
  rw [hx] at hm
  rcases List.mem_cons.1 hm with rfl | hm
  · exact hs.grounded.mentioned _ (.typed hx)
  rcases List.mem_cons.1 hm with rfl | hm
  · exact ⟨x, hx, rfl, hg⟩
  · exact hs.holds m (hi hm)

theorem newLocal {t : C.Ty} (ht : .type t ∈ F) (f : C.FunctionId) (name : String) :
    Writes A base F (build (·.newLocal f name t)) fun v => [.slot v] := by
  intro l v l' hr hs
  obtain ⟨rfl, rfl⟩ := runs_build.1 hr
  let spelled := C.Program.freshName ((l.c.functions[f.index]?.map (·.taken)).getD []) name
  exact (hs.push ht spelled).modifyFunction f (g := fun x => { x with taken := spelled :: x.taken })
    fun _ => ⟨rfl, rfl⟩

/-- A new variable is a parameter of the function. -/
theorem parameter {t : C.Ty} (ht : .type t ∈ F) (f : C.FunctionId) (name : String) :
    Writes A base F (build (·.parameter f name t)) fun v => [.slot v] := by
  intro l v l' hr hs
  obtain ⟨rfl, rfl⟩ := runs_build.1 hr
  exact (newLocal ht f name (runs_build.2 ⟨rfl, rfl⟩) hs).modifyFunction f
    (g := fun x => { x with params := x.params ++ [⟨l.c.vars.size⟩] }) fun _ => ⟨rfl, rfl⟩

theorem setVariable {v : C.VarId} (h : .slot v ∈ F) (id : IrId) :
    Writes A base F (setVariable id v) fun _ => [] := by
  refine .of_kept (.modify fun l hs => ?_)
  refine hs.step (.of_eq rfl rfl rfl rfl rfl) ⟨rfl, rfl, rfl, rfl, rfl, rfl, .refl _⟩
    hs.grounded.definitions { slot := fun other w hw => ?_ }
  rcases eq_or_of_insert hw with rfl | hw
  · exact .inr (hs.holds _ h)
  · exact .inl (.slot hw)

/-! ### Statements -/

theorem add {s : C.Stmt} (h : s.mentions ⊆ F) : Writes A base F (addStmt s) fun _ => [] := by
  refine .of_kept fun l u l' hr hs => ?_
  obtain ⟨o, rest, hb, rfl⟩ := runs_addStmt.1 hr
  refine hs.restate l.c.blocks (fun _ _ hs' => hs.stated hs') fun o' ho' s' hs' => ?_
  rcases List.mem_cons.1 ho' with rfl | ho'
  · rcases List.mem_append.1 hs' with hs' | hs'
    · exact hs.waiting (hb ▸ List.mem_cons_self) hs'
    · rw [List.mem_singleton.1 hs']
      exact fun m hm => hs.holds m (h hm)
  · exact hs.waiting (hb ▸ List.mem_cons_of_mem _ ho') hs'

/-- Opening a new block. -/
theorem begins {m : C.BlockId → Lower α} (h : ∀ b, Writes A base F (m b) G) :
    Writes A base F (build (·.newBlock) >>= fun b => do pushBlock b; m b) G := by
  intro l a l' hr hs
  obtain ⟨b, l₁, rnew, h₁⟩ := runs_bind.1 hr
  obtain ⟨_, l₂, rpush, h₂⟩ := runs_bind.1 h₁
  obtain ⟨rfl, rfl⟩ := runs_build.1 rnew
  refine h _ h₂ ?_
  rw [runs_pushBlock.1 rpush]
  refine hs.restate _ (fun b s hb => hs.stated (mem_statements_newBlock hb)) fun o ho s hin => ?_
  rcases List.mem_cons.1 ho with rfl | ho
  · exact absurd hin List.not_mem_nil
  · exact hs.waiting ho hin

/-- Closing a block. -/
theorem popBlock : Writes A base F popBlock fun _ => [] := by
  refine .of_kept fun l b l' hr hs => ?_
  obtain ⟨o, rest, ho, _, rfl⟩ := runs_popBlock.1 hr
  refine hs.restate _ (fun b s hb => ?_) fun o' ho' s hin =>
    hs.waiting (ho ▸ List.mem_cons_of_mem _ ho') hin
  rcases mem_statements_extendBlock hb with hin | hin
  · exact hs.stated hin
  · exact hs.waiting (ho ▸ List.mem_cons_self) hin

end Writes

/-! ## Values, variables and branches -/

theorem subset_between {a b F : List C.Mention} : a ⊆ b ++ (a ++ F) :=
  List.subset_append_of_subset_right _ (List.subset_append_left ..)

/-- The mentions of two values, one made after the other. -/
theorem append_subset_both {a b F : List C.Mention} : a ++ b ⊆ b ++ (a ++ F) :=
  List.append_subset.2 ⟨subset_between, List.subset_append_left ..⟩

section

variable {base : Lowering} {F : List C.Mention}

/-- A value made of others. -/
theorem writes_pure_of {v : C.Expr} (h : v.mentions ⊆ F) :
    Writes A base F (pure v) C.Expr.mentions :=
  .pure v h

theorem writes_temporary (t : Ty) : Writes A base F (temporary t) fun v => [.slot v] := by
  unfold temporary
  refine (Writes.type F t).bind fun ct => Writes.activation.bind fun a =>
    (Writes.newLocal (by simp) a.function "__tmp").bind fun v => ?_
  refine (Writes.declareStmt none (by simp) (List.nil_subset _)).bind fun s => ?_
  exact (Writes.add (List.subset_append_left ..)).bind fun _ => .pure v (by simp)

theorem writes_temporary? (t : Ty) : Writes A base F (temporary? t) slotOf := by
  unfold temporary?
  cases t.isUnit with
  | true => exact .pure none (List.nil_subset _)
  | false => exact (writes_temporary t).bind fun v => .pure (some v) (by simp [slotOf])

/-- A new variable for a declaration, with its initial value. -/
theorem writes_declare {init : Option C.Expr} {t : C.Ty} (ht : .type t ∈ F)
    (hi : mentionsOf init ⊆ F) (id : IrId) (name : String) :
    Writes A base F (declare id name t init) fun _ => [] := by
  unfold declare
  refine Writes.activation.bind fun a => (Writes.newLocal ht a.function name).bind fun v =>
    (Writes.setVariable (by simp) id).bind fun _ => ?_
  refine (Writes.declareStmt (v := v) init (by simp) fun x hx => ?_).bind fun s =>
    .add (List.subset_append_left ..)
  simpa using .inr (hi hx)

theorem writes_store {v : C.VarId} {value : C.Expr} (hv : .slot v ∈ F) (h : value.mentions ⊆ F) :
    Writes A base F (store v value) fun _ => [] :=
  (Writes.varExpr hv).bind fun _ => .add
    (List.append_subset.2 ⟨List.subset_append_left .., List.subset_append_of_subset_right _ h⟩)

theorem mentionsOf_some {value : C.Expr} : mentionsOf (some value) = value.mentions :=
  List.append_nil _

theorem writes_storeIn {target : Option C.VarId} {value : Option C.Expr}
    (ht : slotOf target ⊆ F) (hv : mentionsOf value ⊆ F) :
    Writes A base F (storeIn target value) fun _ => [] := by
  cases target with
  | none => exact .pure () (List.nil_subset _)
  | some v =>
    cases value with
    | none => exact .pure () (List.nil_subset _)
    | some value => exact writes_store (ht (List.mem_singleton_self _)) (mentionsOf_some ▸ hv)

theorem writes_load {target : Option C.VarId} (ht : slotOf target ⊆ F) :
    Writes A base F (load target) C.Expr.mentions := by
  cases target with
  | none => exact writes_pure_of (List.nil_subset _)
  | some v => exact .varExpr (ht (List.mem_singleton_self _))

theorem writes_keep {value : C.Expr} (h : value.mentions ⊆ F) (t : Ty) :
    Writes A base F (keep t value) C.Expr.mentions := by
  refine (writes_temporary? t).bind fun target => ?_
  cases target with
  | none => exact writes_pure_of h
  | some v =>
    have hv : C.Mention.slot v ∈ slotOf (some v) ++ F :=
      List.mem_append_left _ (List.mem_singleton_self _)
    exact (writes_store hv (List.subset_append_of_subset_right _ h)).bind fun _ => .varExpr hv

/-- A block of its own. -/
theorem writes_inBlock {target : Option C.VarId} {body : Lower (Option C.Expr)}
    (ht : slotOf target ⊆ F) (hbody : Writes A base F body mentionsOf) :
    Writes A base F (inBlock target body) fun _ => [] := by
  refine Writes.activation.discard.bind fun _ => Writes.begins fun b => hbody.bind fun v => ?_
  exact (writes_storeIn (List.subset_append_of_subset_right _ ht)
    (List.subset_append_left ..)).bind fun _ => .popBlock

/-! ## Names, literals and fields -/

theorem writes_identifier (e : Expr) (name : String) :
    Writes A base F (identifier k e name) C.Expr.mentions := by
  have hdecl : Writes A base F (declaration k e) fun _ => [] :=
    .of_kept (.same fun hr => (runs_declaration hr).2)
  refine hdecl.bind fun id => ?_
  intro l v l' hr hs
  rw [runs_get_bind] at hr
  cases hv : l.vars[id]? with
  | some x =>
    rw [hv] at hr
    have hslot : Sound A base ([.slot x] ++ ([] ++ F)) l := hs.more fun m hm => by
      rw [List.mem_singleton.1 hm]
      exact hs.grounded.mentioned _ (.slot hv)
    have hlook : Runs (look (·.varExpr x)) l v l' := hr
    refine (Writes.varExpr (by simp) hlook hslot).weaken ?_
    simp [List.subset_def]
    grind
  | none =>
    rw [hv] at hr
    obtain ⟨hc, rfl⟩ := runs_require.1 hr
    exact hs.more fun m hm => hs.grounded.mentioned m (.named hc hm)

theorem writes_literal (id : IrId) (lit : Literal) :
    Writes A base F (literal k id lit) C.Expr.mentions := by
  refine (Writes.typeOf id).bind fun t => ?_
  have hfloat : Writes A base ([] ++ F) (literal.float lit t (plainSpelling lit.spelling))
      C.Expr.mentions :=
    (Writes.require _ _).bind fun _ => (Writes.type _ t).bind fun _ =>
      writes_pure_of (List.subset_append_left ..)
  cases lit.kind with
  | bool => exact (Writes.require _ _).bind fun _ => writes_pure_of (List.nil_subset _)
  | float => exact hfloat
  | int =>
    cases isFloat t with
    | true => exact hfloat
    | false =>
      exact (Writes.require _ _).bind fun _ => (Writes.type _ t).bind fun _ =>
        writes_pure_of (List.subset_append_left ..)

theorem writes_effect {e : Expr} {value : Lower C.Expr}
    (h : Writes A base F value C.Expr.mentions) : Writes A base F (effect e value) fun _ => [] := by
  refine h.bind fun v => ?_
  cases addsItself e with
  | true => exact .pure () (List.nil_subset _)
  | false => exact .add (List.subset_append_left ..)

theorem writes_effectOnly {e : Expr} {value : Lower C.Expr}
    (h : Writes A base F value C.Expr.mentions) :
    Writes A base F (effectOnly e value) mentionsOf :=
  (writes_effect h).bind fun _ => .pure none (List.nil_subset _)

/-- A call of a function that has been entered. -/
theorem writes_callExpr {f : C.FunctionId} {id : IrId} (hA : A f)
    (hf : base.functions[id]? = some f) {values : List C.Expr} (h : C.Expr.mentionsAll values ⊆ F) :
    Writes A base F (look (·.callExpr f values)) C.Expr.mentions := by
  intro l e l' hr hs
  obtain ⟨rfl, rfl⟩ := runs_look.1 hr
  refine hs.more fun m hm => ?_
  rcases List.mem_cons.1 hm with rfl | hm
  · rw [← hs.fixed.functions] at hf
    obtain ⟨x, hx⟩ := hs.grounded.functions id f hf
    refine ⟨hA, x, hx, ?_⟩
    unfold C.Program.functionName
    rw [hx]
    rfl
  · exact hs.holds m (h hm)

end

/-! ## Expressions and statements -/

/-- Lowering the expression, by itself and as a branch, keeps the state sound. -/
structure WritesAll (k : Checked) (A : C.FunctionId → Prop) (base : Lowering) (F : List C.Mention)
    (e : Expr) : Prop where
  expr : Writes A base F (expr k e) C.Expr.mentions
  branch : Writes A base F (branch k e) mentionsOf

section

variable {base : Lowering}

theorem writesAll_of_expr {F : List C.Mention} {e : Expr} (hb : ∀ g ss tail, e ≠ .block g ss tail)
    (he : Writes A base F (expr k e) C.Expr.mentions) : WritesAll k A base F e := by
  have heffect : Writes A base F (effectOnly e (expr k e)) mentionsOf := writes_effectOnly he
  refine ⟨he, ?_⟩
  cases e with
  | block g ss tail => exact absurd rfl (hb g ss tail)
  | _ => exact heffect

/-- A block from its contents. -/
theorem writesAll_of_contents {F : List C.Mention} {g : Head} {ss : List Stmt} {tail : Option Expr}
    (h : ∀ F, Writes A base F (contents k ss tail) mentionsOf) :
    WritesAll k A base F (.block g ss tail) := by
  refine ⟨?_, h F⟩
  rw [expr_block]
  refine (Writes.typeOf _).bind fun t => (writes_temporary? t).bind fun target => ?_
  refine (writes_inBlock (List.subset_append_left ..) (h _)).bind fun b => ?_
  exact (Writes.add (List.nil_subset _)).bind fun _ => writes_load (List.subset_append_left ..)

mutual

theorem writesAll (hA : ∀ (id : IrId) f, base.functions[id]? = some f → A f) :
    ∀ (F : List C.Mention) (e : Expr), WritesAll k A base F e
  | F, .literal g lit => writesAll_of_expr nofun (writes_literal g.id.ir lit)
  | F, .identifier g name => writesAll_of_expr nofun (writes_identifier _ name)
  | F, .ret g none => by
    refine writesAll_of_expr nofun (Writes.activation.discard.bind fun _ => ?_)
    exact (Writes.add (List.nil_subset _)).bind fun _ => writes_pure_of (List.nil_subset _)
  | F, .ret g (some value) => by
    refine writesAll_of_expr nofun ((writesAll hA F value).expr.bind fun v =>
      Writes.activation.discard.bind fun _ => (Writes.add ?_).bind fun _ =>
        writes_pure_of (List.nil_subset _))
    exact List.append_subset.2 ⟨List.subset_append_left .., List.nil_subset _⟩
  | F, .call g f args => by
    have hcallee : Writes A base F (callee k f) fun _ => [] :=
      .of_kept (.same fun hr => (runs_callee hr).2)
    refine writesAll_of_expr nofun (hcallee.bind_of (P := fun f => ∃ id : IrId,
      base.functions[id]? = some f) (fun hr hs => ?_) fun f hf =>
        (writes_exprs hA _ args).bind fun vs => ?_)
    · obtain ⟨⟨_, id, _, _, hid⟩, _⟩ := runs_callee hr
      exact ⟨id, hs.fixed.functions ▸ hid⟩
    · obtain ⟨id, hid⟩ := hf
      exact writes_callExpr (hA id f hid) hid (List.subset_append_left ..)
  | F, .assign g target value => by
    refine writesAll_of_expr nofun ((writesAll hA F target).expr.bind fun t =>
      (writesAll hA _ value).expr.bind fun v => (Writes.add append_subset_both).bind fun _ =>
        writes_pure_of (List.subset_append_of_subset_right _ subset_between))
  | F, .binary g op lhs rhs => by
    refine writesAll_of_expr nofun ((writesAll hA F lhs).expr.bind fun l =>
      (writesAll hA _ rhs).expr.bind fun r => writes_pure_of append_subset_both)
  | F, .ifOnly g condition body => by
    refine writesAll_of_expr nofun ?_
    rw [expr_ifOnly]
    refine (writesAll hA F condition).expr.bind fun c =>
      (writes_inBlock (List.nil_subset _) (writesAll hA _ body).branch).bind fun b => ?_
    exact (Writes.add subset_between).bind fun _ => writes_pure_of (List.nil_subset _)
  | F, .ifElse g condition thenBody elseBody => by
    refine writesAll_of_expr nofun ?_
    rw [expr_ifElse]
    refine (Writes.typeOf _).bind fun t => (writesAll hA _ condition).expr.bind fun c =>
      (writes_temporary? t).bind fun target => ?_
    refine (writes_inBlock (by simp) (writesAll hA _ thenBody).branch).bind fun b =>
      (writes_inBlock (by simp) (writesAll hA _ elseBody).branch).bind fun d => ?_
    exact (Writes.add (by simp [C.Stmt.mentions])).bind fun _ => writes_load (by simp)
  | F, .ifElseIf g condition thenBody elseIf => by
    refine writesAll_of_expr nofun ?_
    rw [expr_ifElseIf]
    refine (writesAll hA F condition).expr.bind fun c =>
      (writes_inBlock (List.nil_subset _) (writesAll hA _ thenBody).branch).bind fun b =>
      (writes_inBlock (List.nil_subset _) (writesAll hA _ elseIf).branch).bind fun d => ?_
    exact (Writes.add (by simp [C.Stmt.mentions])).bind fun _ => writes_pure_of (List.nil_subset _)
  | F, .block g ss none => writesAll_of_contents fun F =>
    (writes_stmts hA F ss).bind fun _ => .pure none (List.nil_subset _)
  | F, .block g ss (some e) => by
    refine writesAll_of_contents fun F => (writes_stmts hA F ss).bind fun _ => ?_
    have hvalue : ∀ F, Writes A base F (hasValue k e) fun _ => [] := fun F =>
      .of_kept (.same fun hr => (runs_hasValue hr).2)
    refine (hvalue _).bind fun b => ?_
    cases b with
    | true =>
      exact (writesAll hA _ e).expr.bind fun v =>
        .pure (some v) (mentionsOf_some ▸ List.subset_append_left ..)
    | false => exact writes_effectOnly (writesAll hA _ e).expr
  | F, .index g array position => by
    refine writesAll_of_expr nofun ((writesAll hA F array).expr.bind fun b =>
      (writesAll hA _ position).expr.bind fun p => writes_pure_of append_subset_both)
  | F, .array g values => by
    refine writesAll_of_expr nofun ((Writes.typeOf _).bind fun t => (Writes.type _ t).bind fun ct =>
      (writes_exprs hA _ values).bind fun vs => writes_pure_of ?_)
    exact List.cons_subset.2 ⟨by simp, List.subset_append_left ..⟩
  | F, .copies g element count => by
    refine writesAll_of_expr nofun ((Writes.typeOf _).bind fun t => (Writes.type _ t).bind fun ct =>
      (writesAll hA _ element).expr.bind fun v => writes_pure_of ?_)
    refine List.cons_subset.2 ⟨by simp, fun m hm => List.mem_append_left _ ?_⟩
    obtain ⟨w, hw, hm⟩ := C.Expr.mem_mentionsAll.1 hm
    rwa [List.eq_of_mem_replicate hw] at hm
  | F, .struct g path fields => by
    refine writesAll_of_expr nofun ((Writes.typeOf _).bind fun t => ?_)
    dsimp only
    cases t.struct? with
    | none => exact .defect _
    | some found =>
      refine (Writes.type _ t).bind fun ct => (writes_fields hA _ _ fields).bind fun given => ?_
      intro l v l' hr hs
      obtain ⟨vs, l₁, rvs, hp⟩ := runs_bind.1 hr
      obtain ⟨ho, rfl⟩ := runs_inDeclaredOrder rvs
      refine writes_pure_of (List.cons_subset.2 ⟨by simp, fun m hm => ?_⟩) hp hs
      obtain ⟨w, hw, hm⟩ := C.Expr.mem_mentionsAll.1 hm
      have hin := mem_of_mem_taken ((taken_perm ho).mem_iff.1 hw)
      exact List.mem_append_left _ (C.Expr.mem_mentionsAll.2 ⟨w, hin, hm⟩)

theorem writes_exprs (hA : ∀ (id : IrId) f, base.functions[id]? = some f → A f) :
    ∀ (F : List C.Mention) (es : List Expr), Writes A base F (exprs k es) C.Expr.mentionsAll
  | _, [] => .pure [] (List.nil_subset _)
  | F, e :: rest => (writesAll hA F e).expr.bind fun v => (writes_exprs hA _ rest).bind fun vs =>
    .pure (v :: vs) append_subset_both

theorem writes_fields (hA : ∀ (id : IrId) f, base.functions[id]? = some f → A f) :
    ∀ (F : List C.Mention) (inOrder : Bool) (fs : List FieldInit),
    Writes A base F (fieldInits k inOrder fs) fun vs => C.Expr.mentionsAll (vs.map (·.2))
  | _, _, [] => .pure [] (List.nil_subset _)
  | F, inOrder, .mk _ name value :: rest => by
    refine (writesAll hA F value).expr.bind fun v => ?_
    cases inOrder || isInert value with
    | true =>
      exact (writes_fields hA _ inOrder rest).bind fun vs =>
        .pure ((name, v) :: vs) append_subset_both
    | false =>
      refine (Writes.typeOf _).bind fun t =>
        (writes_keep subset_between t).bind fun w =>
        (writes_fields hA _ inOrder rest).bind fun vs => ?_
      exact .pure ((name, w) :: vs) append_subset_both

theorem writes_stmt (hA : ∀ (id : IrId) f, base.functions[id]? = some f → A f) :
    ∀ (F : List C.Mention) (st : Stmt), Writes A base F (stmt k st) fun _ => []
  | F, .expr e => writes_effect (writesAll hA F e).expr
  | _, .bind g pattern ascribed none => (Writes.typeOf _).bind fun t => by
    cases t.isUnit || t.isInfer with
    | true => exact .pure () (List.nil_subset _)
    | false =>
      exact (Writes.type _ t).bind fun ct => writes_declare (by simp) (List.nil_subset _) _ _
  | _, .bind g pattern ascribed (some init) => (Writes.typeOf _).bind fun t => by
    cases t.isUnit || t.isInfer with
    | true => exact writes_effect (writesAll hA _ init).expr
    | false =>
      exact (Writes.type _ t).bind fun ct => (writesAll hA _ init).expr.bind fun v =>
        writes_declare (by simp) (mentionsOf_some ▸ List.subset_append_left ..) _ _

theorem writes_stmts (hA : ∀ (id : IrId) f, base.functions[id]? = some f → A f) :
    ∀ (F : List C.Mention) (ss : List Stmt), Writes A base F (stmts k ss) fun _ => []
  | _, [] => .pure () (List.nil_subset _)
  | F, s :: rest => (writes_stmt hA F s).bind fun _ => writes_stmts hA _ rest

end

end

end Lower

end MiddleEnd
