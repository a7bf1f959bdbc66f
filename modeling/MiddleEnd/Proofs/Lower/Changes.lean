/-
  How single steps of lowering change its state. Statements go to the end of the innermost open
  block (`Changes`); blocks that are there stay as they are, and new ones only refer to blocks
  that are newer still.
-/
import MiddleEnd.Proofs.Lower.Run
import MiddleEnd.Proofs.Lower.Emission

namespace MiddleEnd

/-- The blocks that a statement refers to. -/
def C.Stmt.blocks : C.Stmt → List C.BlockId
  | .block b => [b]
  | .branch _ b none => [b]
  | .branch _ b (some d) => [b, d]
  | _ => []

/-- A function of a C program without the names taken in it. -/
def C.Function.outline (f : C.Function) : C.Function := { f with taken := [] }

namespace Lower

def slots (l : Lowering) : Slots := ⟨fun id => l.vars[id]?, l.c.vars.size⟩

def setting (l : Lowering) : Setting :=
  ⟨fun id => l.functions[id]?, l.c.functionName, fun id => l.constants[id]?,
    fun id => l.types[id]?⟩

/-- Statements added to the innermost open block. -/
def extend : List OpenBlock → List C.Stmt → List OpenBlock
  | [], _ => []
  | o :: rest, added => ⟨o.block, o.pending ++ added⟩ :: rest

theorem extend_nil (bs : List OpenBlock) : extend bs [] = bs := by
  cases bs with
  | nil => rfl
  | cons o rest => rw [extend, List.append_nil]

theorem extend_append (bs : List OpenBlock) (a b : List C.Stmt) :
    extend (extend bs a) b = extend bs (a ++ b) := by
  cases bs with
  | nil => rfl
  | cons o rest => rw [extend, extend, extend, List.append_assoc]

/-- What a run of lowering that adds these statements leaves as it was. -/
structure Changes (l : Lowering) (added : List C.Stmt) (l' : Lowering) : Prop where
  setting : setting l' = setting l
  active : l'.active = l.active
  declared : l'.declared = l.declared
  blocks : l'.blocks = extend l.blocks added
  size : l.c.blocks.size ≤ l'.c.blocks.size
  kept : ∀ b : C.BlockId, b.index < l.c.blocks.size → l'.c.statements b = l.c.statements b
  outline : ∀ i : Nat, (l'.c.functions[i]?).map C.Function.outline =
    (l.c.functions[i]?).map C.Function.outline
  within : ∀ s ∈ added, ∀ x ∈ s.blocks, l.c.blocks.size ≤ x.index ∧ x.index < l'.c.blocks.size
  deeper : ∀ b : C.BlockId, l.c.blocks.size ≤ b.index → b.index < l'.c.blocks.size →
    ∀ s ∈ l'.c.statements b, ∀ x ∈ s.blocks, b.index < x.index ∧ x.index < l'.c.blocks.size

namespace Changes

variable {l l₁ l' : Lowering} {a b : List C.Stmt}

theorem refl (l : Lowering) : Changes l [] l where
  setting := rfl
  active := rfl
  declared := rfl
  blocks := (extend_nil _).symm
  size := Nat.le_refl _
  kept _ _ := rfl
  outline _ := rfl
  within _ hs := absurd hs List.not_mem_nil
  deeper b hb hb' := by omega

theorem trans (h : Changes l a l₁) (k : Changes l₁ b l') : Changes l (a ++ b) l' where
  setting := k.setting.trans h.setting
  active := k.active.trans h.active
  declared := k.declared.trans h.declared
  blocks := by rw [k.blocks, h.blocks, extend_append]
  size := Nat.le_trans h.size k.size
  kept x hx := (k.kept x (Nat.lt_of_lt_of_le hx h.size)).trans (h.kept x hx)
  outline i := (k.outline i).trans (h.outline i)
  within s hs x hx := by
    have hsize := h.size
    have hsize' := k.size
    rcases List.mem_append.1 hs with hs | hs
    · have := h.within s hs x hx
      omega
    · have := k.within s hs x hx
      omega
  deeper y hy hy' s hs x hx := by
    have hsize' := k.size
    by_cases hlt : y.index < l₁.c.blocks.size
    · rw [k.kept y hlt] at hs
      have := h.deeper y hy hlt s hs x hx
      omega
    · exact k.deeper y (by omega) hy' s hs x hx

/-- A step that changes neither blocks nor functions of the C program. -/
theorem of_program (l : Lowering) {c : C.Program} (hb : c.blocks = l.c.blocks)
    (hf : c.functions = l.c.functions) : Changes l [] { l with c := c } where
  setting := by
    have hn : c.functionName = l.c.functionName := by
      funext f
      unfold C.Program.functionName
      rw [hf]
    unfold Lower.setting
    rw [hn]
  active := rfl
  declared := rfl
  blocks := (extend_nil _).symm
  size := Nat.le_of_eq (congrArg Array.size hb.symm)
  kept x _ := by
    unfold C.Program.statements
    rw [hb]
  outline i := by rw [hf]
  within _ hs := absurd hs List.not_mem_nil
  deeper x hx hx' := by
    rw [hb] at hx'
    omega

/-- Adding a statement that refers to blocks made in the run only. -/
theorem add (h : Changes l a l₁) {s : C.Stmt} {u : Unit} (hr : Runs (addStmt s) l₁ u l')
    (hs : ∀ x ∈ s.blocks, l.c.blocks.size ≤ x.index ∧ x.index < l₁.c.blocks.size) :
    Changes l (a ++ [s]) l' ∧ slots l' = slots l₁ := by
  obtain ⟨o, rest, hb, rfl⟩ := runs_addStmt.1 hr
  refine ⟨?_, rfl⟩
  have hblocks : extend l.blocks (a ++ [s]) = ⟨o.block, o.pending ++ [s]⟩ :: rest := by
    rw [← extend_append, ← h.blocks, hb]
    rfl
  exact {
    setting := h.setting
    active := h.active
    declared := h.declared
    blocks := hblocks.symm
    size := h.size
    kept := h.kept
    outline := h.outline
    within := fun t ht x hx => by
      rcases List.mem_append.1 ht with ht | ht
      · exact h.within t ht x hx
      · rw [List.mem_singleton.1 ht] at hx
        exact hs x hx
    deeper := h.deeper }

/-- Adding a statement that refers to no blocks. -/
theorem addPlain (h : Changes l a l₁) {s : C.Stmt} {u : Unit} (hr : Runs (addStmt s) l₁ u l')
    (hs : s.blocks = []) : Changes l (a ++ [s]) l' ∧ slots l' = slots l₁ :=
  h.add hr fun x hx => by rw [hs] at hx; exact absurd hx List.not_mem_nil

end Changes

/-- The statements in blocks that a run from `l` to `l'` has made. -/
def Agrees (B : C.BlockId → List C.Stmt) (l l' : Lowering) : Prop :=
  ∀ b : C.BlockId, l.c.blocks.size ≤ b.index → b.index < l'.c.blocks.size →
    B b = l'.c.statements b

theorem Agrees.left {B : C.BlockId → List C.Stmt} {l l₁ l' : Lowering} {b : List C.Stmt}
    (h : Agrees B l l') (k : Changes l₁ b l') : Agrees B l l₁ := by
  intro x hx hx'
  have hsize := k.size
  rw [h x hx (by omega), k.kept x hx']

theorem Agrees.right {B : C.BlockId → List C.Stmt} {l l₁ l' : Lowering} {a : List C.Stmt}
    (h : Agrees B l l') (k : Changes l a l₁) : Agrees B l₁ l' := by
  intro x hx hx'
  have hsize := k.size
  exact h x (by omega) hx'

/-! ## Types and variables -/

variable {l l' : Lowering}

/-- A run that adds no statements, no blocks and no variables. -/
structure Quiet (l l' : Lowering) : Prop where
  changes : Changes l [] l'
  slots : slots l' = slots l
  blocks : l'.c.blocks = l.c.blocks

theorem Quiet.refl (l : Lowering) : Quiet l l := ⟨.refl l, rfl, rfl⟩

theorem Quiet.trans {l₁ : Lowering} (h : Quiet l l₁) (k : Quiet l₁ l') : Quiet l l' :=
  ⟨h.changes.trans k.changes, k.slots.trans h.slots, k.blocks.trans h.blocks⟩

theorem arrayType_keeps (p : C.Program) (element : C.Ty) (length : C.Expr) :
    (p.arrayType element length).2.blocks = p.blocks ∧
      (p.arrayType element length).2.functions = p.functions ∧
      (p.arrayType element length).2.vars = p.vars := by
  unfold C.Program.arrayType
  dsimp only
  split
  · exact ⟨rfl, rfl, rfl⟩
  · exact ⟨rfl, rfl, rfl⟩

theorem quiet_arrayType (l : Lowering) (element : C.Ty) (length : C.Expr) :
    Quiet l { l with c := (l.c.arrayType element length).2 } := by
  obtain ⟨hb, hf, hv⟩ := arrayType_keeps l.c element length
  refine ⟨.of_program l hb hf, ?_, hb⟩
  unfold slots
  rw [hv]

theorem quiet_entered {t : Ty} {ct : C.Ty} (ht : isEntered t = true)
    (h : Runs (entered t) l ct l') : Compiles (setting l) t ct ∧ Quiet l l' := by
  have h : Runs (require (.neverCompiled t) l.types[t.ref]?) l ct l' := h
  obtain ⟨hget, rfl⟩ := runs_require.1 h
  exact ⟨.entered ht hget, Quiet.refl _⟩

/-- The C type of a type, and that it costs nothing but the definitions of wrappers. -/
theorem quiet_type : ∀ {t : Ty} {ct : C.Ty} {l l' : Lowering}, Runs (type t) l ct l' →
    Compiles (setting l) t ct ∧ Quiet l l'
  | .bool _, _, _, _, h => quiet_entered rfl h
  | .int _ _, _, _, _, h => quiet_entered rfl h
  | .uint _ _, _, _, _, h => quiet_entered rfl h
  | .float _ _, _, _, _, h => quiet_entered rfl h
  | .struct _ _ _, _, _, _, h => quiet_entered rfl h
  | .array _ element capacity, ct, l, l', h => by
    obtain ⟨et, l₁, he, hb⟩ := runs_bind.1 h
    obtain ⟨hc, hq⟩ := quiet_type he
    obtain ⟨rfl, rfl⟩ := runs_build.1 hb
    exact ⟨.array hc, hq.trans (quiet_arrayType l₁ et (arrayLength capacity))⟩
  | .error _, _, _, _, h => absurd h not_runs_defect
  | .unit _, _, _, _, h => absurd h not_runs_defect
  | .infer _, _, _, _, h => absurd h not_runs_defect
  | .fn _ _ _, _, _, _, h => absurd h not_runs_defect
  | .field _ _ _, _, _, _, h => absurd h not_runs_defect
  | .generic _ _, _, _, _, h => absurd h not_runs_defect

theorem runs_typeOf {k : Checked} {id : IrId} {t : Ty} :
    Runs (typeOf k id) l t l' ↔ k.types.get? id = some t ∧ l' = l :=
  runs_require

theorem runs_varExpr {v : C.VarId} {e : C.Expr} (h : Runs (look (·.varExpr v)) l e l') :
    (∃ name, e = .var v name) ∧ l' = l := by
  obtain ⟨rfl, rfl⟩ := runs_look.1 h
  exact ⟨⟨_, rfl⟩, rfl⟩

theorem declareStmt_eq (p : C.Program) (v : C.VarId) (init : Option C.Expr) :
    ∃ t name, p.declareStmt v init = .declare v t name init := by
  unfold C.Program.declareStmt
  cases p.vars[v.index]? with
  | some x => exact ⟨x.type, x.name, rfl⟩
  | none => exact ⟨.void, "", rfl⟩

theorem functionName_eq {p q : C.Program}
    (h : ∀ i : Nat, (q.functions[i]?).map (·.name) = (p.functions[i]?).map (·.name)) :
    q.functionName = p.functionName := by
  funext f
  unfold C.Program.functionName
  rw [h]

theorem name_of_outline {p q : C.Program} {i : Nat}
    (h : (q.functions[i]?).map C.Function.outline = (p.functions[i]?).map C.Function.outline) :
    (q.functions[i]?).map (·.name) = (p.functions[i]?).map (·.name) := by
  have hname : ∀ o : Option C.Function, o.map (·.name) = (o.map C.Function.outline).map (·.name) := by
    intro o
    cases o <;> rfl
  rw [hname (q.functions[i]?), hname (p.functions[i]?), h]

theorem outline_modify (p : C.Program) (f : C.FunctionId) {g : C.Function → C.Function}
    (hg : ∀ x, (g x).outline = x.outline) (i : Nat) :
    ((p.modifyFunction f g).functions[i]?).map C.Function.outline =
      (p.functions[i]?).map C.Function.outline := by
  unfold C.Program.modifyFunction
  rw [Array.getElem?_modify]
  split
  · rw [Option.map_map]
    exact congrArg (fun q => Option.map q p.functions[i]?) (funext hg)
  · rfl

/-- A new local variable is the next one. -/
theorem changes_newLocal {f : C.FunctionId} {name : String} {ct : C.Ty} {v : C.VarId}
    (h : Runs (build (·.newLocal f name ct)) l v l') :
    v = (slots l).var ∧ Changes l [] l' ∧ slots l' = (slots l).fresh := by
  obtain ⟨rfl, rfl⟩ := runs_build.1 h
  let spelled := C.Program.freshName ((l.c.functions[f.index]?.map (·.taken)).getD []) name
  have houtline := outline_modify l.c f (g := fun g => { g with taken := spelled :: g.taken })
    fun _ => rfl
  have hnames : (l.c.newLocal f name ct).2.functionName = l.c.functionName :=
    functionName_eq fun i => name_of_outline (houtline i)
  refine ⟨rfl, ?_, ?_⟩
  · exact {
      setting := congrArg (Setting.mk _ · _ _) hnames
      active := rfl
      declared := rfl
      blocks := (extend_nil _).symm
      size := Nat.le_refl _
      kept := fun _ _ => rfl
      outline := houtline
      within := fun _ hs => absurd hs List.not_mem_nil
      deeper := fun b hb hb' => absurd hb (Nat.not_le.2 hb') }
  · unfold slots Slots.fresh
    rw [show ((l.c.newLocal f name ct).2.vars).size = l.c.vars.size + 1 from Array.size_push _]

/-! ## Temporary variables -/

theorem loads_load {target : Option C.VarId} {v : C.Expr} (h : Runs (load target) l v l') :
    Loads target v ∧ l' = l := by
  cases target with
  | none =>
    obtain ⟨rfl, rfl⟩ := runs_pure.1 h
    exact ⟨.none, rfl⟩
  | some x =>
    obtain ⟨⟨name, rfl⟩, rfl⟩ := runs_varExpr h
    exact ⟨.some x name, rfl⟩

theorem changes_store {v : C.VarId} {value : C.Expr} {u : Unit}
    (h : Runs (store v value) l u l') :
    ∃ name, Changes l [.assign (.var v name) value] l' ∧ slots l' = slots l := by
  obtain ⟨e, l₁, hv, ha⟩ := runs_bind.1 h
  obtain ⟨⟨name, rfl⟩, rfl⟩ := runs_varExpr hv
  obtain ⟨hc, hs⟩ := (Changes.refl l₁).addPlain ha rfl
  exact ⟨name, hc, hs⟩

theorem changes_storeIn {target : Option C.VarId} {value : Option C.Expr} {u : Unit}
    (h : Runs (storeIn target value) l u l') :
    ∃ s, Stores target value s ∧ Changes l s l' ∧ slots l' = slots l := by
  cases target with
  | none =>
    obtain ⟨_, rfl⟩ := runs_pure.1 h
    exact ⟨[], .noTarget value, .refl l', rfl⟩
  | some v =>
    cases value with
    | none =>
      obtain ⟨_, rfl⟩ := runs_pure.1 h
      exact ⟨[], .noValue _, .refl l', rfl⟩
    | some value =>
      obtain ⟨name, hc, hs⟩ := changes_store h
      exact ⟨_, .both v name value, hc, hs⟩

theorem changes_temporary {t : Ty} {v : C.VarId} (ht : t.isUnit = false)
    (h : Runs (temporary t) l v l') : ∃ d, Temporary (setting l) (slots l) t (some v) d (slots l') ∧
      Changes l d l' := by
  obtain ⟨ct, l₁, hct, h₁⟩ := runs_bind.1 h
  obtain ⟨hc, hq⟩ := quiet_type hct
  obtain ⟨a, l₂, ha, h₂⟩ := runs_bind.1 h₁
  obtain ⟨_, rfl⟩ := runs_activation.1 ha
  obtain ⟨x, l₃, hx, h₃⟩ := runs_bind.1 h₂
  obtain ⟨rfl, hx, hs⟩ := changes_newLocal hx
  obtain ⟨s, l₄, hd, h₄⟩ := runs_bind.1 h₃
  obtain ⟨rfl, rfl⟩ := runs_look.1 hd
  obtain ⟨declared, name, he⟩ := declareStmt_eq l₄.c (slots l₂).var none
  rw [he] at h₄
  obtain ⟨_, l₅, hadd, hp⟩ := runs_bind.1 h₄
  obtain ⟨rfl, rfl⟩ := runs_pure.1 hp
  obtain ⟨hchanges, hslots⟩ := (hq.changes.trans hx).addPlain hadd rfl
  refine ⟨_, ?_, hchanges⟩
  rw [hslots, hs, hq.slots]
  exact .some name declared ht hc

theorem changes_temporary? {t : Ty} {target : Option C.VarId}
    (h : Runs (temporary? t) l target l') :
    ∃ d, Temporary (setting l) (slots l) t target d (slots l') ∧ Changes l d l' := by
  unfold temporary? at h
  cases ht : t.isUnit with
  | true =>
    rw [ht] at h
    obtain ⟨rfl, rfl⟩ := runs_pure.1 h
    exact ⟨[], .none ht, .refl l'⟩
  | false =>
    rw [ht] at h
    obtain ⟨v, l₁, hv, hp⟩ := runs_bind.1 h
    obtain ⟨rfl, rfl⟩ := runs_pure.1 hp
    exact changes_temporary ht hv

/-- A value that moves to a variable, if it has a type to move with. -/
theorem changes_keep {t : Ty} {v w : C.Expr} (h : Runs (keep t v) l w l') :
    ∃ target d s, Temporary (setting l) (slots l) t target d (slots l') ∧ Keeps target v w s ∧
      Changes l (d ++ s) l' := by
  obtain ⟨target, l₁, ht, h⟩ := runs_bind.1 h
  obtain ⟨d, htemp, hd⟩ := changes_temporary? ht
  cases target with
  | none =>
    obtain ⟨rfl, rfl⟩ := runs_pure.1 h
    exact ⟨none, d, [], htemp, .asItIs w, hd.trans (.refl l')⟩
  | some x =>
    obtain ⟨_, l₂, hstore, hv⟩ := runs_bind.1 h
    obtain ⟨spelled, hs, hslots⟩ := changes_store hstore
    obtain ⟨⟨name, rfl⟩, rfl⟩ := runs_varExpr hv
    refine ⟨some x, d, _, ?_, .moved x name spelled v, hd.trans hs⟩
    rw [hslots]
    exact htemp

end Lower

end MiddleEnd
