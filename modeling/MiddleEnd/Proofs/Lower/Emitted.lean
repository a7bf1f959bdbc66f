/-
  Lowering emits what `Emits` says. Every run of lowering that ends without a fault adds statements
  to the innermost open block, and they are related to what was lowered (`emitted_expr` and its
  companions, one for each function of lowering).
-/
import MiddleEnd.Proofs.Lower.Changes

namespace MiddleEnd.Lower

variable {k : Checked} {l l' : Lowering}

/-- A run from `l` to `l'` has emitted what the job takes. -/
def Emitted (k : Checked) (l : Lowering) (j : Job) (l' : Lowering) : Prop :=
  ∃ added, Changes l added l' ∧
    ∀ B, Agrees B l l' → Emits k (setting l) B (slots l) j added (slots l')

namespace Emitted

variable {l₁ : Lowering} {j j₁ j₂ : Job}

/-- One job after the other. -/
theorem both (h₁ : Emitted k l j₁ l₁) (h₂ : Emitted k l₁ j₂ l')
    (rule : ∀ {B m m₁ m' a b}, Emits k (setting l) B m j₁ a m₁ →
      Emits k (setting l) B m₁ j₂ b m' → Emits k (setting l) B m j (a ++ b) m') :
    Emitted k l j l' := by
  obtain ⟨a, ha, hea⟩ := h₁
  obtain ⟨b, hb, heb⟩ := h₂
  refine ⟨a ++ b, ha.trans hb, ?_⟩
  intro B hB
  have he := heb B (hB.right ha)
  rw [ha.setting] at he
  exact rule (hea B (hB.left hb)) he

/-- A job that takes what another one does. -/
theorem same (h : Emitted k l j₁ l')
    (rule : ∀ {B m m' a}, Emits k (setting l) B m j₁ a m' → Emits k (setting l) B m j a m') :
    Emitted k l j l' := by
  obtain ⟨a, ha, hea⟩ := h
  exact ⟨a, ha, fun B hB => rule (hea B hB)⟩

/-- A job before which nothing is emitted. -/
theorem after (hq : Quiet l l₁) (h : Emitted k l₁ j l') : Emitted k l j l' := by
  obtain ⟨a, ha, hea⟩ := h
  refine ⟨a, hq.changes.trans ha, ?_⟩
  intro B hB
  have he := hea B (hB.right hq.changes)
  rw [hq.changes.setting, hq.slots] at he
  exact he

/-- A job that emits nothing. -/
theorem quiet (hq : Quiet l l')
    (rule : ∀ {B}, Emits k (setting l) B (slots l) j [] (slots l)) : Emitted k l j l' := by
  refine ⟨[], hq.changes, ?_⟩
  intro B _
  rw [hq.slots]
  exact rule

/-- A job with one more statement, which refers to no block. -/
theorem plain (h : Emitted k l j₁ l₁) {s : C.Stmt} {u : Unit} (hr : Runs (addStmt s) l₁ u l')
    (hs : s.blocks = [])
    (rule : ∀ {B m m' a}, Emits k (setting l) B m j₁ a m' →
      Emits k (setting l) B m j (a ++ [s]) m') : Emitted k l j l' := by
  obtain ⟨a, ha, hea⟩ := h
  obtain ⟨hadd, hslots⟩ := ha.addPlain hr hs
  refine ⟨a ++ [s], hadd, ?_⟩
  intro B hB
  have hsize : l'.c.blocks.size = l₁.c.blocks.size := by
    obtain ⟨o, rest, _, rfl⟩ := runs_addStmt.1 hr
    rfl
  have hsame : ∀ x, l'.c.statements x = l₁.c.statements x := by
    intro x
    obtain ⟨o, rest, _, rfl⟩ := runs_addStmt.1 hr
    rfl
  rw [hslots]
  refine rule (hea B ?_)
  intro x hx hx'
  rw [hB x hx (by omega), hsame]

end Emitted

/-! ## Blocks -/

/-- Between `l` and `l'` block `b` was opened, in state `l₁`, filled with these statements, and
closed, in state `l₂`. -/
structure Closed (l l₁ : Lowering) (b : C.BlockId) (a : List C.Stmt) (l₂ l' : Lowering) :
    Prop where
  opened : slots l₁ = slots l
  closed : slots l' = slots l₂
  setting : setting l₁ = setting l
  changes : Changes l [] l'
  index : b.index = l.c.blocks.size
  inside : b.index < l'.c.blocks.size
  statements : l'.c.statements b = a
  agrees : ∀ B, Agrees B l l' → Agrees B l₁ l₂

/-- A block of its own: open for a while, it gets all its statements when it is closed. -/
theorem closed_block {l₀ l₁ l₂ : Lowering} {b b' : C.BlockId} {a : List C.Stmt} {u : Unit}
    (hnew : Runs (build (·.newBlock)) l b l₀) (hpush : Runs (pushBlock b) l₀ u l₁)
    (hc : Changes l₁ a l₂) (hpop : Runs popBlock l₂ b' l') : b' = b ∧ Closed l l₁ b a l₂ l' := by
  obtain ⟨rfl, rfl⟩ := runs_build.1 hnew
  rw [runs_pushBlock] at hpush
  have hblocks : l₁.blocks = ⟨⟨l.c.blocks.size⟩, []⟩ :: l.blocks := by rw [hpush]; rfl
  have hsize : l₁.c.blocks.size = l.c.blocks.size + 1 := by
    rw [hpush]
    exact Array.size_push _
  have hempty : l₁.c.statements ⟨l.c.blocks.size⟩ = [] := by
    rw [hpush]
    show (l.c.blocks.push [])[l.c.blocks.size]?.getD [] = []
    rw [Array.getElem?_push_size]
    rfl
  have hold : ∀ x : C.BlockId, x.index < l.c.blocks.size →
      l₁.c.statements x = l.c.statements x := by
    intro x hx
    rw [hpush]
    show (l.c.blocks.push [])[x.index]?.getD [] = _
    rw [Array.getElem?_push, if_neg (by omega)]
    rfl
  obtain ⟨o, rest, ho, hb, hl⟩ := runs_popBlock.1 hpop
  have hopen : o = ⟨⟨l.c.blocks.size⟩, a⟩ ∧ rest = l.blocks := by
    rw [hc.blocks, hblocks] at ho
    cases ho
    exact ⟨rfl, rfl⟩
  obtain ⟨rfl, rfl⟩ := hopen
  have hin : l.c.blocks.size < l₂.c.blocks.size := by
    have := hc.size
    omega
  have hsame : l'.c.statements ⟨l.c.blocks.size⟩ = a := by
    have hwas : l₂.c.statements ⟨l.c.blocks.size⟩ = [] := by
      rw [hc.kept _ (by rw [hsize]; exact Nat.lt_succ_self _), hempty]
    rw [hl]
    show ((l₂.c.blocks.modify l.c.blocks.size (· ++ a))[l.c.blocks.size]?).getD [] = a
    rw [Array.getElem?_modify, if_pos rfl, Array.getElem?_eq_getElem hin]
    unfold C.Program.statements at hwas
    rw [Array.getElem?_eq_getElem hin] at hwas
    rw [Option.map_some, Option.getD_some, show l₂.c.blocks[l.c.blocks.size] = [] from hwas]
    rfl
  have hother : ∀ x : C.BlockId, x ≠ ⟨l.c.blocks.size⟩ →
      l'.c.statements x = l₂.c.statements x := by
    intro x hx
    have hne : l.c.blocks.size ≠ x.index := fun he => hx (by rw [he])
    rw [hl]
    show ((l₂.c.blocks.modify l.c.blocks.size (· ++ a))[x.index]?).getD [] = _
    rw [Array.getElem?_modify, if_neg hne]
    rfl
  have hsize' : l'.c.blocks.size = l₂.c.blocks.size := by
    rw [hl]
    exact Array.size_modify ..
  have hset : setting l₁ = setting l := by rw [hpush]; rfl
  have hchanges : Changes l [] l' := {
    setting := by
      rw [← hset, ← hc.setting, hl]
      rfl
    active := by
      rw [hl, show l.active = l₁.active by rw [hpush]; rfl, ← hc.active]
    declared := by
      rw [hl, show l.declared = l₁.declared by rw [hpush]; rfl, ← hc.declared]
    blocks := by rw [hl, extend_nil]
    size := by omega
    kept := fun x hx => by
      have hne : x ≠ ⟨l.c.blocks.size⟩ := fun he => by
        rw [he] at hx
        exact Nat.lt_irrefl _ hx
      rw [hother x hne, hc.kept x (by omega), hold x hx]
    outline := fun i => by
      rw [show l'.c.functions = l₂.c.functions by rw [hl]; rfl, hc.outline i, hpush]
      rfl
    within := fun _ hs => absurd hs List.not_mem_nil
    deeper := fun y hy hy' s hs x hx => by
      by_cases he : y = ⟨l.c.blocks.size⟩
      · rw [he, hsame] at hs
        have := hc.within s hs x hx
        rw [he]
        constructor
        · show l.c.blocks.size < x.index
          omega
        · omega
      · have hne : y.index ≠ l.c.blocks.size := fun hi => he (by rw [← hi])
        rw [hother y he] at hs
        have := hc.deeper y (by omega) (by omega) s hs x hx
        omega }
  refine ⟨hb, by rw [hpush]; rfl, by rw [hl]; rfl, hset, hchanges, rfl, by rw [hsize']; exact hin,
    hsame, ?_⟩
  intro B hB x hx hx'
  have hne : x ≠ ⟨l.c.blocks.size⟩ := fun he => by
    rw [he] at hx
    exact absurd hx (by show ¬ l₁.c.blocks.size ≤ l.c.blocks.size; omega)
  rw [hB x (by omega) (by omega), hother x hne]

/-- The block of a branch, with what a run of its body has emitted. -/
theorem emitted_inBlock {target : Option C.VarId} {e : Expr} {b : C.BlockId}
    (h : Runs (inBlock target (branch k e)) l b l')
    (ih : ∀ {l v l'}, Runs (branch k e) l v l' → Emitted k l (.inner e v) l') :
    Changes l [] l' ∧ l.c.blocks.size ≤ b.index ∧ b.index < l'.c.blocks.size ∧
      ∀ B, Agrees B l l' →
        Emits k (setting l) B (slots l) (.branch target e) (B b) (slots l') := by
  obtain ⟨_, l₀, ha, h₀⟩ := runs_bind.1 h
  obtain ⟨a, ha⟩ := runs_discard.1 ha
  obtain ⟨_, rfl⟩ := runs_activation.1 ha
  obtain ⟨b', l₁, hnew, h₁⟩ := runs_bind.1 h₀
  obtain ⟨_, l₂, hpush, h₂⟩ := runs_bind.1 h₁
  obtain ⟨v, l₃, hbody, h₃⟩ := runs_bind.1 h₂
  obtain ⟨_, l₄, hstore, hpop⟩ := runs_bind.1 h₃
  obtain ⟨added, hadded, hemits⟩ := ih hbody
  obtain ⟨s, hs, hstored, hslots⟩ := changes_storeIn hstore
  obtain ⟨rfl, hb⟩ := closed_block hnew hpush (hadded.trans hstored) hpop
  have hindex := hb.index
  refine ⟨hb.changes, by omega, hb.inside, ?_⟩
  intro B hB
  have hinner := hemits B ((hb.agrees B hB).left hstored)
  rw [hb.setting, hb.opened] at hinner
  rw [hB b (by omega) hb.inside, hb.statements, hb.closed, hslots]
  exact .branch e hinner hs

/-! ## Names, literals and fields -/

theorem runs_declaration {e : Expr} {id : IrId} (h : Runs (declaration k e) l id l') :
    Check.declaration k.scope e = .ok id ∧ l' = l := by
  obtain ⟨decl, l₁, rdecl, h₁⟩ := runs_bind.1 h
  obtain ⟨hdecl, rfl⟩ := runs_require.1 rdecl
  obtain ⟨d, l₂, rd, h₂⟩ := runs_bind.1 h₁
  obtain ⟨hd, rfl⟩ := runs_require.1 rd
  obtain ⟨hid, rfl⟩ := runs_require.1 h₂
  refine ⟨?_, rfl⟩
  unfold Check.declaration
  rw [hdecl]
  dsimp only
  rw [hd]
  dsimp only
  rw [hid]

theorem emitted_identifier {h : Head} {name : String} {v : C.Expr}
    (hr : Runs (identifier k (.identifier h name) name) l v l') :
    Emitted k l (.expr (.identifier h name) v) l' := by
  obtain ⟨id, l₁, rid, h₁⟩ := runs_bind.1 hr
  obtain ⟨hid, rfl⟩ := runs_declaration rid
  rw [runs_get_bind] at h₁
  cases hv : l₁.vars[id]? with
  | some x =>
    rw [hv] at h₁
    obtain ⟨rfl, rfl⟩ := runs_pure.1 h₁
    exact .quiet (.refl l') (.use h name _ hid hv)
  | none =>
    rw [hv] at h₁
    obtain ⟨hc, rfl⟩ := runs_require.1 h₁
    exact .quiet (.refl l') (.constant h name hid hv hc)

theorem runs_callee {e : Expr} {f : C.FunctionId} (h : Runs (callee k e) l f l') :
    Callee k (setting l) e f ∧ l' = l := by
  obtain ⟨decl, l₁, rdecl, h₁⟩ := runs_bind.1 h
  obtain ⟨hdecl, rfl⟩ := runs_require.1 rdecl
  obtain ⟨id, l₂, rid, h₂⟩ := runs_bind.1 h₁
  obtain ⟨hid, rfl⟩ := runs_require.1 rid
  have h₂ : Runs (require (.notADeclaredFunction e.text) l₂.functions[id]?) l₂ f l' := h₂
  obtain ⟨hf, rfl⟩ := runs_require.1 h₂
  exact ⟨⟨decl, id, hdecl, hid, hf⟩, rfl⟩

theorem spells_float {id : IrId} {lit : Literal} {t : Ty} {v : C.Expr}
    (hk : lit.kind ≠ .bool) (hf : lit.kind = .int → isFloat t = true)
    (ht : k.types.get? id = some t)
    (h : Runs (literal.float lit t (plainSpelling lit.spelling)) l v l') :
    Spells k (setting l) id lit v ∧ Quiet l l' := by
  obtain ⟨x, l₁, rx, h₁⟩ := runs_bind.1 h
  obtain ⟨hx, rfl⟩ := runs_require.1 rx
  obtain ⟨ct, l₂, rct, h₂⟩ := runs_bind.1 h₁
  obtain ⟨rfl, rfl⟩ := runs_pure.1 h₂
  obtain ⟨hc, hq⟩ := quiet_type rct
  exact ⟨.float hk hf ht hx hc, hq⟩

theorem spells_literal {id : IrId} {lit : Literal} {v : C.Expr}
    (h : Runs (literal k id lit) l v l') : Spells k (setting l) id lit v ∧ Quiet l l' := by
  obtain ⟨t, l₁, rt, h₁⟩ := runs_bind.1 h
  obtain ⟨ht, rfl⟩ := runs_typeOf.1 rt
  cases hk : lit.kind with
  | bool =>
    simp only [hk] at h₁
    obtain ⟨b, l₂, rb, h₂⟩ := runs_bind.1 h₁
    obtain ⟨hb, rfl⟩ := runs_require.1 rb
    obtain ⟨rfl, rfl⟩ := runs_pure.1 h₂
    exact ⟨.bool hk hb, .refl l'⟩
  | float =>
    simp only [hk] at h₁
    exact spells_float (by rw [hk]; nofun) (by rw [hk]; nofun) ht h₁
  | int =>
    simp only [hk] at h₁
    cases hf : isFloat t with
    | true =>
      rw [hf] at h₁
      exact spells_float (by rw [hk]; nofun) (fun _ => hf) ht h₁
    | false =>
      rw [hf] at h₁
      obtain ⟨n, l₂, rn, h₂⟩ := runs_bind.1 h₁
      obtain ⟨hn, rfl⟩ := runs_require.1 rn
      obtain ⟨ct, l₃, rct, h₃⟩ := runs_bind.1 h₂
      obtain ⟨rfl, rfl⟩ := runs_pure.1 h₃
      obtain ⟨hc, hq⟩ := quiet_type rct
      exact ⟨.int hk ht hf hn hc, hq⟩

theorem runs_inDeclaredOrder {struct : String} : ∀ {names : List String}
    {given : List (String × C.Expr)} {vs : List C.Expr} {l l' : Lowering},
    Runs (inDeclaredOrder struct given names) l vs l' →
      declaredOrder? given names = some vs ∧ l' = l
  | [], given, vs, l, l', h => by
    obtain ⟨rfl, rfl⟩ := runs_pure.1 h
    exact ⟨rfl, rfl⟩
  | name :: rest, given, vs, l, l', h => by
    obtain ⟨v, l₁, rv, h₁⟩ := runs_bind.1 h
    obtain ⟨hv, rfl⟩ := runs_require.1 rv
    obtain ⟨ws, l₂, rws, h₂⟩ := runs_bind.1 h₁
    obtain ⟨rfl, rfl⟩ := runs_pure.1 h₂
    obtain ⟨hws, rfl⟩ := runs_inDeclaredOrder rws
    refine ⟨?_, rfl⟩
    rw [declaredOrder?, hv, hws]
    rfl

theorem runs_hasValue {e : Expr} {b : Bool} (h : Runs (hasValue k e) l b l') :
    (if b then Valued k e else Valueless k e) ∧ l' = l := by
  have hof : ∀ {e : Expr}, Runs (do return !(← typeOf k e.ir).isUnit : Lower Bool) l b l' →
      ∃ t, k.types.get? e.ir = some t ∧ b = !t.isUnit ∧ l' = l := by
    intro e h
    obtain ⟨t, l₁, rt, hp⟩ := runs_bind.1 h
    obtain ⟨ht, rfl⟩ := runs_typeOf.1 rt
    obtain ⟨hb, rfl⟩ := runs_pure.1 hp
    exact ⟨t, ht, hb, rfl⟩
  cases e with
  | ret g value =>
    obtain ⟨rfl, rfl⟩ := runs_pure.1 h
    exact ⟨trivial, rfl⟩
  | _ =>
    obtain ⟨t, ht, hb, hl⟩ := hof h
    cases hu : t.isUnit with
    | true =>
      rw [hu] at hb
      subst hb
      exact ⟨⟨t, ht, hu⟩, hl⟩
    | false =>
      rw [hu] at hb
      subst hb
      exact ⟨⟨t, ht, hu⟩, hl⟩

theorem struct_of_struct? {t : Ty} {name : String} {decls : Members}
    (h : t.struct? = some (name, decls)) : ∃ r, t = .struct r name decls := by
  cases t with
  | struct r n ds =>
    cases h
    exact ⟨r, rfl⟩
  | _ => cases h

/-- A new variable for a declaration, and the statement that declares it. -/
theorem changes_declare {id : IrId} {name : String} {ct : C.Ty} {init : Option C.Expr} {u : Unit}
    (h : Runs (declare id name ct init) l u l') :
    ∃ s, (∃ declared spelled, s = .declare (slots l).var declared spelled init) ∧
      Changes l [s] l' ∧ slots l' = (slots l).declare id := by
  obtain ⟨a, l₁, ra, h₁⟩ := runs_bind.1 h
  obtain ⟨_, rfl⟩ := runs_activation.1 ra
  obtain ⟨v, l₂, rv, h₂⟩ := runs_bind.1 h₁
  obtain ⟨rfl, hv, hfresh⟩ := changes_newLocal rv
  obtain ⟨_, l₃, rset, h₃⟩ := runs_bind.1 h₂
  have hset := runs_modify.1 rset
  obtain ⟨s, l₄, rs, radd⟩ := runs_bind.1 h₃
  obtain ⟨rfl, rfl⟩ := runs_look.1 rs
  obtain ⟨declared, spelled, he⟩ := declareStmt_eq l₄.c (slots l₁).var init
  have hch : Changes l₁ [] l₄ := by
    rw [hset]
    exact ⟨hv.setting, hv.active, hv.declared, hv.blocks, hv.size, hv.kept, hv.outline, hv.within,
      hv.deeper⟩
  rw [he] at radd
  obtain ⟨hadd, hslots⟩ := hch.addPlain radd rfl
  refine ⟨_, ⟨declared, spelled, rfl⟩, hadd, ?_⟩
  rw [hslots, hset]
  have hnext : l₂.c.vars.size = l₁.c.vars.size + 1 := congrArg Slots.next hfresh
  have hvars : ∀ other, l₂.vars[other]? = l₁.vars[other]? :=
    fun other => congrFun (congrArg Slots.vars hfresh) other
  unfold slots Slots.declare
  simp only [Std.TreeMap.getElem?_insert, Std.compare_eq_iff_eq, hnext, hvars]
  simp only [eq_comm]

/-! ## Expressions and statements -/

/-- Lowering the expression, by itself and as a branch, emits what it takes. -/
def EmitsAll (k : Checked) (e : Expr) : Prop :=
  (∀ {l v l'}, Runs (expr k e) l v l' → Emitted k l (.expr e v) l') ∧
    ∀ {l v l'}, Runs (branch k e) l v l' → Emitted k l (.inner e v) l'

theorem emitted_effect {e : Expr} {u : Unit}
    (he : ∀ {l v l'}, Runs (expr k e) l v l' → Emitted k l (.expr e v) l')
    (h : Runs (effect e (expr k e)) l u l') : Emitted k l (.stmt (.expr e)) l' := by
  obtain ⟨v, l₁, hv, h₁⟩ := runs_bind.1 h
  cases ha : addsItself e with
  | true =>
    rw [ha] at h₁
    obtain ⟨_, rfl⟩ := runs_pure.1 h₁
    exact (he hv).same fun hem => .effectItself e ha hem
  | false =>
    rw [ha] at h₁
    exact (he hv).plain h₁ rfl fun hem => .effect e ha hem

/-- Any expression but a block stands in a branch for its effects. -/
theorem emitsAll_of_expr {e : Expr} (hb : ∀ h ss tail, e ≠ .block h ss tail)
    (he : ∀ {l v l'}, Runs (expr k e) l v l' → Emitted k l (.expr e v) l') : EmitsAll k e := by
  refine ⟨he, ?_⟩
  intro l v l' h
  have h : Runs (effectOnly e (expr k e)) l v l' := by
    cases e with
    | block g ss tail => exact absurd rfl (hb g ss tail)
    | _ => exact h
  obtain ⟨_, l₁, heff, hp⟩ := runs_bind.1 h
  obtain ⟨rfl, rfl⟩ := runs_pure.1 hp
  exact (emitted_effect he heff).same fun hem => .innerOther e hb hem

/-- Adding a statement that refers to blocks just made. -/
theorem changes_refer {l₁ l₂ : Lowering} {a : List C.Stmt} {s : C.Stmt} {u : Unit}
    (ha : Changes l a l₁) (hq : Changes l₁ [] l₂) (hr : Runs (addStmt s) l₂ u l')
    (hs : ∀ x ∈ s.blocks, l₁.c.blocks.size ≤ x.index ∧ x.index < l₂.c.blocks.size) :
    Changes l (a ++ [s]) l' ∧ slots l' = slots l₂ ∧ setting l₂ = setting l ∧
      l'.c.blocks = l₂.c.blocks := by
  have hboth := ha.trans hq
  rw [List.append_nil] at hboth
  have hsize := ha.size
  obtain ⟨hc, hslots⟩ := hboth.add hr fun x hx => ⟨by have := hs x hx; omega, (hs x hx).2⟩
  refine ⟨hc, hslots, hboth.setting, ?_⟩
  obtain ⟨o, rest, _, rfl⟩ := runs_addStmt.1 hr
  rfl

theorem Agrees.of_blocks {B : C.BlockId → List C.Stmt} {l₁ : Lowering} (h : Agrees B l l')
    (hb : l'.c.blocks = l₁.c.blocks) : Agrees B l l₁ := by
  intro x hx hx'
  rw [h x hx (by rw [hb]; exact hx')]
  unfold C.Program.statements
  rw [hb]

theorem emitted_ifOnly {h : Head} {condition body : Expr} (hc : EmitsAll k condition)
    (hb : EmitsAll k body) {v : C.Expr} (hr : Runs (expr k (.ifOnly h condition body)) l v l') :
    Emitted k l (.expr (.ifOnly h condition body) v) l' := by
  rw [expr_ifOnly] at hr
  obtain ⟨c, l₁, rc, h₁⟩ := runs_bind.1 hr
  obtain ⟨b, l₂, rb, h₂⟩ := runs_bind.1 h₁
  obtain ⟨_, l₃, radd, h₃⟩ := runs_bind.1 h₂
  obtain ⟨rfl, rfl⟩ := runs_pure.1 h₃
  obtain ⟨a, ha, hea⟩ := hc.1 rc
  obtain ⟨hq, hlow, hhigh, heb⟩ := emitted_inBlock rb hb.2
  obtain ⟨hall, hslots, hset, hblocks⟩ := changes_refer ha hq radd fun x hx => by
    rw [List.mem_singleton.1 hx]
    exact ⟨hlow, hhigh⟩
  refine ⟨_, hall, ?_⟩
  intro B hB
  have hB₂ := hB.of_blocks hblocks
  have hbody := heb B (hB₂.right ha)
  rw [ha.setting] at hbody
  rw [hslots]
  exact .ifOnly h condition body b (hea B (hB₂.left hq)) hbody

theorem emitted_ifElseIf {h : Head} {condition thenBody elseIf : Expr} (hc : EmitsAll k condition)
    (ht : EmitsAll k thenBody) (he : EmitsAll k elseIf) {v : C.Expr}
    (hr : Runs (expr k (.ifElseIf h condition thenBody elseIf)) l v l') :
    Emitted k l (.expr (.ifElseIf h condition thenBody elseIf) v) l' := by
  rw [expr_ifElseIf] at hr
  obtain ⟨c, l₁, rc, h₁⟩ := runs_bind.1 hr
  obtain ⟨x, l₂, rx, h₂⟩ := runs_bind.1 h₁
  obtain ⟨y, l₃, ry, h₃⟩ := runs_bind.1 h₂
  obtain ⟨_, l₄, radd, h₄⟩ := runs_bind.1 h₃
  obtain ⟨rfl, rfl⟩ := runs_pure.1 h₄
  obtain ⟨a, ha, hea⟩ := hc.1 rc
  obtain ⟨hqx, hlowx, hhighx, hex⟩ := emitted_inBlock rx ht.2
  obtain ⟨hqy, hlowy, hhighy, hey⟩ := emitted_inBlock ry he.2
  have hsizex := hqx.size
  have hsizey := hqy.size
  obtain ⟨hall, hslots, hset, hblocks⟩ := changes_refer ha (hqx.trans hqy) radd fun z hz => by
    rcases List.mem_cons.1 hz with rfl | hz
    · omega
    · rw [List.mem_singleton.1 hz]
      omega
  refine ⟨_, hall, ?_⟩
  intro B hB
  have hB₃ := hB.of_blocks hblocks
  have hthen := hex B ((hB₃.right ha).left hqy)
  have helse := hey B ((hB₃.right ha).right hqx)
  rw [ha.setting] at hthen
  rw [hqx.setting, ha.setting] at helse
  rw [hslots]
  exact .ifElseIf h condition thenBody elseIf x y (hea B (hB₃.left (hqx.trans hqy))) hthen helse

theorem emitted_ifElse {h : Head} {condition thenBody elseBody : Expr} (hc : EmitsAll k condition)
    (ht : EmitsAll k thenBody) (he : EmitsAll k elseBody) {v : C.Expr}
    (hr : Runs (expr k (.ifElse h condition thenBody elseBody)) l v l') :
    Emitted k l (.expr (.ifElse h condition thenBody elseBody) v) l' := by
  rw [expr_ifElse] at hr
  obtain ⟨t, l₀, rt, h₀⟩ := runs_bind.1 hr
  obtain ⟨hty, rfl⟩ := runs_typeOf.1 rt
  obtain ⟨c, l₁, rc, h₁⟩ := runs_bind.1 h₀
  obtain ⟨target, l₂, rtemp, h₂⟩ := runs_bind.1 h₁
  obtain ⟨x, l₃, rx, h₃⟩ := runs_bind.1 h₂
  obtain ⟨y, l₄, ry, h₄⟩ := runs_bind.1 h₃
  obtain ⟨_, l₅, radd, h₅⟩ := runs_bind.1 h₄
  obtain ⟨hload, rfl⟩ := loads_load h₅
  obtain ⟨a, ha, hea⟩ := hc.1 rc
  obtain ⟨d, htemp, hd⟩ := changes_temporary? rtemp
  obtain ⟨hqx, hlowx, hhighx, hex⟩ := emitted_inBlock rx ht.2
  obtain ⟨hqy, hlowy, hhighy, hey⟩ := emitted_inBlock ry he.2
  have hsizex := hqx.size
  have hsizey := hqy.size
  have had := ha.trans hd
  obtain ⟨hall, hslots, hset, hblocks⟩ := changes_refer had (hqx.trans hqy) radd fun z hz => by
    rcases List.mem_cons.1 hz with rfl | hz
    · omega
    · rw [List.mem_singleton.1 hz]
      omega
  rw [List.append_assoc] at hall
  refine ⟨_, hall, ?_⟩
  intro B hB
  have hB₄ := hB.of_blocks hblocks
  have hthen := hex B ((hB₄.right had).left hqy)
  have helse := hey B ((hB₄.right had).right hqx)
  rw [had.setting] at hthen
  rw [hqx.setting, had.setting] at helse
  rw [ha.setting] at htemp
  rw [hslots]
  exact .ifElse h condition thenBody elseBody x y hty
    (hea B ((hB₄.left (hqx.trans hqy)).left hd)) htemp hthen helse hload

theorem emitted_block {h : Head} {ss : List Stmt} {tail : Option Expr}
    (hb : ∀ {l v l'}, Runs (branch k (.block h ss tail)) l v l' →
      Emitted k l (.inner (.block h ss tail) v) l')
    {v : C.Expr} (hr : Runs (expr k (.block h ss tail)) l v l') :
    Emitted k l (.expr (.block h ss tail) v) l' := by
  rw [expr_block] at hr
  obtain ⟨t, l₀, rt, h₀⟩ := runs_bind.1 hr
  obtain ⟨hty, rfl⟩ := runs_typeOf.1 rt
  obtain ⟨target, l₁, rtemp, h₁⟩ := runs_bind.1 h₀
  obtain ⟨x, l₂, rx, h₂⟩ := runs_bind.1 h₁
  obtain ⟨_, l₃, radd, h₃⟩ := runs_bind.1 h₂
  obtain ⟨hload, rfl⟩ := loads_load h₃
  obtain ⟨d, htemp, hd⟩ := changes_temporary? rtemp
  obtain ⟨hqx, hlowx, hhighx, hex⟩ := emitted_inBlock rx hb
  obtain ⟨hall, hslots, hset, hblocks⟩ := changes_refer hd hqx radd fun z hz => by
    rw [List.mem_singleton.1 hz]
    exact ⟨hlowx, hhighx⟩
  refine ⟨_, hall, ?_⟩
  intro B hB
  have hinner := hex B ((hB.of_blocks hblocks).right hd)
  rw [hd.setting] at hinner
  rw [hslots]
  exact .block h ss tail x hty htemp hinner hload

mutual

theorem emitsAll : ∀ e : Expr, EmitsAll k e
  | .literal h lit => emitsAll_of_expr nofun fun hr => by
    obtain ⟨hs, hq⟩ := spells_literal hr
    exact .quiet hq (.literal h lit hs)
  | .identifier h name => emitsAll_of_expr nofun fun hr => emitted_identifier hr
  | .ret h none => emitsAll_of_expr nofun fun {l v l'} hr => by
    obtain ⟨_, l₁, ra, h₁⟩ := runs_bind.1 hr
    obtain ⟨a, ra⟩ := runs_discard.1 ra
    obtain ⟨_, rfl⟩ := runs_activation.1 ra
    obtain ⟨_, l₂, radd, h₂⟩ := runs_bind.1 h₁
    obtain ⟨rfl, rfl⟩ := runs_pure.1 h₂
    have hnone : Emitted k l₁ (.stmts []) l₁ := .quiet (.refl l₁) .stmtsNil
    exact hnone.plain radd rfl fun hn => by
      cases hn
      exact .retUnit h
  | .ret h (some value) => emitsAll_of_expr nofun fun {l v l'} hr => by
    obtain ⟨w, l₁, rw, h₁⟩ := runs_bind.1 hr
    obtain ⟨_, l₂, ra, h₂⟩ := runs_bind.1 h₁
    obtain ⟨a, ra⟩ := runs_discard.1 ra
    obtain ⟨_, rfl⟩ := runs_activation.1 ra
    obtain ⟨_, l₃, radd, h₃⟩ := runs_bind.1 h₂
    obtain ⟨rfl, rfl⟩ := runs_pure.1 h₃
    exact ((emitsAll value).1 rw).plain radd rfl fun he => .ret h value he
  | .call h f args => emitsAll_of_expr nofun fun {l v l'} hr => by
    obtain ⟨g, l₁, rg, h₁⟩ := runs_bind.1 hr
    obtain ⟨hg, rfl⟩ := runs_callee rg
    obtain ⟨vs, l₂, rvs, h₂⟩ := runs_bind.1 h₁
    obtain ⟨rfl, rfl⟩ := runs_look.1 h₂
    obtain ⟨a, ha, hea⟩ := emitted_exprs args rvs
    refine ⟨a, ha, ?_⟩
    intro B hB
    have hnames : l'.c.functionName = l₁.c.functionName := congrArg Setting.names ha.setting
    unfold C.Program.callExpr
    rw [hnames]
    exact .call h f args hg (hea B hB)
  | .assign h target value => emitsAll_of_expr nofun fun {l v l'} hr => by
    obtain ⟨t, l₁, rt, h₁⟩ := runs_bind.1 hr
    obtain ⟨w, l₂, rw, h₂⟩ := runs_bind.1 h₁
    obtain ⟨_, l₃, radd, h₃⟩ := runs_bind.1 h₂
    obtain ⟨rfl, rfl⟩ := runs_pure.1 h₃
    obtain ⟨a, ha, hea⟩ := (emitsAll target).1 rt
    obtain ⟨b, hb, heb⟩ := (emitsAll value).1 rw
    obtain ⟨hall, hslots, hset, hblocks⟩ := changes_refer (ha.trans hb) (.refl l₂) radd nofun
    rw [List.append_assoc] at hall
    refine ⟨_, hall, ?_⟩
    intro B hB
    have hB₂ := hB.of_blocks hblocks
    have hvalue := heb B (hB₂.right ha)
    rw [ha.setting] at hvalue
    rw [hslots]
    exact .assign h target value (hea B (hB₂.left hb)) hvalue
  | .binary h op lhs rhs => emitsAll_of_expr nofun fun {l v l'} hr => by
    obtain ⟨x, l₁, rx, h₁⟩ := runs_bind.1 hr
    obtain ⟨y, l₂, ry, h₂⟩ := runs_bind.1 h₁
    obtain ⟨rfl, rfl⟩ := runs_pure.1 h₂
    exact ((emitsAll lhs).1 rx).both ((emitsAll rhs).1 ry) fun hx hy => .binary h op lhs rhs hx hy
  | .ifOnly h condition body => emitsAll_of_expr nofun fun hr =>
    emitted_ifOnly (emitsAll condition) (emitsAll body) hr
  | .ifElse h condition thenBody elseBody => emitsAll_of_expr nofun fun hr =>
    emitted_ifElse (emitsAll condition) (emitsAll thenBody) (emitsAll elseBody) hr
  | .ifElseIf h condition thenBody elseIf => emitsAll_of_expr nofun fun hr =>
    emitted_ifElseIf (emitsAll condition) (emitsAll thenBody) (emitsAll elseIf) hr
  | .block h ss tail => by
    have hinner : ∀ {l v l'}, Runs (branch k (.block h ss tail)) l v l' →
        Emitted k l (.inner (.block h ss tail) v) l' := by
      intro l v l' hr
      obtain ⟨_, l₁, rs, h₁⟩ := runs_bind.1 hr
      exact (emitted_stmts ss rs).both (emitted_tail tail h₁) fun hs ht => .innerBlock h ss tail hs ht
    exact ⟨fun hr => emitted_block hinner hr, hinner⟩
  | .index h base position => emitsAll_of_expr nofun fun {l v l'} hr => by
    obtain ⟨x, l₁, rx, h₁⟩ := runs_bind.1 hr
    obtain ⟨y, l₂, ry, h₂⟩ := runs_bind.1 h₁
    obtain ⟨rfl, rfl⟩ := runs_pure.1 h₂
    exact ((emitsAll base).1 rx).both ((emitsAll position).1 ry) fun hx hy =>
      .index h base position hx hy
  | .array h values => emitsAll_of_expr nofun fun {l v l'} hr => by
    obtain ⟨t, l₁, rt, h₁⟩ := runs_bind.1 hr
    obtain ⟨hty, rfl⟩ := runs_typeOf.1 rt
    obtain ⟨ct, l₂, rct, h₂⟩ := runs_bind.1 h₁
    obtain ⟨hc, hq⟩ := quiet_type rct
    obtain ⟨vs, l₃, rvs, h₃⟩ := runs_bind.1 h₂
    obtain ⟨rfl, rfl⟩ := runs_pure.1 h₃
    exact ((emitted_exprs values rvs).after hq).same fun hvs => .array h values hty hc hvs
  | .copies h element count => emitsAll_of_expr nofun fun {l v l'} hr => by
    obtain ⟨t, l₁, rt, h₁⟩ := runs_bind.1 hr
    obtain ⟨hty, rfl⟩ := runs_typeOf.1 rt
    obtain ⟨ct, l₂, rct, h₂⟩ := runs_bind.1 h₁
    obtain ⟨_, hq⟩ := quiet_type rct
    obtain ⟨w, l₃, rw, h₃⟩ := runs_bind.1 h₂
    obtain ⟨rfl, rfl⟩ := runs_pure.1 h₃
    exact (((emitsAll element).1 rw).after hq).same fun he => .copies h element count he
  | .struct h path fields => emitsAll_of_expr nofun fun {l v l'} hr => by
    obtain ⟨t, l₁, rt, h₁⟩ := runs_bind.1 hr
    obtain ⟨hty, rfl⟩ := runs_typeOf.1 rt
    cases hs : t.struct? with
    | none =>
      simp only [hs] at h₁
      exact absurd h₁ not_runs_defect
    | some found =>
      obtain ⟨name, decls⟩ := found
      simp only [hs] at h₁
      obtain ⟨r, rfl⟩ := struct_of_struct? hs
      obtain ⟨ct, l₂, rct, h₂⟩ := runs_bind.1 h₁
      obtain ⟨hc, hq⟩ := quiet_type rct
      obtain ⟨given, l₃, rgiven, h₃⟩ := runs_bind.1 h₂
      obtain ⟨vs, l₄, rvs, h₄⟩ := runs_bind.1 h₃
      obtain ⟨hvs, rfl⟩ := runs_inDeclaredOrder rvs
      obtain ⟨rfl, rfl⟩ := runs_pure.1 h₄
      exact ((emitted_fields _ fields rgiven).after hq).same fun hf =>
        .struct h path fields hty hc hf hvs

theorem emitted_exprs : ∀ (es : List Expr) {l : Lowering} {vs : List C.Expr} {l' : Lowering},
    Runs (exprs k es) l vs l' → Emitted k l (.exprs es vs) l'
  | [], l, vs, l', hr => by
    obtain ⟨rfl, rfl⟩ := runs_pure.1 hr
    exact .quiet (.refl l') .exprsNil
  | e :: rest, l, vs, l', hr => by
    obtain ⟨v, l₁, rv, h₁⟩ := runs_bind.1 hr
    obtain ⟨ws, l₂, rws, h₂⟩ := runs_bind.1 h₁
    obtain ⟨rfl, rfl⟩ := runs_pure.1 h₂
    exact ((emitsAll e).1 rv).both (emitted_exprs rest rws) fun hv hws => .exprsCons e rest hv hws

theorem emitted_fields : ∀ (inOrder : Bool) (fs : List FieldInit) {l : Lowering}
    {vs : List (String × C.Expr)} {l' : Lowering},
    Runs (fieldInits k inOrder fs) l vs l' → Emitted k l (.fields inOrder fs vs) l'
  | inOrder, [], l, vs, l', hr => by
    obtain ⟨rfl, rfl⟩ := runs_pure.1 hr
    exact .quiet (.refl l') (.fieldsNil inOrder)
  | inOrder, .mk h name value :: rest, l, vs, l', hr => by
    obtain ⟨v, l₁, rv, h₁⟩ := runs_bind.1 hr
    have hvalue := (emitsAll value).1 rv
    cases hi : inOrder || isInert value with
    | true =>
      rw [hi] at h₁
      obtain ⟨ws, l₂, rws, h₂⟩ := runs_bind.1 h₁
      obtain ⟨rfl, rfl⟩ := runs_pure.1 h₂
      exact hvalue.both (emitted_fields inOrder rest rws) fun hv hws =>
        .fieldsCons inOrder h name value rest hi hv hws
    | false =>
      rw [hi] at h₁
      obtain ⟨t, l₂, rt, h₂⟩ := runs_bind.1 h₁
      obtain ⟨hty, rfl⟩ := runs_typeOf.1 rt
      obtain ⟨w, l₃, rw, h₃⟩ := runs_bind.1 h₂
      obtain ⟨ws, l₄, rws, h₄⟩ := runs_bind.1 h₃
      obtain ⟨rfl, rfl⟩ := runs_pure.1 h₄
      obtain ⟨a, ha, hea⟩ := hvalue
      obtain ⟨target, d, s, htemp, hkeep, hds⟩ := changes_keep rw
      obtain ⟨b, hb, heb⟩ := emitted_fields inOrder rest rws
      refine ⟨a ++ (d ++ (s ++ b)), ?_, ?_⟩
      · rw [← List.append_assoc d]
        exact ha.trans (hds.trans hb)
      · intro B hB
        have hrest := heb B ((hB.right ha).right hds)
        rw [hds.setting, ha.setting] at hrest
        rw [ha.setting] at htemp
        exact .fieldsKeep inOrder h name value rest hi (hea B (hB.left (hds.trans hb))) hty htemp
          hkeep hrest

theorem emitted_tail : ∀ (tail : Option Expr) {l : Lowering} {v : Option C.Expr} {l' : Lowering},
    Runs (tailValue k tail) l v l' → Emitted k l (.tail tail v) l'
  | none, l, v, l', hr => by
    obtain ⟨rfl, rfl⟩ := runs_pure.1 hr
    exact .quiet (.refl l') .tailNone
  | some e, l, v, l', hr => by
    obtain ⟨b, l₁, rb, h₁⟩ := runs_bind.1 hr
    obtain ⟨hb, rfl⟩ := runs_hasValue rb
    cases b with
    | true =>
      obtain ⟨w, l₂, rw, h₂⟩ := runs_bind.1 h₁
      obtain ⟨rfl, rfl⟩ := runs_pure.1 h₂
      exact ((emitsAll e).1 rw).same fun hw => .tailValue e hb hw
    | false =>
      obtain ⟨_, l₂, reff, h₂⟩ := runs_bind.1 h₁
      obtain ⟨rfl, rfl⟩ := runs_pure.1 h₂
      exact (emitted_effect (emitsAll e).1 reff).same fun hw => .tailEffect e hb hw

theorem emitted_stmt : ∀ (st : Stmt) {l : Lowering} {u : Unit} {l' : Lowering},
    Runs (stmt k st) l u l' → Emitted k l (.stmt st) l'
  | .expr e, l, u, l', hr => emitted_effect (emitsAll e).1 hr
  | .bind h pattern ascribed none, l, u, l', hr => by
    obtain ⟨t, l₁, rt, h₁⟩ := runs_bind.1 hr
    obtain ⟨hty, rfl⟩ := runs_typeOf.1 rt
    cases hn : t.isUnit || t.isInfer with
    | true =>
      rw [hn] at h₁
      obtain ⟨_, rfl⟩ := runs_pure.1 h₁
      exact .quiet (.refl l') (.declareNothing h pattern ascribed hty hn)
    | false =>
      rw [hn] at h₁
      obtain ⟨ct, l₂, rct, h₂⟩ := runs_bind.1 h₁
      obtain ⟨hc, hq⟩ := quiet_type rct
      refine Emitted.after hq ?_
      rw [← hq.changes.setting] at hc
      obtain ⟨s, hs, hch⟩ := changes_declare h₂
      obtain ⟨declared, spelled, rfl⟩ := hs
      exact ⟨_, hch.1, fun B _ => by rw [hch.2]; exact .declare h pattern ascribed hty hc⟩
  | .bind h pattern ascribed (some init), l, u, l', hr => by
    obtain ⟨t, l₁, rt, h₁⟩ := runs_bind.1 hr
    obtain ⟨hty, rfl⟩ := runs_typeOf.1 rt
    cases hn : t.isUnit || t.isInfer with
    | true =>
      rw [hn] at h₁
      exact (emitted_effect (emitsAll init).1 h₁).same fun he =>
        .bindNothing h pattern ascribed init hty hn he
    | false =>
      rw [hn] at h₁
      obtain ⟨ct, l₂, rct, h₂⟩ := runs_bind.1 h₁
      obtain ⟨hc, hq⟩ := quiet_type rct
      refine Emitted.after hq ?_
      rw [← hq.changes.setting] at hc
      obtain ⟨v, l₃, rv, h₃⟩ := runs_bind.1 h₂
      obtain ⟨a, ha, hea⟩ := (emitsAll init).1 rv
      obtain ⟨s, hs, hch⟩ := changes_declare h₃
      obtain ⟨declared, spelled, rfl⟩ := hs
      refine ⟨_, ha.trans hch.1, ?_⟩
      intro B hB
      rw [hch.2]
      exact .bind h pattern ascribed init hty hc (hea B (hB.left hch.1))

theorem emitted_stmts : ∀ (sts : List Stmt) {l : Lowering} {u : Unit} {l' : Lowering},
    Runs (stmts k sts) l u l' → Emitted k l (.stmts sts) l'
  | [], l, u, l', hr => by
    obtain ⟨_, rfl⟩ := runs_pure.1 hr
    exact .quiet (.refl l') .stmtsNil
  | st :: rest, l, u, l', hr => by
    obtain ⟨_, l₁, rst, h₁⟩ := runs_bind.1 hr
    exact (emitted_stmt st rst).both (emitted_stmts rest h₁) fun hs hr => .stmtsCons st rest hs hr

end

end MiddleEnd.Lower
