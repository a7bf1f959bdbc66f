/-
  Lowering makes a forest of blocks. A block that has been made is held until a statement or a
  function refers to it (`Owned`); lowering an expression leaves none behind that nothing refers to,
  and the lowering of a body hands its block to the function (`forest_of_runs`).
-/
import MiddleEnd.Proofs.C.Forest
import MiddleEnd.Proofs.Lower.Whole
import MiddleEnd.Proofs.Syntax.Samples

namespace MiddleEnd

/-! ## References in a program that changes -/

namespace C.Program

variable {p q : Program}

theorem bodies_congr
    (h : ∀ i : Nat, (q.functions[i]?).map (·.body) = (p.functions[i]?).map (·.body)) :
    q.bodies = p.bodies := by
  have hlist : q.functions.toList.map (·.body) = p.functions.toList.map (·.body) := by
    refine List.ext_getElem? fun i => ?_
    rw [List.getElem?_map, List.getElem?_map, Array.getElem?_toList, Array.getElem?_toList]
    exact h i
  have hfilter : ∀ fs : List Function, fs.filterMap (·.body) = (fs.map (·.body)).filterMap id :=
    fun fs => (List.filterMap_map (f := fun x : Function => x.body) (g := id) (l := fs)).symm
  unfold bodies
  rw [hfilter, hfilter, hlist]

/-- References depend on the blocks and on the bodies of functions. -/
theorem blockReferences_congr (hb : q.blocks = p.blocks)
    (h : ∀ i : Nat, (q.functions[i]?).map (·.body) = (p.functions[i]?).map (·.body)) :
    q.blockReferences = p.blockReferences ∧ q.handles = p.handles := by
  have hhandles : q.handles = p.handles := by
    unfold handles
    rw [hb]
  have hinner : q.inner = p.inner := by
    funext b
    unfold inner statements
    rw [hb]
  refine ⟨?_, hhandles⟩
  unfold blockReferences
  rw [bodies_congr h, hhandles, hinner]

theorem body_modifyFunction (p : Program) (f : FunctionId) {g : Function → Function}
    (hg : ∀ x, (g x).body = x.body) (i : Nat) :
    ((p.modifyFunction f g).functions[i]?).map (·.body) = (p.functions[i]?).map (·.body) := by
  unfold modifyFunction
  rw [Array.getElem?_modify]
  split
  · rw [Option.map_map]
    exact congrArg (fun h => Option.map h p.functions[i]?) (funext hg)
  · rfl

theorem body_newLocal (p : Program) (f : FunctionId) (name : String) (t : Ty) (i : Nat) :
    ((p.newLocal f name t).2.functions[i]?).map (·.body) = (p.functions[i]?).map (·.body) :=
  p.body_modifyFunction f (g := fun g => { g with
    taken := freshName ((p.functions[f.index]?.map (·.taken)).getD []) name :: g.taken })
    (fun _ => rfl) i

theorem handles_newBlock (p : Program) : p.newBlock.2.handles = p.newBlock.1 ::ₘ p.handles := by
  have hsize : p.newBlock.2.blocks.size = p.blocks.size + 1 := Array.size_push _
  unfold handles
  rw [hsize, Multiset.range_succ, Multiset.map_cons]
  rfl

/-- A new block refers to nothing. -/
theorem blockReferences_newBlock (p : Program) :
    p.newBlock.2.blockReferences = p.blockReferences := by
  have hinner : ∀ b, p.newBlock.2.inner b = p.inner b := by
    intro b
    have hget : p.newBlock.2.blocks[b.index]? =
        if b.index = p.blocks.size then some [] else p.blocks[b.index]? := Array.getElem?_push
    unfold inner statements
    rw [hget]
    split
    · rw [Array.getElem?_eq_none (Nat.le_of_eq (Eq.symm ‹_›))]
      rfl
    · rfl
  have hnone : p.statements p.newBlock.1 = [] := statements_of_le (Nat.le_refl p.blocks.size)
  have hnew : p.inner p.newBlock.1 = 0 := by
    unfold inner
    rw [hnone]
    rfl
  unfold blockReferences
  rw [handles_newBlock, Multiset.cons_bind, hinner, hnew, zero_add]
  exact congrArg (p.bodies + ·) (Multiset.bind_congr fun b _ => hinner b)

theorem handles_extendBlock (p : Program) (b : BlockId) (ss : List Stmt) :
    (p.extendBlock b ss).handles = p.handles := by
  have hsize : (p.extendBlock b ss).blocks.size = p.blocks.size := Array.size_modify ..
  unfold handles
  rw [hsize]

/-- Statements refer to the same blocks once they stand in a block. -/
theorem blockReferences_extendBlock {b : BlockId} (hb : b.index < p.blocks.size)
    (ss : List Stmt) : (p.extendBlock b ss).blockReferences =
      p.blockReferences + (ss.flatMap Stmt.blocks : Multiset BlockId) := by
  have hget : ∀ c : BlockId, (p.extendBlock b ss).blocks[c.index]? =
      if b.index = c.index then (p.blocks[c.index]?).map (· ++ ss) else p.blocks[c.index]? :=
    fun c => Array.getElem?_modify ..
  have hself : (p.extendBlock b ss).inner b =
      p.inner b + (ss.flatMap Stmt.blocks : Multiset BlockId) := by
    unfold inner statements
    rw [hget, if_pos rfl, Array.getElem?_eq_getElem hb, Option.map_some, Option.getD_some,
      Option.getD_some, List.flatMap_append, Multiset.coe_add]
  have hother : ∀ c ∈ p.handles.erase b, (p.extendBlock b ss).inner c = p.inner c := by
    intro c hc
    have hne : c ≠ b := ((Multiset.Nodup.mem_erase_iff p.nodup_handles).1 hc).1
    unfold inner statements
    rw [hget, if_neg fun he => hne (congrArg BlockId.mk he).symm]
  have hall := (Multiset.cons_erase (mem_handles.2 hb)).symm
  unfold blockReferences
  rw [handles_extendBlock, hall, Multiset.cons_bind, Multiset.cons_bind, hself,
    Multiset.bind_congr hother]
  show p.bodies + _ = _
  ac_rfl

/-- A function without a body gets one. -/
theorem bodies_setBody {f : FunctionId} {b : BlockId} {x : Function}
    (hx : p.functions[f.index]? = some x) (hnone : x.body = none) :
    (p.modifyFunction f fun g => { g with body := some b }).bodies = b ::ₘ p.bodies := by
  have hlt : f.index < p.functions.toList.length := (Array.getElem?_eq_some_iff.1 hx).1
  obtain ⟨before, y, after, hlist, hlength, hmodify⟩ :=
    List.exists_of_modify (fun g : Function => { g with body := some b }) hlt
  have hy : y = x := by
    rw [← Array.getElem?_toList, hlist, ← hlength, List.getElem?_append_right (Nat.le_refl _),
      Nat.sub_self] at hx
    exact Option.some.inj hx
  unfold bodies modifyFunction
  rw [Array.toList_modify, hmodify, hlist, hy, List.filterMap_append, List.filterMap_append,
    List.filterMap_cons, List.filterMap_cons, hnone]
  exact Multiset.coe_eq_coe.2 List.perm_middle

end C.Program

namespace Lower

variable {α : Type} {k : Checked} {l l' : Lowering} {f : C.FunctionId}
  {held : Multiset C.BlockId}

/-! ## Held blocks -/

/-- The references to blocks in the C program and in statements that wait. -/
def references (l : Lowering) : Multiset C.BlockId :=
  l.c.blockReferences +
    (l.blocks.flatMap fun o => o.pending.flatMap C.Stmt.blocks : List C.BlockId)

/-- Every block that has been made is held or referred to, exactly once, and function `f` has no
body yet. -/
structure Owned (f : C.FunctionId) (held : Multiset C.BlockId) (l : Lowering) : Prop where
  references : held + references l = l.c.handles
  inside : ∀ o ∈ l.blocks, o.block.index < l.c.blocks.size
  empty : ∀ x, l.c.functions[f.index]? = some x → x.body = none

namespace Owned

/-- A step that touches neither blocks nor bodies. -/
theorem congr (h : Owned f held l) (hb : l'.c.blocks = l.c.blocks) (ho : l'.blocks = l.blocks)
    (hf : ∀ i : Nat, (l'.c.functions[i]?).map (·.body) = (l.c.functions[i]?).map (·.body)) :
    Owned f held l' := by
  obtain ⟨hrefs, hhandles⟩ := C.Program.blockReferences_congr hb hf
  refine ⟨?_, ?_, ?_⟩
  · have hsame : Lower.references l' = Lower.references l := by
      unfold Lower.references
      rw [hrefs, ho]
    rw [hsame, hhandles]
    exact h.references
  · rw [ho, hb]
    exact h.inside
  · intro x hx
    have hbody := hf f.index
    rw [hx] at hbody
    obtain ⟨y, hy, hxy⟩ := Option.map_eq_some_iff.1 hbody.symm
    exact hxy.symm.trans (h.empty y hy)

/-- A step that leaves the outlines of functions. -/
theorem of_outline (h : Owned f held l) (hb : l'.c.blocks = l.c.blocks)
    (ho : l'.blocks = l.blocks) (hf : ∀ i : Nat,
      (l'.c.functions[i]?).map C.Function.outline = (l.c.functions[i]?).map C.Function.outline) :
    Owned f held l' := by
  have hbody : ∀ o : Option C.Function, o.map (·.body) = (o.map C.Function.outline).map (·.body) := by
    intro o
    cases o <;> rfl
  exact h.congr hb ho fun i => by rw [hbody, hf i, ← hbody]

/-- A new block is held, and open. -/
theorem opens {l₁ : Lowering} {b : C.BlockId} {u : Unit} (h : Owned f held l)
    (rnew : Runs (build (·.newBlock)) l b l₁) (rpush : Runs (pushBlock b) l₁ u l') :
    Owned f (b ::ₘ held) l' := by
  obtain ⟨rfl, rfl⟩ := runs_build.1 rnew
  rw [runs_pushBlock.1 rpush]
  have hsize : l.c.newBlock.2.blocks.size = l.c.blocks.size + 1 := Array.size_push _
  refine ⟨?_, ?_, h.empty⟩
  · show _ + (l.c.newBlock.2.blockReferences + _) = l.c.newBlock.2.handles
    rw [C.Program.blockReferences_newBlock, C.Program.handles_newBlock, ← h.references,
      Multiset.cons_add]
    rfl
  · intro o ho
    show o.block.index < l.c.newBlock.2.blocks.size
    rcases List.mem_cons.1 ho with rfl | ho
    · show l.c.blocks.size < _
      omega
    · have := h.inside o ho
      omega

/-- Blocks are held no longer once a statement refers to them. -/
theorem add {s : C.Stmt} {u : Unit} (h : Owned f ((s.blocks : Multiset C.BlockId) + held) l)
    (hr : Runs (addStmt s) l u l') : Owned f held l' := by
  obtain ⟨o, rest, ho, rfl⟩ := runs_addStmt.1 hr
  have hrefs := h.references
  have hinside := h.inside
  unfold Lower.references at hrefs
  rw [ho] at hrefs hinside
  obtain ⟨hfirst, hrest⟩ := List.forall_mem_cons.1 hinside
  refine ⟨?_, List.forall_mem_cons.2 ⟨hfirst, hrest⟩, h.empty⟩
  unfold Lower.references
  rw [← hrefs]
  simp only [List.flatMap_cons, List.flatMap_append, List.flatMap_nil, List.append_nil,
    ← Multiset.coe_add]
  ac_rfl

/-- Closing a block puts the statements that wait into it, with what they refer to. -/
theorem ends {b : C.BlockId} (h : Owned f held l) (hr : Runs popBlock l b l') :
    Owned f held l' := by
  obtain ⟨o, rest, ho, _, rfl⟩ := runs_popBlock.1 hr
  have hrefs := h.references
  have hinside := h.inside
  unfold Lower.references at hrefs
  rw [ho] at hrefs hinside
  obtain ⟨hfirst, hrest⟩ := List.forall_mem_cons.1 hinside
  have hsize : (l.c.extendBlock o.block o.pending).blocks.size = l.c.blocks.size :=
    Array.size_modify ..
  refine ⟨?_, fun o' ho' => ?_, h.empty⟩
  · unfold Lower.references
    show held + ((l.c.extendBlock o.block o.pending).blockReferences + _) =
      (l.c.extendBlock o.block o.pending).handles
    rw [C.Program.blockReferences_extendBlock hfirst, C.Program.handles_extendBlock, ← hrefs,
      List.flatMap_cons, ← Multiset.coe_add]
    ac_rfl
  · show o'.block.index < (l.c.extendBlock o.block o.pending).blocks.size
    rw [hsize]
    exact hrest o' ho'

end Owned

/-! ## Single steps -/

theorem owned_quiet {m : Lower α} (h : ∀ {l a l'}, Runs m l a l' → Quiet l l') :
    Kept (Owned f held) m := by
  intro l a l' hr ho
  have hq := h hr
  exact ho.of_outline hq.blocks (hq.changes.blocks.trans (extend_nil _)) hq.changes.outline

theorem owned_type (t : Ty) : Kept (Owned f held) (type t) :=
  owned_quiet fun hr => (quiet_type hr).2

theorem owned_add {s : C.Stmt} (hs : s.blocks = []) : Kept (Owned f held) (addStmt s) := by
  intro l u l' hr h
  refine Owned.add ?_ hr
  rw [hs, Multiset.coe_nil, zero_add]
  exact h

theorem owned_newLocal (g : C.FunctionId) (name : String) (t : C.Ty) :
    Kept (Owned f held) (build (·.newLocal g name t)) := by
  intro l v l' hr h
  obtain ⟨_, rfl⟩ := runs_build.1 hr
  exact h.congr rfl rfl (l.c.body_newLocal g name t)

theorem owned_setVariable (id : IrId) (v : C.VarId) : Kept (Owned f held) (setVariable id v) :=
  .modify fun _ h => h.congr rfl rfl fun _ => rfl

theorem blocks_declareStmt (p : C.Program) (v : C.VarId) (init : Option C.Expr) :
    (p.declareStmt v init).blocks = [] := by
  obtain ⟨t, name, h⟩ := declareStmt_eq p v init
  rw [h]
  rfl

/-- The statement that declares a variable refers to no block. -/
theorem owned_declareStmt (v : C.VarId) (init : Option C.Expr) {m : C.Stmt → Lower α}
    (h : ∀ s, s.blocks = [] → Kept (Owned f held) (m s)) :
    Kept (Owned f held) (look (·.declareStmt v init) >>= m) := by
  intro l a l' hr ho
  obtain ⟨s, l₁, rs, hm⟩ := runs_bind.1 hr
  obtain ⟨rfl, rfl⟩ := runs_look.1 rs
  exact h _ (blocks_declareStmt ..) hm ho

theorem owned_declare (id : IrId) (name : String) (t : C.Ty) (init : Option C.Expr) :
    Kept (Owned f held) (declare id name t init) :=
  Kept.activation.bind fun a => (owned_newLocal a.function name t).bind fun v =>
    (owned_setVariable id v).bind fun _ => owned_declareStmt v init fun _ => owned_add

theorem owned_temporary (t : Ty) : Kept (Owned f held) (temporary t) :=
  (owned_type t).bind fun ct => Kept.activation.bind fun a =>
    (owned_newLocal a.function "__tmp" ct).bind fun v =>
      owned_declareStmt v none fun _ hs => (owned_add hs).bind fun _ => .pure _

theorem owned_temporary? (t : Ty) : Kept (Owned f held) (temporary? t) := by
  unfold temporary?
  cases t.isUnit with
  | true => exact .pure _
  | false => exact (owned_temporary t).bind fun _ => .pure _

theorem owned_store (v : C.VarId) (value : C.Expr) : Kept (Owned f held) (store v value) :=
  (Kept.look _).bind fun _ => owned_add rfl

theorem owned_storeIn : ∀ (target : Option C.VarId) (value : Option C.Expr),
    Kept (Owned f held) (storeIn target value)
  | some v, some value => owned_store v value
  | some _, none => .pure _
  | none, _ => .pure _

theorem owned_keep (t : Ty) (value : C.Expr) : Kept (Owned f held) (keep t value) :=
  (owned_temporary? t).bind fun target => by
    cases target with
    | some v => exact (owned_store v value).bind fun _ => .look _
    | none => exact .pure _

theorem owned_effect {e : Expr} {value : Lower C.Expr} (hv : Kept (Owned f held) value) :
    Kept (Owned f held) (effect e value) := by
  refine hv.bind fun v => ?_
  cases addsItself e with
  | true => exact .pure _
  | false => exact owned_add rfl

/-! ## Branches -/

/-- Lowering an expression, by itself and as a branch, leaves held what was held. -/
structure OwnedAll (k : Checked) (f : C.FunctionId) (e : Expr) : Prop where
  expr (held : Multiset C.BlockId) : Kept (Owned f held) (expr k e)
  branch (held : Multiset C.BlockId) : Kept (Owned f held) (branch k e)

theorem ownedAll_of_expr {e : Expr} (hb : ∀ g ss tail, e ≠ .block g ss tail)
    (he : ∀ held, Kept (Owned f held) (expr k e)) : OwnedAll k f e := by
  have hkept : ∀ held, Kept (Owned f held) (effectOnly e (expr k e)) :=
    fun held => (owned_effect (he held)).bind fun _ => .pure _
  refine ⟨he, fun held => ?_⟩
  cases e with
  | block g ss tail => exact absurd rfl (hb g ss tail)
  | _ => exact hkept held

/-- The block of a branch is held. -/
theorem owned_inBlock {e : Expr} (h : ∀ held, Kept (Owned f held) (branch k e)) {target : Option C.VarId} {b : C.BlockId}
    (hr : Runs (inBlock target (branch k e)) l b l') (ho : Owned f held l) :
    Owned f (b ::ₘ held) l' := by
  obtain ⟨_, l₀, ra, h₀⟩ := runs_bind.1 hr
  obtain ⟨_, ra⟩ := runs_discard.1 ra
  obtain ⟨_, rfl⟩ := runs_activation.1 ra
  obtain ⟨b', l₁, rnew, h₁⟩ := runs_bind.1 h₀
  obtain ⟨_, l₂, rpush, h₂⟩ := runs_bind.1 h₁
  obtain ⟨v, l₃, rbody, h₃⟩ := runs_bind.1 h₂
  obtain ⟨_, l₄, rstore, rpop⟩ := runs_bind.1 h₃
  obtain ⟨added, hadded, _⟩ := (emitsAll e).2 rbody
  obtain ⟨_, _, hstored, _⟩ := changes_storeIn rstore
  obtain ⟨rfl, _⟩ := closed_block rnew rpush (hadded.trans hstored) rpop
  exact (owned_storeIn target v rstore (h _ rbody (ho.opens rnew rpush))).ends rpop

/-- One block, and a statement that refers to it. -/
theorem owned_one {e : Expr} (h : ∀ held, Kept (Owned f held) (branch k e))
    (target : Option C.VarId) {s : C.BlockId → C.Stmt} (hs : ∀ b, (s b).blocks = [b]) {rest : Lower α}
    (hrest : Kept (Owned f held) rest) :
    Kept (Owned f held) (do
      let b ← inBlock target (branch k e)
      addStmt (s b)
      rest) := by
  intro l a l' hr ho
  obtain ⟨b, l₁, rb, h₁⟩ := runs_bind.1 hr
  obtain ⟨_, l₂, radd, h₂⟩ := runs_bind.1 h₁
  refine hrest h₂ (Owned.add ?_ radd)
  rw [hs, Multiset.coe_singleton, Multiset.singleton_add]
  exact owned_inBlock h rb ho

/-- Two blocks, and a statement that refers to both. -/
theorem owned_two {e e' : Expr} (h : ∀ held, Kept (Owned f held) (branch k e))
    (h' : ∀ held, Kept (Owned f held) (branch k e')) (target : Option C.VarId) {s : C.BlockId → C.BlockId → C.Stmt}
    (hs : ∀ b d, (s b d).blocks = [b, d]) {rest : Lower α} (hrest : Kept (Owned f held) rest) :
    Kept (Owned f held) (do
      let b ← inBlock target (branch k e)
      let d ← inBlock target (branch k e')
      addStmt (s b d)
      rest) := by
  intro l a l' hr ho
  obtain ⟨b, l₁, rb, h₁⟩ := runs_bind.1 hr
  obtain ⟨d, l₂, rd, h₂⟩ := runs_bind.1 h₁
  obtain ⟨_, l₃, radd, h₃⟩ := runs_bind.1 h₂
  refine hrest h₃ (Owned.add ?_ radd)
  have hheld := owned_inBlock h' rd (owned_inBlock h rb ho)
  rw [Multiset.cons_swap] at hheld
  rw [hs, ← Multiset.cons_coe, Multiset.cons_add, Multiset.coe_singleton, Multiset.singleton_add]
  exact hheld

/-! ## Expressions and statements -/

theorem owned_literal (id : IrId) (lit : Literal) : Kept (Owned f held) (literal k id lit) :=
  owned_quiet fun hr => (spells_literal hr).2

mutual

theorem ownedAll : ∀ e : Expr, OwnedAll k f e
  | .literal g lit => ownedAll_of_expr nofun fun _ => owned_literal g.id.ir lit
  | .identifier g name => ownedAll_of_expr nofun fun _ => kept_identifier _ name
  | .ret _ none => ownedAll_of_expr nofun fun _ =>
    Kept.activation.discard.bind fun _ => (owned_add rfl).bind fun _ => .pure _
  | .ret _ (some value) => ownedAll_of_expr nofun fun held =>
    ((ownedAll value).expr held).bind fun _ => Kept.activation.discard.bind fun _ =>
      (owned_add rfl).bind fun _ => .pure _
  | .call _ g args => ownedAll_of_expr nofun fun held =>
    Kept.bind (.same fun hr => (runs_callee hr).2) fun _ =>
      (owned_exprs args held).bind fun _ => .look _
  | .assign _ target value => ownedAll_of_expr nofun fun held =>
    ((ownedAll target).expr held).bind fun _ => ((ownedAll value).expr held).bind fun _ =>
      (owned_add rfl).bind fun _ => .pure _
  | .binary _ op lhs rhs => ownedAll_of_expr nofun fun held =>
    ((ownedAll lhs).expr held).bind fun _ => ((ownedAll rhs).expr held).bind fun _ => .pure _
  | .ifOnly g condition body => ownedAll_of_expr nofun fun held => by
    rw [expr_ifOnly]
    exact ((ownedAll condition).expr held).bind fun c =>
      owned_one (ownedAll body).branch none (s := fun b => .branch c b none) (fun _ => rfl) (.pure _)
  | .ifElse g condition thenBody elseBody => ownedAll_of_expr nofun fun held => by
    rw [expr_ifElse]
    exact (Kept.typeOf _).bind fun t => ((ownedAll condition).expr held).bind fun c =>
      (owned_temporary? t).bind fun target =>
      owned_two (ownedAll thenBody).branch (ownedAll elseBody).branch target
        (s := fun b d => .branch c b (some d)) (fun _ _ => rfl) (kept_load target)
  | .ifElseIf g condition thenBody elseIf => ownedAll_of_expr nofun fun held => by
    rw [expr_ifElseIf]
    exact ((ownedAll condition).expr held).bind fun c =>
      owned_two (ownedAll thenBody).branch (ownedAll elseIf).branch none
        (s := fun b d => .branch c b (some d)) (fun _ _ => rfl) (.pure _)
  | .block g ss tail => by
    have hbranch : ∀ held, Kept (Owned f held) (branch k (.block g ss tail)) :=
      fun held => (owned_stmts ss held).bind fun _ => owned_tail tail held
    exact ⟨fun held => (Kept.typeOf _).bind fun t => (owned_temporary? t).bind fun target =>
      owned_one hbranch target (s := .block) (fun _ => rfl) (kept_load target), hbranch⟩
  | .index _ base position => ownedAll_of_expr nofun fun held =>
    ((ownedAll base).expr held).bind fun _ => ((ownedAll position).expr held).bind fun _ => .pure _
  | .array _ values => ownedAll_of_expr nofun fun held =>
    (Kept.typeOf _).bind fun t => (owned_type t).bind fun _ =>
      (owned_exprs values held).bind fun _ => .pure _
  | .copies _ element count => ownedAll_of_expr nofun fun held =>
    (Kept.typeOf _).bind fun t => (owned_type t).bind fun _ =>
      ((ownedAll element).expr held).bind fun _ => .pure _
  | .struct g path fields => ownedAll_of_expr nofun fun held => (Kept.typeOf _).bind fun t => by
    dsimp only
    cases t.struct? with
    | none => exact .defect _
    | some found =>
      exact (owned_type t).bind fun _ => (owned_fields _ fields held).bind fun _ =>
        Kept.bind (.same fun hr => (runs_inDeclaredOrder hr).2) fun _ => .pure _

theorem owned_exprs : ∀ (es : List Expr) (held : Multiset C.BlockId),
    Kept (Owned f held) (exprs k es)
  | [], _ => .pure _
  | e :: rest, held => ((ownedAll e).expr held).bind fun _ =>
    (owned_exprs rest held).bind fun _ => .pure _

theorem owned_fields (inOrder : Bool) : ∀ (fs : List FieldInit) (held : Multiset C.BlockId),
    Kept (Owned f held) (fieldInits k inOrder fs)
  | [], _ => .pure _
  | .mk _ name value :: rest, held => by
    refine ((ownedAll value).expr held).bind fun v => ?_
    cases inOrder || isInert value with
    | true => exact (owned_fields inOrder rest held).bind fun _ => .pure _
    | false =>
      exact (Kept.typeOf _).bind fun t => (owned_keep t v).bind fun _ =>
        (owned_fields inOrder rest held).bind fun _ => .pure _

theorem owned_tail : ∀ (tail : Option Expr) (held : Multiset C.BlockId),
    Kept (Owned f held) (tailValue k tail)
  | none, _ => .pure _
  | some e, held => Kept.bind (.same fun hr => (runs_hasValue hr).2) fun b => by
    cases b with
    | true => exact ((ownedAll e).expr held).bind fun _ => .pure _
    | false => exact (owned_effect ((ownedAll e).expr held)).bind fun _ => .pure _

theorem owned_stmt : ∀ (st : Stmt) (held : Multiset C.BlockId), Kept (Owned f held) (stmt k st)
  | .expr e, held => owned_effect ((ownedAll e).expr held)
  | .bind g pattern ascribed none, _ => (Kept.typeOf _).bind fun t => by
    cases t.isUnit || t.isInfer with
    | true => exact .pure _
    | false => exact (owned_type t).bind fun ct => owned_declare _ _ ct none
  | .bind g pattern ascribed (some init), held => (Kept.typeOf _).bind fun t => by
    cases t.isUnit || t.isInfer with
    | true => exact owned_effect ((ownedAll init).expr held)
    | false =>
      exact (owned_type t).bind fun ct => ((ownedAll init).expr held).bind fun v =>
        owned_declare _ _ ct (some v)

theorem owned_stmts : ∀ (ss : List Stmt) (held : Multiset C.BlockId),
    Kept (Owned f held) (stmts k ss)
  | [], _ => .pure _
  | s :: rest, held => (owned_stmt s held).bind fun _ => owned_stmts rest held

end

/-! ## Functions -/

theorem owned_parameter (g : C.FunctionId) (name : String) (t : C.Ty) :
    Kept (Owned f held) (build (·.parameter g name t)) := by
  intro l v l' hr h
  obtain ⟨_, rfl⟩ := runs_build.1 hr
  refine h.congr rfl rfl fun i => Eq.trans ?_ (l.c.body_newLocal g name t i)
  exact (l.c.newLocal g name t).2.body_modifyFunction g
    (g := fun x => { x with params := x.params ++ [⟨l.c.vars.size⟩] }) (fun _ => rfl) i

theorem owned_params (g : C.FunctionId) : ∀ (ps : List Param) (ts : Members),
    Kept (Owned f held) (params g ps ts)
  | [], _ => .pure _
  | _ :: _, .nil => .pure _
  | p :: rest, .cons _ t ts => (owned_type t).bind fun ct =>
    (owned_parameter g p.pattern.name ct).bind fun v => (owned_setVariable _ v).bind fun _ =>
      owned_params g rest ts

theorem owned_resultSlot (g : C.FunctionId) (result : Ty) :
    Kept (Owned f held) (resultSlot g result) := by
  unfold resultSlot
  cases result.isUnit with
  | true => exact .pure _
  | false =>
    exact (owned_type result).bind fun ct => (owned_newLocal g "__ret" ct).bind fun v =>
      owned_declareStmt v none fun _ hs => (owned_add hs).bind fun _ => .pure _

theorem owned_finish (slot : Option C.VarId) : ∀ v : Option C.Expr,
    Kept (Owned f held) (finish slot v)
  | none => .pure _
  | some value => by
    cases slot with
    | none => exact owned_add rfl
    | some x => exact (owned_store x value).bind fun _ => (Kept.look _).bind fun _ => owned_add rfl

theorem owned_pushFunction (a : Activation) : Kept (Owned f held) (pushFunction a) :=
  Kept.bind (.modify fun _ h => h.congr rfl rfl fun _ => rfl) fun _ =>
    .modify fun _ h => h.congr rfl rfl fun _ => rfl

theorem owned_popFunction : Kept (Owned f held) popFunction := by
  intro l a l' hr h
  obtain ⟨_, _, rfl⟩ := runs_popFunction.1 hr
  exact h.congr rfl rfl fun _ => rfl

/-- A block that becomes the body of the function is held no longer. -/
theorem Owned.references_setBody {b : C.BlockId} {u : Unit} (h : Owned f (b ::ₘ held) l)
    (hr : Runs (buildOrFail (·.setBody f b)) l u l') :
    held + Lower.references l' = l'.c.handles := by
  obtain ⟨hlt, rfl⟩ := outline_setBody hr
  have hx := Array.getElem?_eq_getElem hlt
  have hbodies := C.Program.bodies_setBody (b := b) hx (h.empty _ hx)
  have hrefs := h.references
  unfold Lower.references C.Program.blockReferences at hrefs ⊢
  rw [hbodies]
  refine Eq.trans ?_ hrefs
  rw [Multiset.cons_add, Multiset.cons_add, Multiset.add_cons, Multiset.cons_add]
  rfl

/-- Filling a function leaves no block held. -/
theorem references_functionBody {i : Item} {d : FunctionDecl} {u : Unit}
    (hf : l.functions[i.head.id.ir]? = some f) (hd : l.isDeclared f = false) (h : Owned f 0 l)
    (hr : Runs (functionBody k i d) l u l') : references l' = l'.c.handles := by
  unfold functionBody at hr
  rw [runs_get_bind] at hr
  obtain ⟨f', l₀, rf, h₀⟩ := runs_bind.1 hr
  obtain ⟨hf', rfl⟩ := runs_require.1 rf
  cases hf.symm.trans hf'
  rw [runs_get_bind, hd] at h₀
  obtain ⟨⟨ps, result⟩, l₀, rsig, h₁⟩ := runs_bind.1 h₀
  obtain ⟨t, l₂, rt, h₂⟩ := runs_bind.1 rsig
  obtain ⟨_, rfl⟩ := runs_require.1 rt
  obtain ⟨_, rfl⟩ := runs_require.1 h₂
  obtain ⟨_, l₁, rparams, h₃⟩ := runs_bind.1 h₁
  obtain ⟨_, l₂, rnew, h₄⟩ := runs_bind.1 h₃
  obtain ⟨_, l₃, rpush, h₅⟩ := runs_bind.1 h₄
  obtain ⟨slot, l₄, rslot, h₆⟩ := runs_bind.1 h₅
  obtain ⟨_, l₅, renter, h₇⟩ := runs_bind.1 h₆
  cases hbody : d.body with
  | block g ss tail =>
    rw [hbody] at h₇
    obtain ⟨v, l₆, rv, h₈⟩ := runs_bind.1 h₇
    obtain ⟨_, l₇, rfinish, h₉⟩ := runs_bind.1 h₈
    obtain ⟨_, l₈, rleave, h₁₀⟩ := runs_bind.1 h₉
    obtain ⟨b, l₉, rpop, h₁₁⟩ := runs_bind.1 h₁₀
    obtain ⟨_, l₁₀, rset, h₁₂⟩ := runs_bind.1 h₁₁
    obtain ⟨_, l₁₁, rdeclare, rnote⟩ := runs_bind.1 h₁₂
    obtain ⟨_, _, ha⟩ := changes_resultSlot rslot
    obtain ⟨_, _, _, hes, _⟩ := emitted_active (h := g) renter rv rfinish rleave
    obtain ⟨rfl, _⟩ := closed_block rnew rpush (ha.trans hes) rpop
    have hopen := (owned_params f d.params ps rparams h).opens rnew rpush
    have hactive := owned_pushFunction _ renter (owned_resultSlot f result rslot hopen)
    have hcontents := ((owned_stmts ss _).bind fun _ => owned_tail tail _) rv hactive
    have hclosed := (owned_popFunction.discard rleave (owned_finish slot v rfinish hcontents)).ends
      rpop
    have hrefs := hclosed.references_setBody rset
    rw [zero_add] at hrefs
    rw [runs_note.1 rnote, runs_modify.1 rdeclare]
    exact hrefs
  | _ =>
    rw [hbody] at h₇
    exact absurd h₇ not_runs_defect

/-! ## Before the bodies -/

/-- There are no blocks yet, and no function has a body. -/
structure Bare (l : Lowering) : Prop where
  idle : Idle l
  blocks : l.c.blocks = #[]
  empty : ∀ (i : Nat) (x : C.Function), l.c.functions[i]? = some x → x.body = none
  undeclared : l.declared.functions = []

namespace Bare

theorem invariant (names : List String) : Invariant names Bare where
  wrap {l} element length h := by
    obtain ⟨hb, hf, _⟩ := arrayType_keeps l.c element length
    exact ⟨h.idle, hb.trans h.blocks, by rw [hf]; exact h.empty, h.undeclared⟩
  add _ hr h := by
    obtain ⟨_, _, hb, _⟩ := runs_addStmt.1 hr
    rw [h.idle.2] at hb
    cases hb
  declare _ ha _ h := by
    rw [h.idle.1] at ha
    cases ha
  begins ha _ _ h := by
    rw [h.idle.1] at ha
    cases ha
  ends _ _ _ hr h := by
    obtain ⟨_, _, hb, _⟩ := runs_popBlock.1 hr
    rw [h.idle.2] at hb
    cases hb

theorem type (t : Ty) : Kept Bare (type t) := kept_type (invariant []) t

theorem types : ∀ ms : Members, Kept Bare (types ms)
  | .nil => .pure _
  | .cons _ t rest => (type t).bind fun _ => (types rest).bind fun _ => .pure _

theorem expr (e : Expr) : Kept Bare (expr k e) :=
  (keptAll (invariant ("__tmp" :: Part.namesAll e.parts)) (List.mem_cons_self ..) e
    (List.subset_cons_self _ _)).expr

/-- Building something other than a block or a function. -/
theorem build {g : C.Program → α × C.Program} (hb : ∀ p, (g p).2.blocks = p.blocks)
    (hf : ∀ p, (g p).2.functions = p.functions) : Kept Bare (build g) := by
  intro l a l' hr h
  obtain ⟨_, rfl⟩ := runs_build.1 hr
  exact ⟨h.idle, (hb _).trans h.blocks, by rw [show (g l.c).2.functions = _ from hf _]; exact h.empty,
    h.undeclared⟩

/-- A step that leaves the C program, the open blocks and what is declared alone. -/
theorem modify {g : Lowering → Lowering} (hc : ∀ l, (g l).c = l.c)
    (ha : ∀ l, (g l).active = l.active) (hb : ∀ l, (g l).blocks = l.blocks)
    (hd : ∀ l, (g l).declared.functions = l.declared.functions) :
    Kept Bare (modify g : Lower PUnit) :=
  .modify fun l h => ⟨⟨(ha l).trans h.idle.1, (hb l).trans h.idle.2⟩, by rw [hc]; exact h.blocks,
    by rw [hc]; exact h.empty, (hd l).trans h.undeclared⟩

theorem note (e : Event) : Kept Bare (note e) :=
  modify (fun _ => rfl) (fun _ => rfl) (fun _ => rfl) fun _ => rfl

theorem setType (id : IrId) (t : C.Ty) : Kept Bare (setType id t) :=
  modify (fun _ => rfl) (fun _ => rfl) (fun _ => rfl) fun _ => rfl

theorem primitives : Kept Bare (enterPrimitives k) :=
  Kept.forM fun _ _ => (Kept.require _ _).bind fun _ => (Kept.require _ _).bind fun _ =>
    (Kept.require _ _).bind fun _ => setType _ _

theorem structItem (i : Item) (d : StructDecl) : Kept Bare (structItem k i d) :=
  (Kept.require _ _).bind fun t => by
    cases t.struct? with
    | none => exact .defect _
    | some found =>
      exact (types found.2).bind fun _ => (build (fun _ => rfl) fun _ => rfl).bind fun _ =>
        (setType _ _).bind fun _ => modify (fun _ => rfl) (fun _ => rfl) (fun _ => rfl) fun _ => rfl

theorem constantItem (i : Item) (d : ConstantDecl) : Kept Bare (constantItem k i d) :=
  (Kept.require _ _).bind fun t => (type t).bind fun _ => (expr d.value).bind fun _ =>
    (build (fun _ => rfl) fun _ => rfl).bind fun _ =>
      Kept.bind (modify (fun _ => rfl) (fun _ => rfl) (fun _ => rfl) fun _ => rfl) fun _ =>
        modify (fun _ => rfl) (fun _ => rfl) (fun _ => rfl) fun _ => rfl

theorem staticItem (i : Item) (d : StaticDecl) : Kept Bare (staticItem k i d) :=
  (Kept.require _ _).bind fun t => (type t).bind fun _ => (expr d.value).bind fun _ =>
    (build (fun _ => rfl) fun _ => rfl).bind fun _ =>
      Kept.bind (modify (fun _ => rfl) (fun _ => rfl) (fun _ => rfl) fun _ => rfl) fun _ =>
        modify (fun _ => rfl) (fun _ => rfl) (fun _ => rfl) fun _ => rfl

theorem functionSignature (i : Item) (d : FunctionDecl) : Kept Bare (functionSignature k i d) := by
  have hsig : Kept Bare (signatureOf k i d) := (Kept.require _ _).bind fun _ => .require _ _
  refine hsig.bind fun s => (types s.1).bind fun ps => ?_
  have hresult : Kept Bare (resultType s.2) := by
    unfold resultType
    cases s.2.isUnit with
    | true => exact .pure _
    | false => exact (type s.2).bind fun _ => .pure _
  refine hresult.bind fun r => Kept.bind (fun l f l' hr h => ?_) fun f =>
    modify (fun _ => rfl) (fun _ => rfl) (fun _ => rfl) fun _ => rfl
  obtain ⟨_, rfl⟩ := runs_buildOrFail.1 hr
  refine ⟨h.idle, h.blocks, fun i x hx => ?_, h.undeclared⟩
  have hx : (l.c.functions.push ⟨d.name, r.getD .void, [], none, []⟩)[i]? = some x := hx
  rw [Array.getElem?_push] at hx
  split at hx
  · cases hx
    rfl
  · exact h.empty i x hx

end Bare

/-! ## Between two bodies -/

/-- Every block is referred to exactly once, and the functions that are declared are those that have
a body. -/
structure Tended (l : Lowering) : Prop where
  references : references l = l.c.handles
  closed : l.blocks = []
  empty : ∀ f : C.FunctionId, l.isDeclared f = false →
    ∀ x, l.c.functions[f.index]? = some x → x.body = none
  full : ∀ f ∈ l.declared.functions, ∃ x b, l.c.functions[f.index]? = some x ∧ x.body = some b
  distinct : l.declared.functions.Nodup
  deeper : ∀ b : C.BlockId, ∀ s ∈ l.c.statements b, ∀ x ∈ s.blocks,
    b.index < x.index ∧ x.index < l.c.blocks.size

namespace Tended

theorem of_bare (h : Bare l) : Tended l where
  references := by
    have hbodies : l.c.bodies = 0 := by
      have hnone : ∀ x ∈ l.c.functions.toList, x.body = none := by
        intro x hx
        obtain ⟨i, hi⟩ := List.mem_iff_getElem?.1 hx
        rw [Array.getElem?_toList] at hi
        exact h.empty i x hi
      unfold C.Program.bodies
      rw [List.filterMap_eq_nil_iff.2 hnone]
      rfl
    have hhandles : l.c.handles = 0 := by
      unfold C.Program.handles
      rw [h.blocks]
      rfl
    unfold Lower.references C.Program.blockReferences
    rw [hbodies, hhandles, h.idle.2]
    rfl
  closed := h.idle.2
  empty f _ := h.empty f.index
  full f hf := by
    rw [h.undeclared] at hf
    exact absurd hf List.not_mem_nil
  distinct := by
    rw [h.undeclared]
    exact List.nodup_nil
  deeper b s hs := by
    unfold C.Program.statements at hs
    rw [h.blocks] at hs
    exact absurd hs List.not_mem_nil

/-- One more function has been filled. -/
theorem fill {id : IrId} {d : FunctionDecl} (h : Tended l) (hd : l.isDeclared f = false)
    (hfilled : Filled k id d f l l') (hrefs : Lower.references l' = l'.c.handles) : Tended l' := by
  have hnew : f ∉ l.declared.functions := fun hm => by
    rw [Lowering.isDeclared, List.contains_iff_mem.2 hm] at hd
    cases hd
  have hindex : ∀ g : C.FunctionId, g ≠ f → g.index ≠ f.index :=
    fun g hne he => hne (by cases g; cases f; exact congrArg _ he)
  exact {
    references := hrefs
    closed := hfilled.open_.trans h.closed
    empty := fun g hg x hx => by
      rw [hfilled.isDeclared, Bool.or_eq_false_iff, beq_eq_false_iff_ne] at hg
      have hout := hfilled.others g.index (hindex g hg.2)
      obtain ⟨y, hy, _, hbody⟩ := body_of_outline hout.symm (congrArg (Option.map _) hx)
      exact hbody.symm.trans (h.empty g hg.1 y hy)
    full := fun g hg => by
      rw [hfilled.declared] at hg
      rcases List.mem_append.1 hg with hg | hg
      · obtain ⟨x, b, hx, hb⟩ := h.full g hg
        have hne : g ≠ f := fun he => hnew (he ▸ hg)
        obtain ⟨y, hy, _, hbody⟩ := body_of_outline (hfilled.others g.index (hindex g hne))
          (congrArg (Option.map _) hx)
        exact ⟨y, b, hy, hbody.trans hb⟩
      · rw [List.mem_singleton.1 hg]
        obtain ⟨x, vs, b, _, hout, _⟩ := hfilled.filled
        obtain ⟨y, hy, _, hbody⟩ := body_of_outline rfl hout
        exact ⟨y, b, hy, hbody⟩
    distinct := by
      rw [hfilled.declared]
      exact List.nodup_append.2 ⟨h.distinct, List.nodup_singleton f, fun a ha b hb he =>
        hnew (by rw [← List.mem_singleton.1 hb, ← he]; exact ha)⟩
    deeper := fun b s hs x hx => by
      have hsize := hfilled.size
      by_cases hold : b.index < l.c.blocks.size
      · rw [hfilled.kept b hold] at hs
        have := h.deeper b s hs x hx
        omega
      · by_cases hin : b.index < l'.c.blocks.size
        · exact hfilled.deeper b (by omega) hin s hs x hx
        · rw [C.Program.statements_of_le (by omega)] at hs
          exact absurd hs List.not_mem_nil }

theorem bodyItem (h : Tended l) {i : Item} {u : Unit} (hr : Runs (bodyItem k i) l u l') :
    Tended l' := by
  unfold Lower.bodyItem at hr
  cases hi : i.kind with
  | function d =>
    rw [hi] at hr
    obtain ⟨f, hf, ⟨_, rfl⟩ | ⟨hd, hfilled⟩⟩ := filled_or_same hr
    · exact h
    · have howned : Owned f 0 l :=
        ⟨by rw [zero_add]; exact h.references, by rw [h.closed]; exact fun _ ho => absurd ho List.not_mem_nil,
          h.empty f hd⟩
      exact h.fill hd hfilled (references_functionBody hf hd howned hr)
  | _ =>
    rw [hi] at hr
    obtain ⟨_, rfl⟩ := runs_pure.1 hr
    exact h

theorem forest (h : Tended l) : l.c.Forest := by
  refine .of_blockReferences ?_ fun b x hx => ?_
  · have hrefs := h.references
    unfold Lower.references at hrefs
    rw [h.closed] at hrefs
    exact (add_zero _).symm.trans hrefs
  · obtain ⟨s, hs, hx⟩ := C.Program.mem_inner.1 hx
    exact (h.deeper b s hs x hx).1

/-- The functions that are declared have all bodies. -/
theorem bodies (h : Tended l) :
    (l.declared.functions.filterMap l.c.body? : Multiset C.BlockId) = l.c.bodies := by
  have hall : l.c.functions.toList.filterMap (·.body) =
      ((List.range l.c.functions.size).map C.FunctionId.mk).filterMap l.c.body? := by
    have hsome : l.c.functions.toList.map some =
        (List.range l.c.functions.size).map (l.c.functions[·]?) := by
      refine List.ext_getElem? fun i => ?_
      rw [List.getElem?_map, List.getElem?_map, Array.getElem?_toList]
      by_cases hi : i < l.c.functions.size
      · rw [List.getElem?_range hi, Array.getElem?_eq_getElem hi]
        simp [hi]
      · rw [List.getElem?_eq_none (by simpa using hi), Array.getElem?_eq_none (by omega)]
        rfl
    have hbind : ∀ fs : List C.Function,
        fs.filterMap (·.body) = (fs.map some).filterMap fun o => o.bind (·.body) := by
      intro fs
      rw [List.filterMap_map]
      rfl
    rw [hbind, hsome, List.filterMap_map, List.filterMap_map]
    rfl
  have hsame : ∀ fs : List C.FunctionId,
      fs.filterMap l.c.body? = (fs.filter fun f => (l.c.body? f).isSome).filterMap l.c.body? := by
    intro fs
    rw [List.filterMap_filter]
    refine List.filterMap_congr fun f _ => ?_
    cases l.c.body? f <;> rfl
  unfold C.Program.bodies
  rw [hall, hsame ((List.range _).map _)]
  refine Multiset.coe_eq_coe.2 (List.Perm.filterMap _ ?_)
  refine (List.perm_ext_iff_of_nodup h.distinct ?_).2 fun f => ?_
  · exact (List.nodup_range.map fun _ _ he => congrArg C.FunctionId.index he).filter _
  rw [List.mem_filter, List.mem_map]
  unfold C.Program.body?
  constructor
  · intro hf
    obtain ⟨x, b, hx, hb⟩ := h.full f hf
    have hlt := (Array.getElem?_eq_some_iff.1 hx).1
    exact ⟨⟨f.index, List.mem_range.2 hlt, rfl⟩, by rw [hx, Option.bind_some, hb]; rfl⟩
  · rintro ⟨_, hsome⟩
    by_contra hf
    have hd : l.isDeclared f = false := by
      rw [Lowering.isDeclared, ← Bool.not_eq_true, List.contains_iff_mem]
      exact hf
    cases hx : l.c.functions[f.index]? with
    | none =>
      rw [hx] at hsome
      cases hsome
    | some x =>
      rw [hx, Option.bind_some, h.empty f hd x hx] at hsome
      cases hsome

end Tended

/-! ## Programs -/

/-- The text of a program ends with the functions that are declared. -/
theorem output_of_runs {u : Unit} (hr : Runs write l u l') : ∃ front, l'.c.output =
    String.join ((front ++ l'.declared.functions.flatMap l'.c.functionLines).map (· ++ "\n")) := by
  unfold write at hr
  rw [runs_get_bind] at hr
  obtain ⟨_, l₁, rnote, h₁⟩ := runs_bind.1 hr
  obtain ⟨_, l₂, rwrite, h₂⟩ := runs_bind.1 h₁
  obtain ⟨hok, hl₂⟩ := runs_buildOrFail.1 rwrite
  rw [runs_get_bind] at h₂
  obtain ⟨front, houtput⟩ := C.Program.output_of_written hok
  obtain ⟨output, hsame⟩ := output_of_write l₁.c l.declared
  have hdeclared : l₁.declared = l.declared := by
    rw [runs_note.1 rnote]
    rfl
  have hlines : l.declared.functions.flatMap l₂.c.functionLines =
      l.declared.functions.flatMap l₁.c.functionLines := by
    rw [hl₂]
    show l.declared.functions.flatMap (l₁.c.write l.declared).2.functionLines = _
    rw [hsame]
    exact List.flatMap_congr fun f _ => C.Program.functionLines_output output f
  rw [runs_note.1 h₂]
  refine ⟨front, ?_⟩
  show l₂.c.output =
    String.join ((front ++ l₂.declared.functions.flatMap l₂.c.functionLines).map (· ++ "\n"))
  rw [show l₂.declared = l.declared by rw [hl₂]; exact hdeclared, hlines, hl₂]
  exact houtput

/-- The blocks of a lowered program form a forest: every block that was made is the body of one
function or stands in one statement, of an earlier block. So they can all be written, and the text
of the program has every statement of every block exactly once. -/
theorem forest_of_runs {p : Program} {target : String} {u : Unit}
    (hr : Runs (do enterPrimitives k; program k p) (.empty target) u l) :
    l.c.Forest ∧ l.c.Printed l.declared.functions := by
  obtain ⟨_, l₁, rprim, h₁⟩ := runs_bind.1 hr
  obtain ⟨_, l₂, rnote, h₂⟩ := runs_bind.1 h₁
  obtain ⟨_, l₃, rstruct, h₃⟩ := runs_bind.1 h₂
  obtain ⟨_, l₄, rvalue, h₄⟩ := runs_bind.1 h₃
  obtain ⟨_, l₅, rsig, h₅⟩ := runs_bind.1 h₄
  obtain ⟨_, l₆, rbody, rwrite⟩ := runs_bind.1 h₅
  have hstart : Bare (.empty target) := ⟨⟨rfl, rfl⟩, rfl, nofun, rfl⟩
  have hbare : Bare l₅ := by
    refine Kept.forM (fun i _ => ?_) rsig (Kept.forM (fun i _ => ?_) rvalue
      (Kept.forM (fun i _ => ?_) rstruct (Bare.note _ rnote (Bare.primitives rprim hstart))))
    · cases i.kind with
      | function d => exact Bare.functionSignature i d
      | _ => exact .pure _
    · cases i.kind with
      | constant d => exact Bare.constantItem i d
      | static d => exact Bare.staticItem i d
      | _ => exact .pure _
    · cases i.kind with
      | struct d => exact Bare.structItem i d
      | _ => exact .pure _
  have htended : Tended l₆ :=
    (chain_of_runs (f := bodyItem k) rbody).invariant (I := fun _ l => Tended l)
      (fun ht hr => ht.bodyItem hr) (.of_bare hbare)
  obtain ⟨front, houtput⟩ := output_of_runs rwrite
  obtain ⟨output, events, rfl⟩ := runs_write rwrite
  have hend : Tended { l₆ with c := { l₆.c with output := output }, events := events } :=
    ⟨htended.references, htended.closed, htended.empty, htended.full, htended.distinct,
      htended.deeper⟩
  exact ⟨hend.forest, hend.forest.printed hend.bodies ⟨front, houtput⟩⟩

open Samples in
/-- `fn f() -> i32 { 1 }  fn g() { if true { f() } }` has three blocks: the bodies of the two
functions, and that of the branch in the second one. -/
theorem forest_of_runs_dropping : ∃ k l, k = (Session.ofUnit dropping).check.2.checked ∧
    Runs (do enterPrimitives k; program k dropping.program) (.empty "linux") () l ∧
    l.c.blocks.size = 3 ∧ l.c.bodies = {⟨0⟩, ⟨1⟩} ∧ l.c.inner ⟨1⟩ = {⟨2⟩} ∧
    l.c.Forest ∧ l.c.Printed l.declared.functions := by
  have hok : ((do enterPrimitives (Session.ofUnit dropping).check.2.checked
                  program (Session.ofUnit dropping).check.2.checked dropping.program :
        Lower Unit).run.run (.empty "linux")).1.toBool = true := by decide +kernel
  have hshape : ((do enterPrimitives (Session.ofUnit dropping).check.2.checked
                     program (Session.ofUnit dropping).check.2.checked dropping.program :
        Lower Unit).run.run (.empty "linux")).2.c.blocks.size = 3 ∧
      ((do enterPrimitives (Session.ofUnit dropping).check.2.checked
           program (Session.ofUnit dropping).check.2.checked dropping.program :
        Lower Unit).run.run (.empty "linux")).2.c.bodies = {⟨0⟩, ⟨1⟩} ∧
      ((do enterPrimitives (Session.ofUnit dropping).check.2.checked
           program (Session.ofUnit dropping).check.2.checked dropping.program :
        Lower Unit).run.run (.empty "linux")).2.c.inner ⟨1⟩ = {⟨2⟩} := by decide +kernel
  generalize (Session.ofUnit dropping).check.2.checked = k at *
  rcases hrun : (do enterPrimitives k; program k dropping.program : Lower Unit).run.run
    (.empty "linux") with ⟨e | u, l⟩
  · rw [hrun] at hok
    cases hok
  · rw [hrun] at hshape
    exact ⟨k, l, rfl, hrun, hshape.1, hshape.2.1, hshape.2.2, forest_of_runs hrun⟩

end Lower

end MiddleEnd
