/-
  The names of parameters and variables. Each is made from a name that the source asks for
  (`FunctionDecl.names`): that name itself or, if the function has a variable of that name already,
  the first free candidate behind it (`Made`). So no two of them have the same name (`Apart`).

  Names of the whole program are not looked at, so a parameter or variable may hide one. That is
  the only way: a function captures a name only if it is made from a name that the function's item
  asks for (`Session.captures_made`).
-/
import MiddleEnd.Proofs.C.FreshNames
import MiddleEnd.Proofs.C.Variables
import MiddleEnd.Proofs.Check.Pass
import MiddleEnd.Proofs.Lower.Whole
import MiddleEnd.Proofs.Syntax.Samples

namespace MiddleEnd

/-- The names that a function asks variables for: those of its parameters and of the `let`s in its
body, and those of its result and of temporaries. -/
def FunctionDecl.names (d : FunctionDecl) : List String :=
  "__ret" :: "__tmp" :: (d.params.map (·.pattern.name) ++ Part.namesAll d.body.parts)

namespace C.Program

/-- The name is one of these, or the first candidate behind one of these that is not taken. -/
def Made (taken names : List String) (name : String) : Prop :=
  ∃ n ∈ names, ∃ j, name = candidate n j ∧ ∀ i < j, candidate n i ∈ taken

theorem Made.mono {taken more names : List String} {name : String} (h : Made taken names name)
    (hsub : taken ⊆ more) : Made more names name := by
  obtain ⟨n, hn, j, hj, hall⟩ := h
  exact ⟨n, hn, j, hj, fun i hi => hsub (hall i hi)⟩

theorem made_freshName {taken names : List String} {n : String} (hn : n ∈ names) :
    Made taken names (freshName taken n) := by
  obtain ⟨j, hj, heq⟩ := exists_firstFree taken n
  exact ⟨n, hn, j, heq, hj.before⟩

/-- A new variable is declared under its name. -/
theorem name?_declareStmt (p : Program) (f : FunctionId) (name : String) (t : Ty)
    (init : Option Expr) : ((p.newLocal f name t).2.declareStmt ⟨p.vars.size⟩ init).name? =
      some (freshName (p.taken f) name) := by
  unfold declareStmt
  rw [newLocal_eq]
  dsimp only
  rw [Array.getElem?_push_size]
  rfl

theorem taken_newLocal (p : Program) (f : FunctionId) (name : String) (t : Ty) :
    p.taken f ⊆ (p.newLocal f name t).2.taken f := by
  unfold taken
  rw [newLocal_eq]
  dsimp only
  rw [Array.getElem?_modify, if_pos rfl]
  cases p.functions[f.index]? with
  | none => exact List.Subset.refl _
  | some g => exact List.subset_cons_self _ _

end C.Program

/-- The variables from number `low` on have different names, which are taken in function `f`. -/
structure C.Program.Apart (p : Program) (f : FunctionId) (low : Nat) : Prop where
  taken : ∀ x, p.functions[f.index]? = some x →
    ∀ i y, low ≤ i → p.vars[i]? = some y → y.name ∈ x.taken
  different : ∀ x, p.functions[f.index]? = some x → ∀ i j y z, low ≤ i → i < j →
    p.vars[i]? = some y → p.vars[j]? = some z → y.name ≠ z.name

namespace C.Program.Apart

variable {p : Program} {f : FunctionId} {low : Nat}

/-- A new variable of the function has a name that none of the others has. -/
theorem newLocal (h : p.Apart f low) (name : String) (t : Ty) :
    (p.newLocal f name t).2.Apart f low := by
  have hvars : ∀ i, (p.newLocal f name t).2.vars[i]? = if i = p.vars.size then
      some ⟨freshName (p.taken f) name, t, none⟩ else p.vars[i]? := fun i => Array.getElem?_push
  have hfunction : ∀ x, (p.newLocal f name t).2.functions[f.index]? = some x →
      ∃ y, p.functions[f.index]? = some y ∧ x.taken = freshName (p.taken f) name :: y.taken := by
    intro x hx
    rw [newLocal_eq] at hx
    dsimp only at hx
    rw [Array.getElem?_modify, if_pos rfl] at hx
    obtain ⟨y, hy, rfl⟩ := Option.map_eq_some_iff.1 hx
    exact ⟨y, hy, rfl⟩
  refine ⟨fun x hx i y hi hy => ?_, fun x hx i j y z hi hj hy hz => ?_⟩
  · obtain ⟨x', hx', htaken⟩ := hfunction x hx
    rw [htaken]
    rw [hvars] at hy
    split at hy
    · cases hy
      exact List.mem_cons_self ..
    · exact List.mem_cons_of_mem _ (h.taken x' hx' i y hi hy)
  · obtain ⟨x', hx', _⟩ := hfunction x hx
    have hnew : freshName (p.taken f) name ∉ x'.taken := by
      have hsame : p.taken f = x'.taken := by
        unfold C.Program.taken
        rw [hx']
        rfl
      rw [← hsame]
      exact freshName_not_mem _ _
    rw [hvars] at hy hz
    split at hz
    · cases hz
      rw [if_neg (by omega)] at hy
      intro he
      have hin := h.taken x' hx' i y hi hy
      rw [he] at hin
      exact hnew hin
    · split at hy
      · have hout : p.vars[j]? = none := Array.getElem?_eq_none (by omega)
        rw [hout] at hz
        cases hz
      · exact h.different x' hx' i j y z hi hj hy hz

/-- Changing anything else of the function. -/
theorem modify (h : p.Apart f low) {g : Function → Function} (hg : ∀ x, (g x).taken = x.taken) :
    (p.modifyFunction f g).Apart f low := by
  have hfunction : ∀ x, (p.modifyFunction f g).functions[f.index]? = some x →
      ∃ y, p.functions[f.index]? = some y ∧ x.taken = y.taken := by
    intro x hx
    have hx : (p.functions.modify f.index g)[f.index]? = some x := hx
    rw [Array.getElem?_modify, if_pos rfl] at hx
    obtain ⟨y, hy, rfl⟩ := Option.map_eq_some_iff.1 hx
    exact ⟨y, hy, hg y⟩
  refine ⟨fun x hx i y hi hy => ?_, fun x hx => ?_⟩
  · obtain ⟨x', hx', htaken⟩ := hfunction x hx
    rw [htaken]
    exact h.taken x' hx' i y hi hy
  · obtain ⟨x', hx', _⟩ := hfunction x hx
    exact h.different x' hx'

end C.Program.Apart

namespace Lower

open C.Program (Made)

variable {k : Checked} {f : C.FunctionId} {names : List String} {l₀ l l' : Lowering}

/-! ## One function -/

/-- From `l₀` to `l` only function `f` has been worked on, and its variables have names made from
these. -/
structure Within (f : C.FunctionId) (names : List String) (l₀ l : Lowering) : Prop where
  active : ∀ a ∈ l.active, a.function = f
  size : l₀.c.vars.size ≤ l.c.vars.size
  vars : ∀ i < l₀.c.vars.size, l.c.vars[i]? = l₀.c.vars[i]?
  fresh : ∀ i x, l₀.c.vars.size ≤ i → l.c.vars[i]? = some x → Made (l.c.taken f) names x.name
  others : ∀ i ≠ f.index, l.c.functions[i]? = l₀.c.functions[i]?
  params : ∀ x, l.c.functions[f.index]? = some x →
    ∀ v ∈ x.params, l₀.c.vars.size ≤ v.index ∧ v.index < l.c.vars.size
  blocks : ∀ b : C.BlockId, l₀.c.blocks.size ≤ b.index → ∀ s ∈ l.c.statements b,
    ∀ name, s.name? = some name → Made (l.c.taken f) names name
  pending : ∀ o ∈ l.blocks, ∀ s ∈ o.pending, ∀ name, s.name? = some name →
    Made (l.c.taken f) names name
  apart : l.c.Apart f l₀.c.vars.size

namespace Within

/-- Nothing done yet, and no block open. -/
theorem start (ha : l.active = []) (hb : l.blocks = [])
    (hp : ∀ x, l.c.functions[f.index]? = some x → x.params = []) : Within f names l l where
  active a h := by rw [ha] at h; cases h
  size := Nat.le_refl _
  vars _ _ := rfl
  fresh i x hi hx := by
    rw [Array.getElem?_eq_none hi] at hx
    cases hx
  others _ _ := rfl
  params x hx v hv := by rw [hp x hx] at hv; cases hv
  blocks b hb s hs := by
    unfold C.Program.statements at hs
    rw [Array.getElem?_eq_none hb] at hs
    cases hs
  pending o ho := by rw [hb] at ho; cases ho
  apart := by
    have hnone : ∀ i, l.c.vars.size ≤ i → l.c.vars[i]? = none := fun i hi =>
      Array.getElem?_eq_none hi
    refine ⟨fun x _ i y hi hy => ?_, fun x _ i j y z hi hj hy _ => ?_⟩
    · rw [hnone i hi] at hy
      cases hy
    · rw [hnone i hi] at hy
      cases hy

/-- A step that touches neither variables, functions nor blocks of the C program. -/
theorem congr (h : Within f names l₀ l) (ha : ∀ a ∈ l'.active, a ∈ l.active ∨ a.function = f)
    (hv : l'.c.vars = l.c.vars) (hf : l'.c.functions = l.c.functions)
    (hb : l'.c.blocks = l.c.blocks) (ho : ∀ o ∈ l'.blocks, o ∈ l.blocks ∨ o.pending = []) :
    Within f names l₀ l' where
  active a hm := by
    rcases ha a hm with hm | hm
    · exact h.active a hm
    · exact hm
  size := by rw [hv]; exact h.size
  vars := by rw [hv]; exact h.vars
  fresh := by
    unfold C.Program.taken
    rw [hv, hf]
    exact h.fresh
  others := by rw [hf]; exact h.others
  params := by rw [hf, hv]; exact h.params
  blocks := by
    unfold C.Program.taken C.Program.statements
    rw [hf, hb]
    exact h.blocks
  pending o hm s hs := by
    unfold C.Program.taken
    rw [hf]
    rcases ho o hm with hm | hm
    · exact h.pending o hm s hs
    · rw [hm] at hs
      cases hs
  apart := by
    refine ⟨?_, ?_⟩
    · rw [hf, hv]
      exact h.apart.taken
    · rw [hf, hv]
      exact h.apart.different

theorem add {s : C.Stmt} {u : Unit} (h : Within f names l₀ l)
    (hs : ∀ name, s.name? = some name → Made (l.c.taken f) names name)
    (hr : Runs (addStmt s) l u l') : Within f names l₀ l' := by
  obtain ⟨o, rest, hb, rfl⟩ := runs_addStmt.1 hr
  refine ⟨h.active, h.size, h.vars, h.fresh, h.others, h.params, h.blocks, ?_, h.apart⟩
  intro o' ho' s' hs'
  have hold := h.pending
  rw [hb] at hold
  rcases List.mem_cons.1 ho' with rfl | ho'
  · rcases List.mem_append.1 hs' with hs' | hs'
    · exact hold o (List.mem_cons_self ..) s' hs'
    · rw [List.mem_singleton.1 hs']
      exact hs
  · exact hold o' (List.mem_cons_of_mem _ ho') s' hs'

/-- A new variable of the function. -/
theorem newLocal {name : String} (h : Within f names l₀ l) (hn : name ∈ names) (t : C.Ty)
    (vars : Std.TreeMap IrId C.VarId) :
    Within f names l₀ { l with c := (l.c.newLocal f name t).2, vars := vars } := by
  have htaken := l.c.taken_newLocal f name t
  have hnew : Made ((l.c.newLocal f name t).2.taken f) names
      (C.Program.freshName (l.c.taken f) name) := (C.Program.made_freshName hn).mono htaken
  have hsize : (l.c.newLocal f name t).2.vars.size = l.c.vars.size + 1 := Array.size_push _
  have hvars : ∀ i, (l.c.newLocal f name t).2.vars[i]? = if i = l.c.vars.size then
      some ⟨C.Program.freshName (l.c.taken f) name, t, none⟩ else l.c.vars[i]? :=
    fun i => Array.getElem?_push
  have hfunctions : ∀ i : Nat, (l.c.newLocal f name t).2.functions[i]? =
      if f.index = i then (l.c.functions[i]?).map fun g =>
        { g with taken := C.Program.freshName (l.c.taken f) name :: g.taken }
      else l.c.functions[i]? := fun i => Array.getElem?_modify ..
  exact {
    active := h.active
    size := by
      rw [hsize]
      exact Nat.le_succ_of_le h.size
    vars := fun i hi => by
      have := h.size
      rw [hvars, if_neg (by omega)]
      exact h.vars i hi
    fresh := fun i x hi hx => by
      rw [hvars] at hx
      split at hx
      · cases hx
        exact hnew
      · exact (h.fresh i x hi hx).mono htaken
    others := fun i hi => by
      rw [hfunctions, if_neg (Ne.symm hi)]
      exact h.others i hi
    params := fun x hx v hv => by
      rw [hfunctions, if_pos rfl] at hx
      obtain ⟨y, hy, rfl⟩ := Option.map_eq_some_iff.1 hx
      have := h.params y hy v hv
      rw [hsize]
      omega
    blocks := fun b hb s hs m hm => (h.blocks b hb s hs m hm).mono htaken
    pending := fun o ho s hs m hm => (h.pending o ho s hs m hm).mono htaken
    apart := h.apart.newLocal name t }

/-- A new variable of the function, and the statement that declares it. -/
theorem declare {name : String} {t : C.Ty} {init : Option C.Expr}
    {vars : Std.TreeMap IrId C.VarId} {u : Unit} (h : Within f names l₀ l) (hn : name ∈ names)
    (hr : Runs (addStmt ((l.c.newLocal f name t).2.declareStmt ⟨l.c.vars.size⟩ init))
      { l with c := (l.c.newLocal f name t).2, vars := vars } u l') : Within f names l₀ l' := by
  refine (h.newLocal hn t vars).add ?_ hr
  intro m hm
  rw [C.Program.name?_declareStmt] at hm
  cases hm
  exact (C.Program.made_freshName hn).mono (l.c.taken_newLocal f name t)

/-- Opening a new block. -/
theorem begins {l₁ : Lowering} {b : C.BlockId} {u : Unit} (h : Within f names l₀ l)
    (hnew : Runs (build (·.newBlock)) l b l₁) (hpush : Runs (pushBlock b) l₁ u l') :
    Within f names l₀ l' := by
  obtain ⟨rfl, rfl⟩ := runs_build.1 hnew
  rw [runs_pushBlock.1 hpush]
  refine ⟨h.active, h.size, h.vars, h.fresh, h.others, h.params, ?_, ?_,
    ⟨h.apart.taken, h.apart.different⟩⟩
  · intro b hb s hs
    exact h.blocks b hb s (mem_statements_newBlock hs)
  · intro o ho
    rcases List.mem_cons.1 ho with rfl | ho
    · exact fun s hs => absurd hs List.not_mem_nil
    · exact h.pending o ho

/-- Closing a block. -/
theorem ends {b : C.BlockId} (h : Within f names l₀ l) (hr : Runs popBlock l b l') :
    Within f names l₀ l' := by
  obtain ⟨o, rest, ho, _, rfl⟩ := runs_popBlock.1 hr
  have hpending := h.pending
  rw [ho] at hpending
  refine ⟨h.active, h.size, h.vars, h.fresh, h.others, h.params, ?_, ?_,
    ⟨h.apart.taken, h.apart.different⟩⟩
  · intro b hb s hs
    rcases mem_statements_extendBlock hs with hs | hs
    · exact h.blocks b hb s hs
    · exact hpending o (List.mem_cons_self ..) s hs
  · exact fun o' ho' => hpending o' (List.mem_cons_of_mem _ ho')

theorem varsKept (h : Within f names l₀ l) : l₀.c.VarsKept l.c := h.vars

/-- Every single step of lowering a body is work on the active function. -/
theorem invariant (f : C.FunctionId) (names : List String) (l₀ : Lowering) :
    Invariant names (Within f names l₀) where
  wrap {l} element length h := by
    obtain ⟨hb, hf, hv⟩ := arrayType_keeps l.c element length
    exact h.congr (fun _ hm => .inl hm) hv hf hb fun _ hm => .inl hm
  add hs hr h := h.add (fun name hn => by rw [hs] at hn; cases hn) hr
  declare {l _ a _ _ _ _ _} hn ha hr h := by
    have hf : a.function = f := h.active a (List.mem_of_head? ha)
    rw [hf] at hr
    exact h.declare hn hr
  begins _ hnew hpush h := h.begins hnew hpush
  ends _ _ _ hr h := h.ends hr

end Within

/-! ## Filling a function -/

/-- One more parameter of the function. -/
theorem Within.parameter {name : String} (h : Within f names l₀ l) (hn : name ∈ names)
    (t : C.Ty) : Within f names l₀ { l with c := (l.c.parameter f name t).2 } := by
  have hlocal := h.newLocal hn t l.vars
  have hfunctions : ∀ i : Nat, (l.c.parameter f name t).2.functions[i]? =
      if f.index = i then ((l.c.newLocal f name t).2.functions[i]?).map
        (fun g => { g with params := g.params ++ [⟨l.c.vars.size⟩] })
      else (l.c.newLocal f name t).2.functions[i]? := fun i => Array.getElem?_modify ..
  have htaken : (l.c.parameter f name t).2.taken f = (l.c.newLocal f name t).2.taken f := by
    unfold C.Program.taken
    rw [hfunctions, if_pos rfl, Option.map_map]
    rfl
  have hsize : (l.c.newLocal f name t).2.vars.size = l.c.vars.size + 1 := Array.size_push _
  exact {
    active := h.active
    size := hlocal.size
    vars := hlocal.vars
    fresh := by
      rw [htaken]
      exact hlocal.fresh
    others := fun i hi => by
      rw [hfunctions, if_neg (Ne.symm hi)]
      exact hlocal.others i hi
    params := fun x hx v hv => by
      rw [hfunctions, if_pos rfl] at hx
      obtain ⟨y, hy, rfl⟩ := Option.map_eq_some_iff.1 hx
      rcases List.mem_append.1 hv with hv | hv
      · exact hlocal.params y hy v hv
      · rw [List.mem_singleton.1 hv]
        exact ⟨h.size, by show l.c.vars.size < (l.c.newLocal f name t).2.vars.size; omega⟩
    blocks := by
      rw [htaken]
      exact hlocal.blocks
    pending := by
      rw [htaken]
      exact hlocal.pending
    apart := hlocal.apart.modify fun _ => rfl }

theorem kept_params (l₀ : Lowering) : ∀ (ps : List Param) (ts : Members),
    (∀ p ∈ ps, p.pattern.name ∈ names) → Kept (Within f names l₀) (params f ps ts)
  | [], _, _ => .pure _
  | _ :: _, .nil, _ => .pure _
  | p :: rest, .cons _ t ts, hs => by
    obtain ⟨hp, hrest⟩ := List.forall_mem_cons.1 hs
    refine (kept_type (Within.invariant f names l₀) t).bind fun ct => ?_
    refine Kept.bind ?_ fun v => (Kept.modify fun l h => ?_).bind fun _ =>
      kept_params l₀ rest ts hrest
    · intro l v l' hr h
      obtain ⟨_, rfl⟩ := runs_build.1 hr
      exact h.parameter hp ct
    · exact h.congr (fun _ hm => .inl hm) rfl rfl rfl fun _ hm => .inl hm

theorem kept_resultSlot (l₀ : Lowering) (hn : "__ret" ∈ names) (result : Ty) :
    Kept (Within f names l₀) (resultSlot f result) := by
  unfold resultSlot
  cases result.isUnit with
  | true => exact .pure _
  | false =>
    refine (kept_type (Within.invariant f names l₀) result).bind fun ct => ?_
    intro l v l' hr h
    obtain ⟨v, l₁, rv, h₁⟩ := runs_bind.1 hr
    obtain ⟨rfl, rfl⟩ := runs_build.1 rv
    obtain ⟨s, l₂, rs, h₂⟩ := runs_bind.1 h₁
    obtain ⟨rfl, rfl⟩ := runs_look.1 rs
    obtain ⟨_, l₃, radd, h₃⟩ := runs_bind.1 h₂
    obtain ⟨_, rfl⟩ := runs_pure.1 h₃
    exact h.declare hn radd

theorem kept_finish (l₀ : Lowering) (slot : Option C.VarId) :
    ∀ v : Option C.Expr, Kept (Within f names l₀) (finish slot v)
  | none => .pure _
  | some value => by
    have hinv := Within.invariant f names l₀
    cases slot with
    | none => exact kept_add hinv rfl
    | some x =>
      exact (kept_store hinv x value).bind fun _ => (Kept.look _).bind fun _ => kept_add hinv rfl

theorem kept_pushFunction (l₀ : Lowering) (slot : Option C.VarId) :
    Kept (Within f names l₀) (pushFunction ⟨f, slot⟩) := by
  refine Kept.bind (Kept.modify fun l h => ?_) fun _ => Kept.modify fun l h => ?_
  · exact h.congr (fun _ hm => .inl hm) rfl rfl rfl fun _ hm => .inl hm
  · refine h.congr (fun a hm => ?_) rfl rfl rfl fun _ hm => .inl hm
    rcases List.mem_cons.1 hm with rfl | hm
    · exact .inr rfl
    · exact .inl hm

theorem kept_popFunction (l₀ : Lowering) : Kept (Within f names l₀) popFunction := by
  intro l a l' hr h
  obtain ⟨rest, ha, rfl⟩ := runs_popFunction.1 hr
  refine h.congr (fun b hb => .inl ?_) rfl rfl rfl fun _ hm => .inl hm
  rw [ha]
  exact List.mem_cons_of_mem _ hb

theorem kept_setBody (l₀ : Lowering) (b : C.BlockId) :
    Kept (Within f names l₀) (buildOrFail (·.setBody f b)) := by
  intro l u l' hr h
  obtain ⟨_, rfl⟩ := outline_setBody hr
  have hfunctions : ∀ i : Nat,
      (l.c.modifyFunction f fun g => { g with body := some b }).functions[i]? =
        if f.index = i then (l.c.functions[i]?).map fun g => { g with body := some b }
        else l.c.functions[i]? := fun i => Array.getElem?_modify ..
  have htaken : (l.c.modifyFunction f fun g => { g with body := some b }).taken f =
      l.c.taken f := by
    unfold C.Program.taken
    rw [hfunctions, if_pos rfl, Option.map_map]
    rfl
  exact {
    active := h.active
    size := h.size
    vars := h.vars
    fresh := by
      rw [htaken]
      exact h.fresh
    others := fun i hi => by
      rw [hfunctions, if_neg (Ne.symm hi)]
      exact h.others i hi
    params := fun x hx v hv => by
      rw [hfunctions, if_pos rfl] at hx
      obtain ⟨y, hy, rfl⟩ := Option.map_eq_some_iff.1 hx
      exact h.params y hy v hv
    blocks := by
      rw [htaken]
      exact h.blocks
    pending := by
      rw [htaken]
      exact h.pending
    apart := h.apart.modify fun _ => rfl }

/-- Filling a function is work on that function only, with names made from those that its item asks
for. -/
theorem within_functionBody {i : Item} {d : FunctionDecl} {u : Unit}
    (hf : l.functions[i.head.id.ir]? = some f) (hd : l.isDeclared f = false)
    (hstart : Within f d.names l l) (hr : Runs (functionBody k i d) l u l') :
    Within f d.names l l' := by
  have hinv := Within.invariant f d.names l
  have htmp : "__tmp" ∈ d.names := List.mem_cons_of_mem _ (List.mem_cons_self ..)
  have hparams : ∀ p ∈ d.params, p.pattern.name ∈ d.names := fun p hp =>
    List.mem_cons_of_mem _ (List.mem_cons_of_mem _
      (List.mem_append_left _ (List.mem_map_of_mem hp)))
  have hbody : Part.namesAll d.body.parts ⊆ d.names := fun n hn =>
    List.mem_cons_of_mem _ (List.mem_cons_of_mem _ (List.mem_append_right _ hn))
  unfold functionBody at hr
  rw [runs_get_bind] at hr
  obtain ⟨f', l₁, rf, h₁⟩ := runs_bind.1 hr
  obtain ⟨hf', rfl⟩ := runs_require.1 rf
  cases hf.symm.trans hf'
  rw [runs_get_bind, hd] at h₁
  obtain ⟨⟨ps, result⟩, l₂, rsig, h₂⟩ := runs_bind.1 h₁
  have hsig : Within f d.names l₁ l₂ :=
    ((Kept.require _ _).bind fun _ => .require _ _) rsig hstart
  obtain ⟨_, l₃, rparams, h₃⟩ := runs_bind.1 h₂
  obtain ⟨_, l₄, rnew, h₄⟩ := runs_bind.1 h₃
  obtain ⟨_, l₅, rpush, h₅⟩ := runs_bind.1 h₄
  have hopen := (kept_params l₁ d.params ps hparams rparams hsig).begins rnew rpush
  obtain ⟨slot, l₆, rslot, h₆⟩ := runs_bind.1 h₅
  obtain ⟨_, l₇, renter, h₇⟩ := runs_bind.1 h₆
  have hin := kept_pushFunction l₁ slot renter
    (kept_resultSlot l₁ (List.mem_cons_self ..) result rslot hopen)
  have hquiet : ∀ {l l' : Lowering}, Within f d.names l₁ l → l'.c = l.c → l'.active = l.active →
      l'.blocks = l.blocks → Within f d.names l₁ l' := by
    intro l l' h hc ha hb
    refine h.congr (fun _ hm => .inl (ha ▸ hm)) ?_ ?_ ?_ fun _ hm => .inl (hb ▸ hm) <;> rw [hc]
  cases hb : d.body with
  | block g ss tail =>
    rw [hb] at h₇ hbody
    have hcontents : Kept (Within f d.names l₁) (contents k ss tail) :=
      (keptAll hinv htmp (.block g ss tail) hbody).branch
    have hdeclare : Kept (Within f d.names l₁) (declareFunction f) :=
      .modify fun l h => hquiet h rfl rfl rfl
    have hnote : Kept (Within f d.names l₁) (note (.lowered d.name)) :=
      .modify fun l h => hquiet h rfl rfl rfl
    exact (hcontents.bind fun v => (kept_finish l₁ slot v).bind fun _ =>
      (kept_popFunction l₁).discard.bind fun _ => hinv.ends.bind fun b =>
      (kept_setBody l₁ b).bind fun _ => hdeclare.bind fun _ => hnote) h₇ hin
  | _ =>
    rw [hb] at h₇
    exact absurd h₇ not_runs_defect

/-! ## All functions -/

/-- The function is filled, and all its parameters and variables have names made from these. Its
blocks are numbered from `low` on and below `high`. -/
structure Named (names : List String) (f : C.FunctionId) (p : C.Program) (x : C.Function)
    (body : C.BlockId) (low high : Nat) : Prop where
  function : p.functions[f.index]? = some x
  filled : x.body = some body
  inside : low ≤ body.index ∧ body.index < high ∧ high ≤ p.blocks.size
  params : ∀ v ∈ x.params, v.index < p.vars.size ∧
    ∀ y, p.vars[v.index]? = some y → Made x.taken names y.name
  blocks : ∀ b : C.BlockId, low ≤ b.index ∧ b.index < high → ∀ s ∈ p.statements b,
    (∀ name, s.name? = some name → Made x.taken names name) ∧
      ∀ c ∈ s.blocks, low ≤ c.index ∧ c.index < high

/-- What a named function captures has a name that one of its variables may have. -/
theorem Named.captures {p : C.Program} {x : C.Function} {body : C.BlockId} {low high : Nat}
    (h : Named names f p x body low high) {name : String} (hc : p.Captures f name) :
    Made (p.taken f) names name := by
  obtain ⟨r, hr, rfl, hn⟩ := hc
  have hreferences : p.functionReferences f =
      p.references p.blocks.size (p.paramNames x) body := by
    unfold C.Program.functionReferences
    rw [h.function]
    dsimp only
    rw [h.filled]
  have htaken : p.taken f = x.taken := by
    unfold C.Program.taken
    rw [h.function]
    rfl
  rw [hreferences] at hr
  rw [htaken]
  refine C.Program.scope_references h.blocks _ _ body ⟨h.inside.1, h.inside.2.1⟩ ?_ hr r.1 hn
  intro m hm
  obtain ⟨v, hv, hvm⟩ := List.mem_filterMap.1 hm
  obtain ⟨y, hy, rfl⟩ := Option.map_eq_some_iff.1 hvm
  exact (h.params v hv).2 y hy

theorem Named.output {p : C.Program} {x : C.Function} {body : C.BlockId} {low high : Nat}
    (h : Named names f p x body low high) (text : String) :
    Named names f { p with output := text } x body low high :=
  ⟨h.function, h.filled, h.inside, h.params, h.blocks⟩

/-- Filling a function names it. -/
theorem Filled.named {id : IrId} {d : FunctionDecl} (h : Filled k id d f l l')
    (hw : Within f names l l') : ∃ x body, Named names f l'.c x body l.c.blocks.size
      l'.c.blocks.size := by
  obtain ⟨y, vs, body, _, hout, hlow, hhigh, _⟩ := h.filled
  cases hx : l'.c.functions[f.index]? with
  | none =>
    rw [hx] at hout
    cases hout
  | some x =>
    rw [hx] at hout
    have htaken : l'.c.taken f = x.taken := by
      unfold C.Program.taken
      rw [hx]
      rfl
    have hfresh := hw.fresh
    have hblocks := hw.blocks
    rw [htaken] at hfresh hblocks
    refine ⟨x, body, hx, ?_, ⟨hlow, hhigh, Nat.le_refl _⟩, ?_, ?_⟩
    · exact congrArg C.Function.body (Option.some.inj hout)
    · intro v hv
      obtain ⟨hge, hlt⟩ := hw.params x hx v hv
      exact ⟨hlt, fun y hy => hfresh v.index y hge hy⟩
    · intro b hb s hs
      refine ⟨hblocks b hb.1 s hs, ?_⟩
      intro c hc
      obtain ⟨hdeeper, hsize⟩ := h.deeper b hb.1 hb.2 s hs c hc
      exact ⟨Nat.le_of_lt (Nat.lt_of_le_of_lt hb.1 hdeeper), hsize⟩

/-- The variables of a function that is filled have different names. -/
theorem Filled.different {id : IrId} {d : FunctionDecl} (h : Filled k id d f l l')
    (hw : Within f names l l') {i j : Nat} {y z : C.Variable} (hi : l.c.vars.size ≤ i)
    (hij : i < j) (hy : l'.c.vars[i]? = some y) (hz : l'.c.vars[j]? = some z) :
    y.name ≠ z.name := by
  obtain ⟨x, _, hnamed⟩ := h.named hw
  exact hw.apart.different x hnamed.function i j y z hi hij hy hz

/-- A function that is named stays so while another one is filled. -/
theorem Named.later {g : C.FunctionId} {more : List String} {id : IrId} {d : FunctionDecl}
    {x : C.Function} {body : C.BlockId} {low high : Nat} (h : Named names g l.c x body low high)
    (hne : g.index ≠ f.index) (hfilled : Filled k id d f l l') (hw : Within f more l l') :
    Named names g l'.c x body low high where
  function := (hw.others g.index hne).trans h.function
  filled := h.filled
  inside := ⟨h.inside.1, h.inside.2.1, Nat.le_trans h.inside.2.2 hfilled.size⟩
  params v hv := by
    obtain ⟨hlt, hnamed⟩ := h.params v hv
    refine ⟨Nat.lt_of_lt_of_le hlt hw.size, ?_⟩
    rw [hw.vars v.index hlt]
    exact hnamed
  blocks b hb := by
    rw [hfilled.kept b (Nat.lt_of_lt_of_le hb.2 h.inside.2.2)]
    exact h.blocks b hb

/-- Between two items no block is open and no function active; functions have no parameters until
they are filled, and then all their variables have names made from those that an item asks for. -/
structure AllNamed (items : List Item) (l : Lowering) : Prop where
  active : l.active = []
  blocks : l.blocks = []
  blank : ∀ f, l.isDeclared f = false → ∀ x, l.c.functions[f.index]? = some x → x.params = []
  named : ∀ f, l.isDeclared f = true → ∃ i ∈ items, ∃ d, i.kind = .function d ∧
    l.functions[i.head.id.ir]? = some f ∧ ∃ x body low high, Named d.names f l.c x body low high

/-- Filling one more function is work on that function only. -/
theorem AllNamed.within {items : List Item} {i : Item} {d : FunctionDecl} {u : Unit}
    (h : AllNamed items l) (hf : l.functions[i.head.id.ir]? = some f)
    (hd : l.isDeclared f = false) (hr : Runs (functionBody k i d) l u l') :
    Within f d.names l l' :=
  within_functionBody hf hd (.start h.active h.blocks (h.blank f hd)) hr

theorem kept_bodyItem {items : List Item} {i : Item} (hi : i ∈ items) :
    Kept (AllNamed items) (bodyItem k i) := by
  unfold bodyItem
  cases hkind : i.kind with
  | function d =>
    intro l u l' hr h
    obtain ⟨f, hf, ⟨_, rfl⟩ | ⟨hd, hfilled⟩⟩ := filled_or_same hr
    · exact h
    have hw := h.within hf hd hr
    have hfunctions : ∀ id, l'.functions[id]? = l.functions[id]? :=
      congrFun (congrArg Setting.functions hfilled.setting)
    have hother : ∀ g : C.FunctionId, g ≠ f → g.index ≠ f.index := by
      intro g hne he
      exact hne (by cases g; cases f; exact congrArg _ he)
    refine ⟨hfilled.active.trans h.active, hfilled.open_.trans h.blocks, ?_, ?_⟩
    · intro g hg x hx
      rw [hfilled.isDeclared, Bool.or_eq_false_iff, beq_eq_false_iff_ne] at hg
      rw [hw.others g.index (hother g hg.2)] at hx
      exact h.blank g hg.1 x hx
    · intro g hg
      by_cases he : g = f
      · obtain ⟨x, body, hnamed⟩ := hfilled.named hw
        rw [he]
        exact ⟨i, hi, d, hkind, (hfunctions _).trans hf, x, body, _, _, hnamed⟩
      · rw [hfilled.isDeclared, beq_eq_false_iff_ne.2 he, Bool.or_false] at hg
        obtain ⟨j, hj, e, he', hjf, x, body, low, high, hnamed⟩ := h.named g hg
        exact ⟨j, hj, e, he', (hfunctions _).trans hjf, x, body, low, high,
          hnamed.later (hother g he) hfilled hw⟩
  | _ => exact .pure _

/-! ## Programs -/

/-- Before the first body is lowered. -/
theorem AllNamed.start {items : List Item} {ids : List IrId} (h : Idle l)
    (hu : Unfilled k ids l) : AllNamed items l := by
  refine ⟨h.1, h.2, hu.1.blank, fun f hf => ?_⟩
  unfold Lowering.isDeclared at hf
  rw [hu.2] at hf
  cases hf

/-- Lowering bodies names functions, and the variables that there are stay as they are. -/
theorem AllNamed.bodies {items is : List Item} (hr : Bodies k l is l') (h : AllNamed items l)
    (hs : is ⊆ items) : AllNamed items l' ∧ l.c.VarsKept l'.c := by
  induction hr with
  | nil l => exact ⟨h, .refl _⟩
  | @cons l l₁ l' i rest hi _ ih =>
    obtain ⟨hmem, hrest⟩ := List.cons_subset.1 hs
    have hkept : l.c.VarsKept l₁.c := by
      have hrun := hi
      rcases runs_bodyItem hi with ⟨d, f, hd, hf, ⟨_, rfl⟩ | ⟨hnew, _⟩⟩ | ⟨_, rfl⟩
      · exact .refl _
      · unfold bodyItem at hrun
        rw [hd] at hrun
        exact (h.within hf hnew hrun).varsKept
      · exact .refl _
    obtain ⟨hall, hlater⟩ := ih (kept_bodyItem hmem hi h) hrest
    exact ⟨hall, hkept.trans hlater⟩

/-- In a lowered program all functions are named. -/
theorem allNamed_of_runs {p : Program} {target : String} {u : Unit}
    (hr : Runs (do enterPrimitives k; program k p) (.empty target) u l') :
    AllNamed p.items l' := by
  obtain ⟨l₀, l₁, hphases, hunfilled, hchain, rwrite⟩ := bodies_of_runs hr
  have hidle : Idle l₀ := hphases Idle (Idle.phases p) ⟨rfl, rfl⟩
  have hall : ∀ i ∈ p.items, i.declared ⊆ p.items.flatMap Item.declared :=
    fun i hi id hid => List.mem_flatMap.2 ⟨i, hi, hid⟩
  obtain ⟨hend, _⟩ :=
    AllNamed.bodies hchain (.start hidle (hunfilled _ fun i hi _ => hall i hi)) (List.Subset.refl _)
  obtain ⟨text, _, rfl⟩ := runs_write rwrite
  refine ⟨hend.active, hend.blocks, hend.blank, ?_⟩
  intro f hf
  obtain ⟨i, hi, d, hd, hfi, x, body, low, high, hnamed⟩ := hend.named f hf
  exact ⟨i, hi, d, hd, hfi, x, body, low, high, hnamed.output text⟩

end Lower

namespace Session

/-- In a lowered program a name of the whole program is hidden where a function refers to it only if
the item of the function asks for a variable of that name, or of one that the name is the first free
candidate for. -/
theorem captures_made (u : CompilationUnit) (target : String)
    (hok : ((ofUnit u).check.2.lower target).1 = .ok ()) :
    ∀ f ∈ ((ofUnit u).check.2.lower target).2.declared.functions, ∃ i ∈ u.program.items,
      ∃ d, i.kind = .function d ∧
        ((ofUnit u).check.2.lower target).2.functions[i.head.id.ir]? = some f ∧
        ∀ name, ((ofUnit u).check.2.lower target).2.c.Captures f name →
          C.Program.Made (((ofUnit u).check.2.lower target).2.c.taken f) d.names name := by
  intro f hf
  have hr : Lower.Runs
      (do Lower.enterPrimitives (ofUnit u).check.2.checked
          Lower.program (ofUnit u).check.2.checked (ofUnit u).check.2.program)
      (.empty target) () ((ofUnit u).check.2.lower target).2 := Prod.ext hok rfl
  obtain ⟨i, hi, d, hd, hfi, x, body, low, high, hnamed⟩ :=
    (Lower.allNamed_of_runs hr).named f (List.contains_iff_mem.2 hf)
  rw [check_program] at hi
  exact ⟨i, hi, d, hd, hfi, fun _ hc => hnamed.captures hc⟩

open Samples in
/-- In `const x: i32 = 1;  fn f() { let x = x; }` the variable hides the constant in its own initial
value. -/
theorem captures_made_capturing : (ofUnit capturing).Clean ∧
    ((ofUnit capturing).check.2.lower "linux").1.toBool = true ∧
    ∃ f ∈ ((ofUnit capturing).check.2.lower "linux").2.declared.functions,
      ((ofUnit capturing).check.2.lower "linux").2.c.Captures f "x" ∧
      ∃ d, C.Program.Made (((ofUnit capturing).check.2.lower "linux").2.c.taken f)
        (FunctionDecl.names d) "x" := by
  have hclean : (ofUnit capturing).Clean := by decide +kernel
  have hok : ((ofUnit capturing).check.2.lower "linux").1.toBool = true := by decide +kernel
  have hrun : ((ofUnit capturing).check.2.lower "linux").1 = .ok () := by
    generalize ((ofUnit capturing).check.2.lower "linux").1 = r at hok
    cases r with
    | error e => cases hok
    | ok a => rfl
  have hf : (⟨0⟩ : C.FunctionId) ∈
      ((ofUnit capturing).check.2.lower "linux").2.declared.functions := by decide +kernel
  have hc : ((ofUnit capturing).check.2.lower "linux").2.c.Captures ⟨0⟩ "x" := by
    decide +kernel
  obtain ⟨_, _, d, _, _, hmade⟩ := captures_made capturing "linux" hrun ⟨0⟩ hf
  exact ⟨hclean, hok, ⟨0⟩, hf, hc, d, hmade "x" hc⟩

end Session

end MiddleEnd
