/-
  Lowering the body of a function fills one function of the C program and leaves all others alone
  (`Filled`).
-/
import MiddleEnd.Proofs.Lower.Emitted

namespace MiddleEnd.Lower

variable {k : Checked} {l l' : Lowering}

/-- The outline of a function once it has these parameters. -/
def withParams (vs : List C.VarId) (f : C.Function) : C.Function :=
  { f.outline with params := f.params ++ vs }

/-! ## Parameters -/

/-- Function `f` has got more parameters, and nothing else is different. -/
structure Extends (f : C.FunctionId) (vs : List C.VarId) (l l' : Lowering) : Prop where
  setting : setting l' = setting l
  active : l'.active = l.active
  declared : l'.declared = l.declared
  open_ : l'.blocks = l.blocks
  blocks : l'.c.blocks = l.c.blocks
  others : ∀ i : Nat, i ≠ f.index →
    (l'.c.functions[i]?).map C.Function.outline = (l.c.functions[i]?).map C.Function.outline
  params : (l'.c.functions[f.index]?).map C.Function.outline =
    (l.c.functions[f.index]?).map (withParams vs)

theorem Extends.refl (f : C.FunctionId) (l : Lowering) : Extends f [] l l where
  setting := rfl
  active := rfl
  declared := rfl
  open_ := rfl
  blocks := rfl
  others _ _ := rfl
  params := by
    cases l.c.functions[f.index]? with
    | none => rfl
    | some x =>
      rw [Option.map_some, Option.map_some, withParams, List.append_nil]
      rfl

theorem Extends.trans {f : C.FunctionId} {vs ws : List C.VarId} {l₁ : Lowering}
    (h : Extends f vs l l₁) (k : Extends f ws l₁ l') : Extends f (vs ++ ws) l l' where
  setting := k.setting.trans h.setting
  active := k.active.trans h.active
  declared := k.declared.trans h.declared
  open_ := k.open_.trans h.open_
  blocks := k.blocks.trans h.blocks
  others i hi := (k.others i hi).trans (h.others i hi)
  params := by
    have hout : ∀ o : Option C.Function,
        o.map (withParams ws) = (o.map C.Function.outline).map (withParams ws) := by
      intro o
      cases o <;> rfl
    rw [k.params, hout, h.params, Option.map_map]
    refine congrArg (fun q => Option.map q l.c.functions[f.index]?) (funext fun x => ?_)
    show withParams ws (withParams vs x) = withParams (vs ++ ws) x
    unfold withParams C.Function.outline
    rw [List.append_assoc]

/-- Statements of a run that adds none do not touch functions. -/
theorem Extends.of_quiet {f : C.FunctionId} (h : Quiet l l') : Extends f [] l l' where
  setting := h.changes.setting
  active := h.changes.active
  declared := h.changes.declared
  open_ := h.changes.blocks.trans (extend_nil _)
  blocks := h.blocks
  others i _ := h.changes.outline i
  params := (h.changes.outline f.index).trans (Extends.refl f l).params

theorem extends_parameter {f : C.FunctionId} {name : String} {ct : C.Ty} {v : C.VarId}
    (h : Runs (build (·.parameter f name ct)) l v l') :
    v = (slots l).var ∧ Extends f [v] l l' ∧ slots l' = (slots l).fresh := by
  obtain ⟨rfl, rfl⟩ := runs_build.1 h
  have hrun : Runs (build (·.newLocal f name ct)) l (l.c.newLocal f name ct).1
      { l with c := (l.c.newLocal f name ct).2 } := runs_build.2 ⟨rfl, rfl⟩
  obtain ⟨hv, hch, hslots⟩ := changes_newLocal hrun
  have hmodify : ∀ i : Nat, (l.c.parameter f name ct).2.functions[i]? =
      if f.index = i then ((l.c.newLocal f name ct).2.functions[i]?).map
        (fun g => { g with params := g.params ++ [(slots l).var] })
      else (l.c.newLocal f name ct).2.functions[i]? :=
    fun i => Array.getElem?_modify ..
  have hnames : (l.c.parameter f name ct).2.functionName = l.c.functionName := by
    refine functionName_eq fun i => ?_
    rw [← name_of_outline (hch.outline i), hmodify]
    split
    · rw [Option.map_map]
      rfl
    · rfl
  refine ⟨hv, ?_, hslots⟩
  exact {
    setting := congrArg (Setting.mk _ · _ _) hnames
    active := rfl
    declared := rfl
    open_ := rfl
    blocks := rfl
    others := fun i hi => by
      rw [← hch.outline i, hmodify, if_neg (Ne.symm hi)]
    params := by
      have hout : ∀ o : Option C.Function,
          (o.map fun g => { g with params := g.params ++ [(slots l).var] }).map
            C.Function.outline = (o.map C.Function.outline).map (withParams [(slots l).var]) := by
        intro o
        cases o <;> rfl
      rw [hmodify, if_pos rfl, hout, hch.outline f.index, Option.map_map]
      rfl }

/-- Setting the variable of a declaration does not touch the C program. -/
theorem extends_setVariable {f : C.FunctionId} {id : IrId} {v : C.VarId} {u : Unit}
    (h : Runs (setVariable id v) l u l') :
    Extends f [] l l' ∧ slots l' = ⟨fun other => if other = id then some v else (slots l).vars other,
      (slots l).next⟩ := by
  have h : l' = { l with vars := l.vars.insert id v } := runs_modify.1 h
  rw [h]
  have hrefl := Extends.refl f l
  refine ⟨⟨rfl, rfl, rfl, rfl, rfl, fun _ _ => rfl, hrefl.params⟩, ?_⟩
  unfold slots
  simp only [Std.TreeMap.getElem?_insert, Std.compare_eq_iff_eq]
  simp only [eq_comm]

theorem extends_params {f : C.FunctionId} : ∀ {ps : List Param} {ts : Members} {l l' : Lowering}
    {u : Unit}, Runs (params f ps ts) l u l' → ∃ vs, Extends f vs l l' ∧
      Declares (setting l) (slots l) ps ts vs (slots l')
  | [], ts, l, l', u, h => by
    obtain ⟨_, rfl⟩ := runs_pure.1 h
    exact ⟨[], .refl f l', .none [] ts (.inl rfl)⟩
  | p :: rest, .nil, l, l', u, h => by
    obtain ⟨_, rfl⟩ := runs_pure.1 h
    exact ⟨[], .refl f l', .none _ _ (.inr rfl)⟩
  | p :: rest, .cons name t ts, l, l', u, h => by
    obtain ⟨ct, l₁, rct, h₁⟩ := runs_bind.1 h
    obtain ⟨hc, hq⟩ := quiet_type rct
    obtain ⟨v, l₂, rv, h₂⟩ := runs_bind.1 h₁
    obtain ⟨rfl, hv, hfresh⟩ := extends_parameter rv
    obtain ⟨_, l₃, rset, h₃⟩ := runs_bind.1 h₂
    obtain ⟨hset, hslots⟩ := extends_setVariable (f := f) rset
    obtain ⟨vs, hrest, hdecl⟩ := extends_params h₃
    have hfirst := (Extends.of_quiet (f := f) hq).trans (hv.trans hset)
    rw [List.nil_append, List.append_nil] at hfirst
    have hmid : slots l₃ = (slots l).declare p.head.id.ir := by
      rw [hslots, hfresh, hq.slots]
      rfl
    rw [hfirst.setting, hmid] at hdecl
    rw [hq.slots] at hfirst
    exact ⟨_, hfirst.trans hrest, .cons p rest name hc hdecl⟩

/-! ## Bodies -/

theorem changes_finish {slot : Option C.VarId} {v : Option C.Expr} {u : Unit}
    (h : Runs (finish slot v) l u l') :
    ∃ s, Finishes slot v s ∧ Changes l s l' ∧ slots l' = slots l := by
  cases v with
  | none =>
    obtain ⟨_, rfl⟩ := runs_pure.1 h
    exact ⟨[], .noValue slot, .refl l', rfl⟩
  | some value =>
    cases slot with
    | none =>
      obtain ⟨hc, hs⟩ := (Changes.refl l).addPlain h rfl
      exact ⟨_, .effect value, hc, hs⟩
    | some x =>
      obtain ⟨_, l₁, rstore, h₁⟩ := runs_bind.1 h
      obtain ⟨name, hstore, hslots⟩ := changes_store rstore
      obtain ⟨e, l₂, re, radd⟩ := runs_bind.1 h₁
      obtain ⟨⟨spelled, rfl⟩, rfl⟩ := runs_varExpr re
      obtain ⟨hc, hs⟩ := hstore.addPlain radd rfl
      exact ⟨_, .returned x name spelled value, hc, hs.trans hslots⟩

theorem changes_resultSlot {f : C.FunctionId} {result : Ty} {slot : Option C.VarId}
    (h : Runs (resultSlot f result) l slot l') :
    ∃ d, Temporary (setting l) (slots l) result slot d (slots l') ∧ Changes l d l' := by
  unfold resultSlot at h
  cases ht : result.isUnit with
  | true =>
    rw [ht] at h
    obtain ⟨rfl, rfl⟩ := runs_pure.1 h
    exact ⟨[], .none ht, .refl l'⟩
  | false =>
    rw [ht] at h
    obtain ⟨ct, l₁, rct, h₁⟩ := runs_bind.1 h
    obtain ⟨hc, hq⟩ := quiet_type rct
    obtain ⟨v, l₂, rv, h₂⟩ := runs_bind.1 h₁
    obtain ⟨rfl, hv, hfresh⟩ := changes_newLocal rv
    obtain ⟨s, l₃, rs, h₃⟩ := runs_bind.1 h₂
    obtain ⟨rfl, rfl⟩ := runs_look.1 rs
    obtain ⟨declared, name, he⟩ := declareStmt_eq l₃.c (slots l₁).var none
    rw [he] at h₃
    obtain ⟨_, l₄, radd, hp⟩ := runs_bind.1 h₃
    obtain ⟨rfl, rfl⟩ := runs_pure.1 hp
    obtain ⟨hchanges, hslots⟩ := (hq.changes.trans hv).addPlain radd rfl
    refine ⟨_, ?_, hchanges⟩
    rw [hslots, hfresh, hq.slots]
    exact .some name declared ht hc

/-- Function `f` has been filled, and nothing else is different. -/
structure Filled (k : Checked) (id : IrId) (d : FunctionDecl) (f : C.FunctionId)
    (l l' : Lowering) : Prop where
  setting : setting l' = setting l
  active : l'.active = l.active
  open_ : l'.blocks = l.blocks
  declared : l'.declared = { l.declared with functions := l.declared.functions ++ [f] }
  size : l.c.blocks.size ≤ l'.c.blocks.size
  kept : ∀ b : C.BlockId, b.index < l.c.blocks.size → l'.c.statements b = l.c.statements b
  deeper : ∀ b : C.BlockId, l.c.blocks.size ≤ b.index → b.index < l'.c.blocks.size →
    ∀ s ∈ l'.c.statements b, ∀ x ∈ s.blocks, b.index < x.index ∧ x.index < l'.c.blocks.size
  others : ∀ i : Nat, i ≠ f.index →
    (l'.c.functions[i]?).map C.Function.outline = (l.c.functions[i]?).map C.Function.outline
  filled : ∃ x vs b, l.c.functions[f.index]? = some x ∧
    (l'.c.functions[f.index]?).map C.Function.outline =
      some { withParams vs x with body := some b } ∧
    l.c.blocks.size ≤ b.index ∧ b.index < l'.c.blocks.size ∧
    ∀ B, Agrees B l l' → EmitsFunction k (Lower.setting l) B id d (slots l) vs b (slots l')

/-- Statements may be added while another function is active. -/
theorem changes_of_activated {l₁ : Lowering} {as : List Activation} {es : List Event}
    {a : List C.Stmt} (h : Changes { l with active := as, events := es } a l₁) :
    Changes l a { l₁ with active := l.active } where
  setting := h.setting
  active := rfl
  declared := h.declared
  blocks := h.blocks
  size := h.size
  kept := h.kept
  outline := h.outline
  within := h.within
  deeper := h.deeper

/-- Giving a function its body. -/
theorem outline_setBody {f : C.FunctionId} {b : C.BlockId} {u : Unit}
    (h : Runs (buildOrFail (·.setBody f b)) l u l') :
    f.index < l.c.functions.size ∧
      l' = { l with c := l.c.modifyFunction f fun g => { g with body := some b } } := by
  obtain ⟨hok, rfl⟩ := runs_buildOrFail.1 h
  unfold C.Program.setBody at hok ⊢
  by_cases hf : f.index < l.c.functions.size
  · rw [if_pos hf]
    exact ⟨hf, rfl⟩
  · rw [if_neg hf] at hok
    cases hok

/-- A function that got parameters, a body among new blocks and a declaration is filled. -/
theorem Filled.of_parts {id : IrId} {d : FunctionDecl} {f : C.FunctionId} {vs : List C.VarId}
    {l₁ l₂ : Lowering} {b : C.BlockId} {events : List Event} (hext : Extends f vs l l₁)
    (hc : Changes l₁ [] l₂) (hf : f.index < l₂.c.functions.size)
    (hlow : l.c.blocks.size ≤ b.index) (hhigh : b.index < l₂.c.blocks.size)
    (hl : l' = { l₂ with
      c := l₂.c.modifyFunction f fun g => { g with body := some b }
      declared := { l₂.declared with functions := l₂.declared.functions ++ [f] }
      events := events })
    (hbody : ∀ B, Agrees B l l' →
      EmitsFunction k (Lower.setting l) B id d (Lower.slots l) vs b (Lower.slots l')) :
    Filled k id d f l l' := by
  have hmodify : ∀ i : Nat, l'.c.functions[i]? =
      if f.index = i then (l₂.c.functions[i]?).map fun g => { g with body := some b }
      else l₂.c.functions[i]? := by
    intro i
    rw [hl]
    exact Array.getElem?_modify ..
  have hnames : l'.c.functionName = l₂.c.functionName := by
    refine functionName_eq fun i => ?_
    rw [hmodify]
    split
    · rw [Option.map_map]
      rfl
    · rfl
  have hblocks : l'.c.blocks = l₂.c.blocks := by rw [hl]; rfl
  have hstatements : ∀ x, l'.c.statements x = l₂.c.statements x := by
    intro x
    unfold C.Program.statements
    rw [hblocks]
  have hsize : l.c.blocks.size = l₁.c.blocks.size := by rw [hext.blocks]
  have hin : ∀ x : C.BlockId, l₁.c.statements x = l.c.statements x := by
    intro x
    unfold C.Program.statements
    rw [hext.blocks]
  refine {
    setting := ?_
    active := ?_
    open_ := ?_
    declared := ?_
    size := ?_
    kept := fun x hx => by rw [hstatements, hc.kept x (hsize ▸ hx), hin]
    deeper := fun x hx hx' s hs => by
      rw [hblocks] at hx' ⊢
      rw [hstatements] at hs
      exact hc.deeper x (hsize ▸ hx) hx' s hs
    others := fun i hi => by
      rw [hmodify, if_neg (Ne.symm hi), hc.outline i, hext.others i hi]
    filled := ?_ }
  · rw [← hext.setting, ← hc.setting]
    rw [show Lower.setting l' = ⟨(Lower.setting l₂).functions, l'.c.functionName,
      (Lower.setting l₂).constants, (Lower.setting l₂).types⟩ by rw [hl]; rfl, hnames]
    rfl
  · rw [hl, ← hext.active, ← hc.active]
  · rw [hl, ← hext.open_]
    exact hc.blocks.trans (extend_nil _)
  · rw [hl, ← hext.declared, ← hc.declared]
  · rw [hblocks, hsize]
    exact hc.size
  · have hparams := hext.params
    cases hx : l.c.functions[f.index]? with
    | none =>
      have hout := hc.outline f.index
      rw [hparams, hx, Array.getElem?_eq_getElem hf] at hout
      cases hout
    | some x =>
      refine ⟨x, vs, b, rfl, ?_, hlow, by rw [hblocks]; exact hhigh, hbody⟩
      have hout : ∀ o : Option C.Function,
          (o.map fun g => { g with body := some b }).map C.Function.outline =
            (o.map C.Function.outline).map fun g => { g with body := some b } := by
        intro o
        cases o <;> rfl
      rw [hmodify, if_pos rfl, hout, hc.outline f.index, hparams, hx]
      rfl

/-- The statements of a body and what becomes of its value, while the function is active. -/
theorem emitted_active {a : Activation} {h : Head} {ss : List Stmt} {tail : Option Expr}
    {v : Option C.Expr} {u₁ u₂ : Unit} {u₃ : PUnit} {l₁ l₂ l₃ : Lowering}
    (renter : Runs (pushFunction a) l u₁ l₁) (rv : Runs (contents k ss tail) l₁ v l₂)
    (rfinish : Runs (finish a.slot v) l₂ u₂ l₃) (rleave : Runs (discard popFunction) l₃ u₃ l') :
    ∃ e s, Finishes a.slot v s ∧ Changes l (e ++ s) l' ∧ ∀ B, Agrees B l l' →
      Emits k (setting l) B (slots l) (.inner (.block h ss tail) v) e (slots l') := by
  have henter : l₁ = { l with
      active := a :: l.active, events := l.events ++ [.functionEntered a.function.index] } := by
    obtain ⟨_, l, rnote, rmodify⟩ := runs_bind.1 renter
    rw [runs_note.1 rnote] at rmodify
    exact runs_modify.1 rmodify
  obtain ⟨e, he, hemits⟩ := (emitsAll (.block h ss tail)).2 rv
  obtain ⟨s, hs, hfinish, hslots⟩ := changes_finish rfinish
  have hleave : l' = { l₃ with active := l.active } := by
    obtain ⟨x, rx⟩ := runs_discard.1 rleave
    have hactive : l₃.active = a :: l.active := by
      rw [hfinish.active, he.active, henter]
    unfold popFunction at rx
    rw [runs_get_bind, hactive] at rx
    cases rx
    rfl
  refine ⟨e, s, hs, ?_, ?_⟩
  · have hall := he.trans hfinish
    rw [henter] at hall
    rw [hleave]
    exact changes_of_activated hall
  · intro B hB
    have hB₁ : Agrees B l₁ l₂ := by
      refine Agrees.left ?_ hfinish
      rw [hleave] at hB
      rw [henter]
      exact hB
    have hem := hemits B hB₁
    rw [henter] at hem
    rw [show slots l' = slots l₃ by rw [hleave]; rfl, hslots]
    exact hem

theorem filled_functionBody {i : Item} {d : FunctionDecl} {f : C.FunctionId} {u : Unit}
    (hf : l.functions[i.head.id.ir]? = some f) (hd : l.isDeclared f = false)
    (hr : Runs (functionBody k i d) l u l') : Filled k i.head.id.ir d f l l' := by
  unfold functionBody at hr
  rw [runs_get_bind] at hr
  obtain ⟨f', l₀, rf, h₀⟩ := runs_bind.1 hr
  obtain ⟨hf', rfl⟩ := runs_require.1 rf
  cases hf.symm.trans hf'
  rw [runs_get_bind, hd] at h₀
  obtain ⟨⟨ps, result⟩, l₀, rsig, h₁⟩ := runs_bind.1 h₀
  obtain ⟨t, l₂, rt, h₂⟩ := runs_bind.1 rsig
  obtain ⟨ht, rfl⟩ := runs_require.1 rt
  obtain ⟨hfn, rfl⟩ := runs_require.1 h₂
  obtain ⟨_, l₁, rparams, h₃⟩ := runs_bind.1 h₁
  obtain ⟨vs, hext, hdecl⟩ := extends_params rparams
  obtain ⟨_, l₂, rnew, h₄⟩ := runs_bind.1 h₃
  obtain ⟨_, l₃, rpush, h₅⟩ := runs_bind.1 h₄
  obtain ⟨slot, l₄, rslot, h₆⟩ := runs_bind.1 h₅
  obtain ⟨a, htemp, ha⟩ := changes_resultSlot rslot
  obtain ⟨_, l₅, renter, h₇⟩ := runs_bind.1 h₆
  cases hbody : d.body with
  | block g ss tail =>
    rw [hbody] at h₇
    obtain ⟨v, l₆, rv, h₈⟩ := runs_bind.1 h₇
    obtain ⟨_, l₇, rfinish, h₉⟩ := runs_bind.1 h₈
    obtain ⟨_, l₈, rleave, h₁₀⟩ := runs_bind.1 h₉
    obtain ⟨e, s, hs, hes, hemits⟩ := emitted_active (h := g) renter rv rfinish rleave
    obtain ⟨b, l₉, rpop, h₁₁⟩ := runs_bind.1 h₁₀
    obtain ⟨rfl, hclosed⟩ := closed_block rnew rpush (ha.trans hes) rpop
    obtain ⟨_, l₁₀, rset, h₁₂⟩ := runs_bind.1 h₁₁
    obtain ⟨hlt, hset⟩ := outline_setBody rset
    obtain ⟨_, l₁₁, rdeclare, rnote⟩ := runs_bind.1 h₁₂
    have hl : l' = { l₉ with
        c := l₉.c.modifyFunction f fun g => { g with body := some b }
        declared := { l₉.declared with functions := l₉.declared.functions ++ [f] }
        events := l₉.events ++ [.lowered d.name] } := by
      rw [runs_note.1 rnote, runs_modify.1 rdeclare, hset]
      rfl
    have hlow : l₀.c.blocks.size = b.index := by rw [hclosed.index, hext.blocks]
    have hblocks : l'.c.blocks = l₉.c.blocks := by rw [hl]; rfl
    refine .of_parts hext hclosed.changes hlt (Nat.le_of_eq hlow) hclosed.inside hl ?_
    intro B hB
    have hB₁ : Agrees B l₁ l₉ := by
      refine Agrees.of_blocks ?_ hblocks
      intro x hx hx'
      exact hB x (by rw [← hext.blocks]; exact hx) hx'
    have hem := hemits B ((hclosed.agrees B hB₁).right ha)
    rw [ha.setting, hclosed.setting, hext.setting] at hem
    rw [hclosed.setting, hext.setting, hclosed.opened] at htemp
    rw [show slots l' = slots l₉ by rw [hl]; rfl, hclosed.closed]
    refine .intro g ss tail hbody ht hfn hdecl htemp hem hs ?_
    rw [hB b (Nat.le_of_eq hlow) (by rw [hblocks]; exact hclosed.inside), hl]
    exact hclosed.statements
  | _ =>
    rw [hbody] at h₇
    exact absurd h₇ not_runs_defect

end MiddleEnd.Lower
