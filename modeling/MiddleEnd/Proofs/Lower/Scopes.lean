/-
  What lowering emits is well scoped. Where every name of the source is bound in a block around it,
  the text of an expression only uses variables that are in scope behind its statements
  (`Emits.fits`), although it may be put into a statement much later; temporary variables are
  declared in front of the blocks that leave values in them.
-/
import MiddleEnd.Proofs.C.Variables
import MiddleEnd.Proofs.Lower.Fields
import MiddleEnd.Proofs.Lower.Places
import MiddleEnd.Proofs.Lower.Remains
import MiddleEnd.Proofs.Lower.Targets
import MiddleEnd.Proofs.Syntax.Scoped

namespace MiddleEnd.Lower

/-! ## Jobs -/

/-- All names in what is lowered are in scope, where these declarations are visible. -/
def Job.scoped (s : Scope) (ids : List IrId) : Job → Bool
  | .expr e _ | .inner e _ | .branch _ e | .tail (some e) _ => e.scoped s ids
  | .exprs es _ => Expr.scopedAll s ids es
  | .fields _ fs _ => FieldInit.scopedAll s ids fs
  | .tail none _ => true
  | .stmt st => st.scoped s ids
  | .stmts sts => Stmt.scopedAll s ids sts

/-- The declarations that are visible behind what is lowered. -/
def Job.introduced : Job → List IrId
  | .stmt st => st.introduced
  | .stmts sts => Stmt.introducedAll sts
  | _ => []

/-- The texts that a job comes to. -/
def Job.texts : Job → List C.Expr
  | .expr _ v => [v]
  | .exprs _ vs => vs
  | .fields _ _ vs => vs.map (·.2)
  | .tail _ v | .inner _ v => v.toList
  | .branch .. | .stmt _ | .stmts _ => []

variable {k : Checked} {g : Setting} {B : C.BlockId → List C.Stmt} {Free : C.VarId → Prop}
  {ps qs rs : List Part} {last m m₁ m' : Slots} {ids seen : List IrId} {vars more : List C.VarId}

/-! ## Visible variables -/

/-- The variable may be used where these variables are in scope: it is one of them, or belongs to
the whole program. It is that of a declaration that a name among the parts stands for, or of no
declaration. -/
structure Visible (k : Checked) (Free : C.VarId → Prop) (ps : List Part) (last : Slots)
    (vars : List C.VarId) (x : C.VarId) : Prop where
  scope : Free x ∨ x ∈ vars
  source : (∃ e, .expr e ∈ ps ∧ Means k last e x) ∨ ∀ id, last.vars id ≠ some x

theorem Visible.mono {x : C.VarId} (h : Visible k Free ps last vars x) (hs : vars ⊆ more) :
    Visible k Free ps last more x :=
  ⟨h.scope.imp_right (hs ·), h.source⟩

/-- Declarations that have variables have such that may be used. -/
def Slots.Sees (m : Slots) (Free : C.VarId → Prop) (ids : List IrId) (vars : List C.VarId) :
    Prop :=
  ∀ id ∈ ids, ∀ v, m.vars id = some v → Free v ∨ v ∈ vars

theorem Slots.Sees.mono (h : m.Sees Free ids vars) (hs : vars ⊆ more) : m.Sees Free ids more :=
  fun id hid v hv => (h id hid v hv).imp_right (hs ·)

theorem Slots.Older.trans (h : m.Older m₁) (h' : m₁.Older m') : m.Older m' := by
  refine ⟨Nat.le_trans h.1 h'.1, fun id v hv => ?_⟩
  rcases h'.2 id v hv with hv | hv
  · exact h.2 id v hv
  · exact .inr (Nat.le_trans h.1 hv)

/-- A new variable for no declaration stays so. -/
theorem Slots.Older.temporary (hp : m.Proper) (h : m.fresh.Older last) (id : IrId) :
    last.vars id ≠ some m.var := by
  intro hid
  rcases h.2 id _ hid with hv | hv
  · exact Nat.lt_irrefl _ (hp.below id _ hv)
  · exact Nat.not_succ_le_self _ hv

/-- Parts are lowered from `m` to `m'`, where these declarations are visible and these variables in
scope. -/
structure Enclosed (Free : C.VarId → Prop) (ps : List Part) (last : Slots) (ids : List IrId)
    (vars : List C.VarId) (m : Slots) (qs : List Part) (m' : Slots) : Prop where
  ready : m.Ready (Part.declaredAll qs)
  outside : ∀ id ∈ ids, id ∉ Part.declaredAll qs
  sees : m.Sees Free ids vars
  parts : ∀ e, .expr e ∈ qs → .expr e ∈ ps
  stays : m'.Stays last
  older : m'.Older last

namespace Enclosed

theorem left (h : Enclosed Free ps last ids vars m (qs ++ rs) m')
    (hg : Grows (Part.declaredAll qs) m m₁) (hg' : Grows (Part.declaredAll rs) m₁ m') :
    Enclosed Free ps last ids vars m qs m₁ where
  ready := h.ready.partsLeft
  outside id hid hd := by
    refine h.outside id hid ?_
    rw [Part.declaredAll_append]
    exact List.mem_append_left _ hd
  sees := h.sees
  parts e he := h.parts e (List.mem_append_left _ he)
  stays := ((h.ready.partsRight hg).stays hg').trans h.stays
  older := hg'.older.trans h.older

/-- What comes behind may see more. -/
theorem right (h : Enclosed Free ps last ids vars m (qs ++ rs) m')
    (hg : Grows (Part.declaredAll qs) m m₁)
    (hseen : ∀ id ∈ seen, id ∈ ids ∨ id ∈ Part.declaredAll qs)
    (hsees : m₁.Sees Free seen more) : Enclosed Free ps last seen more m₁ rs m' where
  ready := h.ready.partsRight hg
  outside id hid hd := by
    rcases hseen id hid with hold | hnew
    · refine h.outside id hold ?_
      rw [Part.declaredAll_append]
      exact List.mem_append_right _ hd
    · have hdistinct := h.ready.distinct
      rw [Part.declaredAll_append] at hdistinct
      exact (List.nodup_append.1 hdistinct).2.2 id hnew id hd rfl
  sees := hsees
  parts e he := h.parts e (List.mem_append_right _ he)
  stays := h.stays
  older := h.older

/-- A variable for no declaration in front. -/
theorem after (h : Enclosed Free ps last ids vars m qs m') (hg : Grows [] m m₁)
    (hs : vars ⊆ more) : Enclosed Free ps last ids more m₁ qs m' where
  ready := h.ready.after hg
  outside := h.outside
  sees id hid v hv := by
    rw [hg.others id List.not_mem_nil] at hv
    exact h.sees.mono hs id hid v hv
  parts := h.parts
  stays := h.stays
  older := h.older

/-- The declarations that are visible keep their variables. -/
theorem sees_after (h : Enclosed Free ps last ids vars m qs m')
    (hg : Grows (Part.declaredAll qs) m m') : m'.Sees Free ids vars := by
  intro id hid v hv
  rw [hg.others id (h.outside id hid)] at hv
  exact h.sees id hid v hv

/-- Lowering that ends earlier. -/
theorem upTo (h : Enclosed Free ps last ids vars m qs m') (hs : m₁.Stays m') (ho : m₁.Older m') :
    Enclosed Free ps last ids vars m qs m₁ :=
  ⟨h.ready, h.outside, h.sees, h.parts, hs.trans h.stays, ho.trans h.older⟩

theorem sub (h : Enclosed Free ps last ids vars m qs m') (hs : rs.Sublist qs) :
    Enclosed Free ps last ids vars m rs m' where
  ready := h.ready.of_sublist (hs.flatMap Part.declared)
  outside id hid hd := h.outside id hid ((hs.flatMap Part.declared).subset hd)
  sees := h.sees
  parts e he := h.parts e (hs.subset he)
  stays := h.stays
  older := h.older

end Enclosed

/-! ## Statements and texts -/

/-- The statements are well scoped, and behind them the texts use only variables in scope and these
declarations are visible. -/
structure Fits (k : Checked) (B : C.BlockId → List C.Stmt) (Free : C.VarId → Prop)
    (ps : List Part) (last : Slots) (vars : List C.VarId) (seen : List IrId) (vs : List C.Expr)
    (a : List C.Stmt) (m' : Slots) : Prop where
  stmts : C.WellScoped B (fun vars u => Visible k Free ps last vars u.1) vars a
  texts : ∀ v ∈ vs, ∀ x, v.Reads x → Visible k Free ps last (vars ++ C.declares a) x
  sees : m'.Sees Free seen (vars ++ C.declares a)

namespace Fits

variable {vs ws us : List C.Expr} {a b : List C.Stmt} {v : C.Expr} {x y : C.BlockId} {m₂ : Slots}
  {seen' : List IrId}

theorem nil (hs : m.Sees Free ids vars) : Fits k B Free ps last vars ids [] [] m where
  stmts := .nil
  texts _ hv := absurd hv List.not_mem_nil
  sees := hs.mono (List.subset_append_left ..)

/-- A text without variables. -/
theorem plain (hs : m.Sees Free ids vars) {v : C.Expr} (hv : v.uses = []) :
    Fits k B Free ps last vars ids [v] [] m where
  stmts := .nil
  texts w hw x hx := by
    rw [List.mem_singleton.1 hw, C.Expr.Reads, hv] at hx
    obtain ⟨_, hx⟩ := hx
    exact absurd hx List.not_mem_nil
  sees := hs.mono (List.subset_append_left ..)

/-- Other texts that read the same variables. -/
theorem congr (h : Fits k B Free ps last vars ids vs a m')
    (hw : ∀ w ∈ ws, ∀ x, w.Reads x → ∃ v ∈ vs, v.Reads x) :
    Fits k B Free ps last vars ids ws a m' where
  stmts := h.stmts
  texts w hm x hx := by
    obtain ⟨v, hv, hx⟩ := hw w hm x hx
    exact h.texts v hv x hx
  sees := h.sees

theorem drop (h : Fits k B Free ps last vars ids vs a m') : Fits k B Free ps last vars ids [] a m' :=
  h.congr fun _ hw => absurd hw List.not_mem_nil

/-- A text that is made of others. -/
theorem compose (h : Fits k B Free ps last vars ids vs a m') {w : C.Expr}
    (hw : w.uses = C.Expr.usesAll vs) : Fits k B Free ps last vars ids [w] a m' := by
  refine h.congr fun w' hm x hx => ?_
  obtain ⟨name, hx⟩ := hx
  rw [List.mem_singleton.1 hm, hw] at hx
  obtain ⟨v, hv, hx⟩ := C.Expr.mem_usesAll.1 hx
  exact ⟨v, hv, name, hx⟩

/-- Jobs one after the other: the first texts are still in scope behind the second statements. -/
theorem append (h : Fits k B Free ps last vars ids vs a m₁)
    (h' : Fits k B Free ps last (vars ++ C.declares a) seen ws b m') :
    Fits k B Free ps last vars seen (vs ++ ws) (a ++ b) m' where
  stmts := h.stmts.append h'.stmts
  texts v hv x hx := by
    rw [C.declares_append, ← List.append_assoc]
    rcases List.mem_append.1 hv with hv | hv
    · exact (h.texts v hv x hx).mono (List.subset_append_left ..)
    · exact h'.texts v hv x hx
  sees := by
    rw [C.declares_append, ← List.append_assoc]
    exact h'.sees

/-- A statement behind, in which these texts are used. -/
theorem act (h : Fits k B Free ps last vars ids vs a m') {s : C.Stmt}
    (hu : ∀ u ∈ s.uses, ∃ v ∈ vs, u ∈ v.uses)
    (hb : ∀ b ∈ s.blocks, C.WellScoped B (fun vars u => Visible k Free ps last vars u.1)
      (vars ++ C.declares a) (B b)) :
    Fits k B Free ps last vars ids vs (a ++ [s]) m' where
  stmts := by
    refine h.stmts.append (.single (fun u hm => ?_) hb)
    obtain ⟨v, hv, hin⟩ := hu u hm
    exact h.texts v hv u.1 ⟨u.2, hin⟩
  texts v hv x hx := by
    rw [C.declares_append, ← List.append_assoc]
    exact (h.texts v hv x hx).mono (List.subset_append_left ..)
  sees := by
    rw [C.declares_append, ← List.append_assoc]
    exact h.sees.mono (List.subset_append_left ..)

/-- A statement without blocks behind. -/
theorem actPlain (h : Fits k B Free ps last vars ids vs a m') {s : C.Stmt} (hb : s.blocks = [])
    (hu : ∀ u ∈ s.uses, ∃ v ∈ vs, u ∈ v.uses) :
    Fits k B Free ps last vars ids vs (a ++ [s]) m' := by
  refine h.act hu fun b hm => ?_
  rw [hb] at hm
  cases hm

/-- A block behind, which is well scoped and in whose condition these texts are used. -/
theorem branch (h : Fits k B Free ps last vars ids [v] a m₁)
    (h' : Fits k B Free ps last (vars ++ C.declares a) seen ws (B x) m') :
    Fits k B Free ps last vars ids [] (a ++ [.branch v x none]) m₁ := by
  refine (h.act (s := .branch v x none) (fun u hu => ⟨v, List.mem_singleton_self _, hu⟩)
    fun b hb => ?_).drop
  rw [List.mem_singleton.1 hb]
  exact h'.stmts

/-- Two blocks behind. -/
theorem branches (h : Fits k B Free ps last vars ids [v] a m₁)
    (hx : Fits k B Free ps last (vars ++ C.declares a) seen ws (B x) m₂)
    (hy : Fits k B Free ps last (vars ++ C.declares a) seen' us (B y) m') :
    Fits k B Free ps last vars ids [] (a ++ [.branch v x (some y)]) m₁ := by
  refine (h.act (s := .branch v x (some y)) (fun u hu => ⟨v, List.mem_singleton_self _, hu⟩)
    fun b hb => ?_).drop
  rcases List.mem_cons.1 hb with rfl | hb
  · exact hx.stmts
  · rw [List.mem_singleton.1 hb]
    exact hy.stmts

/-- The declarations are still visible later on. -/
theorem later (h : Fits k B Free ps last vars ids vs a m₁)
    (hs : m'.Sees Free ids vars) : Fits k B Free ps last vars ids vs a m' :=
  ⟨h.stmts, h.texts, hs.mono (List.subset_append_left ..)⟩

/-- A text without variables is in scope everywhere. -/
theorem idle (h : Fits k B Free ps last vars ids [] a m') (hv : v.uses = []) :
    Fits k B Free ps last vars ids [v] a m' where
  stmts := h.stmts
  texts w hw x hx := by
    obtain ⟨_, hx⟩ := hx
    rw [List.mem_singleton.1 hw, hv] at hx
    exact absurd hx List.not_mem_nil
  sees := h.sees

/-- A variable from outside that belongs to no declaration is in scope. -/
theorem target (h : Fits k B Free ps last vars ids vs a m') {t : C.VarId}
    (ht : t ∈ vars ++ C.declares a ∧ ∀ id, last.vars id ≠ some t) (name : String) :
    Fits k B Free ps last vars ids (.var t name :: vs) a m' where
  stmts := h.stmts
  texts w hw x hx := by
    rcases List.mem_cons.1 hw with rfl | hw
    · obtain ⟨_, hx⟩ := hx
      cases List.mem_singleton.1 hx
      exact ⟨.inr ht.1, .inr ht.2⟩
    · exact h.texts w hw x hx
  sees := h.sees

/-- Fewer declarations are looked at. -/
theorem forget (h : Fits k B Free ps last vars seen vs a m') (hs : ∀ id ∈ ids, id ∈ seen) :
    Fits k B Free ps last vars ids vs a m' :=
  ⟨h.stmts, h.texts, fun id hid => h.sees id (hs id hid)⟩

/-- Operands, one after the other. -/
theorem sequence (hin : Enclosed Free ps last ids vars m (qs ++ rs) m')
    (hg : Grows (Part.declaredAll qs) m m₁) (hg' : Grows (Part.declaredAll rs) m₁ m')
    (h : Enclosed Free ps last ids vars m qs m₁ → Fits k B Free ps last vars ids vs a m₁)
    (h' : ∀ {more}, Enclosed Free ps last ids more m₁ rs m' →
      Fits k B Free ps last more ids ws b m') :
    Fits k B Free ps last vars ids (vs ++ ws) (a ++ b) m' := by
  have hfirst := h (hin.left hg hg')
  exact hfirst.append (h' (hin.right hg (fun _ hid => .inl hid) hfirst.sees))

end Fits

/-! ## Temporary variables -/

theorem declared_temporary {t : Ty} {target : Option C.VarId} {d : List C.Stmt}
    (h : Temporary g m t target d m') (hp : m.Proper) (ho : m'.Older last) :
    ∀ x, target = some x → x ∈ C.declares d ∧ ∀ id, last.vars id ≠ some x := by
  rintro x rfl
  cases h with
  | some name declared _ _ =>
    exact ⟨List.mem_singleton_self _, Slots.Older.temporary hp ho⟩

theorem fits_temporary {t : Ty} {target : Option C.VarId} {d : List C.Stmt}
    (h : Temporary g m t target d m') (hs : m'.Sees Free ids vars) :
    Fits k B Free ps last vars ids [] d m' := by
  cases h with
  | none => exact .nil hs
  | some name declared _ _ =>
    exact (Fits.nil hs).actPlain rfl fun u hu => absurd hu List.not_mem_nil

/-- The value left in a temporary variable, or none. -/
theorem fits_load {target : Option C.VarId} {v : C.Expr} {a : List C.Stmt}
    (h : Fits k B Free ps last vars ids [] a m') (hl : Loads target v)
    (ht : ∀ x, target = some x → x ∈ vars ++ C.declares a ∧ ∀ id, last.vars id ≠ some x) :
    Fits k B Free ps last vars ids [v] a m' := by
  cases hl with
  | none => exact h.idle rfl
  | some x name => exact h.target (ht x rfl) name

/-- A value that is kept for later. -/
theorem fits_keep {t : Ty} {target : Option C.VarId} {v w : C.Expr} {a d s : List C.Stmt}
    (h : Fits k B Free ps last vars ids [v] a m₁) (ht : Temporary g m₁ t target d m')
    (hk : Keeps target v w s) (hs : m'.Sees Free ids vars) (hp : m₁.Proper) (ho : m'.Older last) :
    Fits k B Free ps last vars ids [w] (a ++ (d ++ s)) m' := by
  have htarget := declared_temporary ht hp ho
  have hd : Fits k B Free ps last (vars ++ C.declares a) ids [] d m' :=
    fits_temporary ht (hs.mono (List.subset_append_left ..))
  cases hk with
  | asItIs =>
    rw [List.append_nil]
    exact h.append hd
  | moved x name spelled =>
    obtain ⟨hin, hno⟩ := htarget x rfl
    have hx : x ∈ vars ++ C.declares (a ++ d) := by
      rw [C.declares_append]
      exact List.mem_append_right _ (List.mem_append_right _ hin)
    have hboth := (h.append hd).target ⟨hx, hno⟩ spelled
    have hstored := hboth.actPlain (s := .assign (.var x spelled) v) rfl fun u hu => by
      rcases List.mem_append.1 hu with hu | hu
      · exact ⟨_, List.mem_cons_self .., hu⟩
      · exact ⟨v, List.mem_cons_of_mem _ (List.mem_cons_self ..), hu⟩
    rw [← List.append_assoc]
    refine hstored.congr fun u hu y hy => ⟨_, List.mem_cons_self .., ?_⟩
    obtain ⟨_, hy⟩ := hy
    rw [List.mem_singleton.1 hu] at hy
    cases List.mem_singleton.1 hy
    exact ⟨spelled, List.mem_singleton_self _⟩

/-! ## Declarations -/

theorem Slots.Sees.declare (h : m.Sees Free ids vars) {id : IrId} (hs : vars ⊆ more)
    (hin : m.var ∈ more) : (m.declare id).Sees Free ([id] ++ ids) more := by
  intro other hother v hv
  by_cases he : other = id
  · rw [he, m.declare_self] at hv
    cases hv
    exact .inr hin
  · rw [m.declare_other he] at hv
    have hold : other ∈ ids := by
      rcases List.mem_cons.1 hother with hid | hid
      · exact absurd hid he
      · exact hid
    exact h.mono hs other hold v hv

/-- A declaration without a variable is visible to no avail. -/
theorem Slots.Sees.nothing (h : m.Sees Free ids vars) {id : IrId} (hn : m.vars id = none) :
    m.Sees Free ([id] ++ ids) vars := by
  intro other hother v hv
  rcases List.mem_cons.1 hother with hid | hid
  · rw [hid, hn] at hv
    cases hv
  · exact h other hid v hv

theorem Stmt.introduced_declared {st : Stmt} {id : IrId} (h : id ∈ st.introduced) :
    id ∈ Part.declaredAll st.parts := by
  cases st with
  | expr e => cases h
  | bind g pattern ascribed init =>
    rw [List.mem_singleton.1 h]
    cases init <;> exact List.mem_cons_self ..

theorem Stmt.introducedAll_declared {sts : List Stmt} {id : IrId}
    (h : id ∈ Stmt.introducedAll sts) : id ∈ Part.declaredAll (Stmt.partsAll sts) := by
  induction sts with
  | nil => cases h
  | cons st rest ih =>
    rw [Stmt.partsAll, Part.declaredAll_append]
    rcases List.mem_append.1 h with h | h
    · exact List.mem_append_right _ (ih h)
    · exact List.mem_append_left _ (introduced_declared h)

/-! ## Emission -/

section

variable {vs : List C.Expr} {a b d : List C.Stmt}

/-- The blocks of a conditional, which leave their values in a temporary variable. -/
theorem fits_branches {t : Ty} {c v : C.Expr} {target : Option C.VarId} {x y : C.BlockId}
    {m₂ m₃ : Slots} (hin : Enclosed Free ps last ids (vars ++ C.declares a) m₁ (qs ++ rs) m')
    (hc : Fits k B Free ps last vars ids [c] a m₁) (ht : Temporary g m₁ t target d m₂)
    (hg : Grows (Part.declaredAll qs) m₂ m₃) (hg' : Grows (Part.declaredAll rs) m₃ m')
    (hl : Loads target v)
    (hx : ∀ {more}, Enclosed Free ps last ids more m₂ qs m₃ →
      (∀ x, target = some x → x ∈ more ∧ ∀ id, last.vars id ≠ some x) →
      Fits k B Free ps last more ids [] (B x) m₃)
    (hy : ∀ {more}, Enclosed Free ps last ids more m₃ rs m' →
      (∀ x, target = some x → x ∈ more ∧ ∀ id, last.vars id ≠ some x) →
      Fits k B Free ps last more ids [] (B y) m') :
    Fits k B Free ps last vars ids [v] (a ++ (d ++ [.branch c x (some y)])) m' := by
  have hall : vars ++ C.declares a ⊆ vars ++ C.declares (a ++ d) := by
    rw [C.declares_append, ← List.append_assoc]
    exact List.subset_append_left ..
  have hafter : Enclosed Free ps last ids (vars ++ C.declares (a ++ d)) m₂ (qs ++ rs) m' :=
    hin.after ht.grows hall
  have htarget : ∀ x, target = some x →
      x ∈ vars ++ C.declares (a ++ d) ∧ ∀ id, last.vars id ≠ some x := by
    intro x hx
    have holder : m₂.Older last := (hg.both hg').older.trans hin.older
    obtain ⟨hdeclared, hno⟩ := declared_temporary ht hin.ready.proper holder x hx
    refine ⟨?_, hno⟩
    rw [C.declares_append]
    exact List.mem_append_right _ (List.mem_append_right _ hdeclared)
  have hleft := hafter.left hg hg'
  have hright := hafter.right hg (fun _ hid => .inl hid) (hleft.sees_after hg)
  have hfront : Fits k B Free ps last vars ids [c] (a ++ d) m₂ :=
    hc.append (fits_temporary ht (hin.after ht.grows (List.Subset.refl _)).sees)
  have hblocks := hfront.branches (hx hleft htarget) (hy hright htarget)
  have hend : m'.Sees Free ids (vars ++ C.declares ((a ++ d) ++ [.branch c x (some y)])) := by
    have hsees := hafter.sees_after (hg.both hg')
    rw [C.declares_append (a ++ d)]
    exact hsees.mono (by simp)
  rw [← List.append_assoc]
  refine fits_load ⟨hblocks.stmts, hblocks.texts, hend⟩ hl fun z hz => ⟨?_, (htarget z hz).2⟩
  rw [C.declares_append (a ++ d), ← List.append_assoc]
  exact List.mem_append_left _ (htarget z hz).1

end

/-- The texts of two operands read what either of them reads. -/
theorem usesAll_operands (e f : Expr) (v w : C.Expr) :
    C.Expr.usesAll ((Job.expr e v).texts ++ (Job.expr f w).texts) = v.uses ++ w.uses := by
  simp [C.Expr.usesAll, Job.texts]

/-- What lowering a job in its place leads to. -/
theorem Emits.fits (hconst : ∀ id e, g.constants id = some e → ∃ name, e = C.Expr.constant name)
    {j : Job} {a : List C.Stmt} (h : Emits k g B m j a m') :
    ∀ {ids : List IrId} {vars : List C.VarId}, Enclosed Free ps last ids vars m j.parts m' →
      j.scoped k.scope ids = true →
      (∀ x, j.target = some x → x ∈ vars ∧ ∀ id, last.vars id ≠ some x) →
      Fits k B Free ps last vars (j.introduced ++ ids) j.texts a m' := by
  induction h with
  | literal h lit hs =>
    intro ids vars hin _ _
    cases hs <;> exact .plain hin.sees rfl
  | @use m id x h name spelled hd hx =>
    intro ids vars hin hs _
    obtain ⟨id', hd', hid⟩ := Scope.sees_iff.1 hs
    cases hd.symm.trans hd'
    have hvisible : Visible k Free ps last vars x :=
      ⟨hin.sees id hid x hx, .inl ⟨_, hin.parts _ (List.mem_singleton_self _), id, ⟨rfl, hd⟩,
        hin.stays id x hx⟩⟩
    refine ⟨.nil, ?_, hin.sees.mono (List.subset_append_left ..)⟩
    intro v hv y hy
    obtain ⟨_, hy⟩ := hy
    rw [List.mem_singleton.1 hv] at hy
    cases List.mem_singleton.1 hy
    exact hvisible.mono (List.subset_append_left ..)
  | constant h name hd hn hv =>
    intro ids vars hin _ _
    obtain ⟨_, rfl⟩ := hconst _ _ hv
    exact .plain hin.sees rfl
  | retUnit h =>
    intro ids vars hin _ _
    have hnil : Fits k B Free ps last vars ids [] [] _ := .nil hin.sees
    exact (hnil.actPlain rfl fun u hu => absurd hu List.not_mem_nil).idle rfl
  | @ret m m' v a h value he ih =>
    intro ids vars hin hs _
    have hvalue := ih (hin.sub (List.sublist_cons_self ..)) hs nofun
    have hret := hvalue.actPlain (s := .ret (some v)) rfl fun u hu => C.Expr.mem_usesAll.1 hu
    exact hret.drop.idle rfl
  | call h callee args hc he ih =>
    intro ids vars hin hs _
    have hargs := ih (hin.sub ((List.sublist_cons_self ..).trans (List.sublist_cons_self ..))) hs
      nofun
    exact hargs.compose rfl
  | @assign m m₁ m' t v a b h target value ht hv iht ihv =>
    intro ids vars hin hs _
    obtain ⟨hst, hsv⟩ := Bool.and_eq_true _ _ ▸ hs
    have hboth := Fits.sequence (hin.sub (List.sublist_cons_self ..)) ht.grows hv.grows
      (fun he => iht he hst nofun) fun he => ihv he hsv nofun
    have hdone := hboth.actPlain (s := .assign t v) rfl fun u hu => by
      rcases List.mem_append.1 hu with hu | hu
      · exact ⟨t, List.mem_cons_self .., hu⟩
      · exact ⟨v, List.mem_cons_of_mem _ (List.mem_singleton_self _), hu⟩
    rw [← List.append_assoc]
    refine hdone.congr fun w hw x hx => ⟨t, List.mem_cons_self .., ?_⟩
    rw [List.mem_singleton.1 hw] at hx
    exact hx
  | binary h op lhs rhs hl hr ihl ihr =>
    intro ids vars hin hs _
    obtain ⟨hsl, hsr⟩ := Bool.and_eq_true _ _ ▸ hs
    have hboth := Fits.sequence (hin.sub (List.sublist_cons_self ..)) hl.grows hr.grows
      (fun he => ihl he hsl nofun) fun he => ihr he hsr nofun
    exact hboth.compose (usesAll_operands ..).symm
  | ifOnly h condition body b hc hb ihc ihb =>
    intro ids vars hin hs _
    obtain ⟨hsc, hsb⟩ := Bool.and_eq_true _ _ ▸ hs
    have hparts := hin.sub (List.sublist_cons_self ..)
    have hcond := ihc (hparts.left hc.grows hb.grows) hsc nofun
    have hbody := ihb (hparts.right hc.grows (fun _ hid => .inl hid) hcond.sees) hsb nofun
    exact ((hcond.branch hbody).later (hparts.sees_after (hc.grows.both hb.grows))).idle rfl
  | ifElse h condition thenBody elseBody x y hty hc ht hx hy hl ihc ihx ihy =>
    intro ids vars hin hs _
    obtain ⟨hsc, hsb⟩ := Bool.and_eq_true _ _ ▸ hs
    obtain ⟨hsx, hsy⟩ := Bool.and_eq_true _ _ ▸ hsb
    have hparts := hin.sub (List.sublist_cons_self ..)
    have hcond := ihc (hparts.left hc.grows (ht.grows.trans (hx.grows.both hy.grows))) hsc nofun
    have hrest := hparts.right hc.grows (fun _ hid => .inl hid) hcond.sees
    exact fits_branches hrest hcond ht hx.grows hy.grows hl (fun he htarget => ihx he hsx htarget)
      fun he htarget => ihy he hsy htarget
  | ifElseIf h condition thenBody elseIf x y hc hx hy ihc ihx ihy =>
    intro ids vars hin hs _
    obtain ⟨hsc, hsb⟩ := Bool.and_eq_true _ _ ▸ hs
    obtain ⟨hsx, hsy⟩ := Bool.and_eq_true _ _ ▸ hsb
    have hparts := hin.sub (List.sublist_cons_self ..)
    have hcond := ihc (hparts.left hc.grows (hx.grows.both hy.grows)) hsc nofun
    have hrest := hparts.right hc.grows (fun _ hid => .inl hid) hcond.sees
    have hleft := hrest.left hx.grows hy.grows
    have hthen := ihx hleft hsx nofun
    have helse := ihy (hrest.right hx.grows (fun _ hid => .inl hid) (hleft.sees_after hx.grows)) hsy
      nofun
    have hend := hparts.sees_after (hc.grows.both (hx.grows.both hy.grows))
    exact ((hcond.branches hthen helse).later hend).idle rfl
  | @block m m₁ m' t v target d h ss tail x hty ht hx hl ih =>
    intro ids vars hin hs _
    have hd : Fits k B Free ps last vars ids [] d m₁ :=
      fits_temporary ht (hin.after ht.grows (List.Subset.refl _)).sees
    have hafter := hin.after ht.grows (List.subset_append_left vars (C.declares d))
    have htarget := declared_temporary ht hin.ready.proper (hx.grows.older.trans hin.older)
    have hbody := ih hafter hs fun z hz =>
      ⟨List.mem_append_right _ (htarget z hz).1, (htarget z hz).2⟩
    have hblock := hd.act (s := .block x) (fun u hu => absurd hu List.not_mem_nil) fun b hb => by
      rw [List.mem_singleton.1 hb]
      exact hbody.stmts
    refine fits_load (hblock.later (hin.sees_after (ht.grows.trans hx.grows))) hl fun z hz => ?_
    rw [C.declares_append, ← List.append_assoc]
    exact ⟨List.mem_append_left _ (List.mem_append_right _ (htarget z hz).1), (htarget z hz).2⟩
  | index h base position hb hp ihb ihp =>
    intro ids vars hin hs _
    obtain ⟨hsb, hsp⟩ := Bool.and_eq_true _ _ ▸ hs
    have hboth := Fits.sequence (hin.sub (List.sublist_cons_self ..)) hb.grows hp.grows
      (fun he => ihb he hsb nofun) fun he => ihp he hsp nofun
    exact hboth.compose (usesAll_operands ..).symm
  | array h values hty hc he ih =>
    intro ids vars hin hs _
    exact (ih (hin.sub (List.sublist_cons_self ..)) hs nofun).compose rfl
  | @copies m m' ct v a h element count he ih =>
    intro ids vars hin hs _
    refine (ih (hin.sub (List.sublist_cons_self ..)) hs nofun).congr fun w hw x hx => ?_
    obtain ⟨name, hx⟩ := hx
    rw [List.mem_singleton.1 hw] at hx
    obtain ⟨u, hu, hx⟩ := C.Expr.mem_usesAll.1 hx
    rw [List.eq_of_mem_replicate hu] at hx
    exact ⟨v, List.mem_singleton_self _, name, hx⟩
  | struct h path fields hty hc hf ho ih =>
    intro ids vars hin hs _
    have hfields := ih
      (hin.sub ((List.sublist_cons_self ..).trans (List.sublist_cons_self ..))) hs nofun
    refine hfields.congr fun w hw x hx => ?_
    obtain ⟨name, hx⟩ := hx
    rw [List.mem_singleton.1 hw] at hx
    obtain ⟨v, hv, hx⟩ := C.Expr.mem_usesAll.1 hx
    exact ⟨v, mem_of_mem_taken ((taken_perm ho).mem_iff.1 hv), name, hx⟩
  | exprsNil | fieldsNil | tailNone | stmtsNil =>
    intro ids vars hin _ _
    exact .nil hin.sees
  | exprsCons e es he hes ih ihs =>
    intro ids vars hin hs _
    obtain ⟨hse, hses⟩ := Bool.and_eq_true _ _ ▸ hs
    exact Fits.sequence hin he.grows hes.grows (fun h => ih h hse nofun) fun h => ihs h hses nofun
  | fieldsCons inOrder h name value rest hstay he hes ih ihs =>
    intro ids vars hin hs _
    obtain ⟨hse, hses⟩ := Bool.and_eq_true _ _ ▸ hs
    exact Fits.sequence (hin.sub (List.sublist_cons_self ..)) he.grows hes.grows
      (fun h => ih h hse nofun) fun h => ihs h hses nofun
  | @fieldsKeep m m₁ m₂ m' t v w target vs a d s b inOrder h name value rest hstay he hty ht hk hes
      ih ihs =>
    intro ids vars hin hs _
    obtain ⟨hse, hses⟩ := Bool.and_eq_true _ _ ▸ hs
    have hparts := hin.sub (List.sublist_cons_self ..)
    have hgrows := ht.grows.trans hes.grows
    have hvalue := ih (hparts.left he.grows hgrows) hse nofun
    have hrest := hparts.right he.grows (fun _ hid => .inl hid) hvalue.sees
    have hsees := ((hparts.left he.grows hgrows).sees_after he.grows)
    have hkept := fits_keep hvalue ht hk
      (fun id hid x hx => hsees id hid x (by rw [← ht.grows.others id List.not_mem_nil]; exact hx))
      hrest.ready.proper (hes.grows.older.trans hin.older)
    have hall : vars ++ C.declares a ⊆ vars ++ C.declares (a ++ (d ++ s)) := by
      rw [C.declares_append, ← List.append_assoc]
      exact List.subset_append_left ..
    have hall := hkept.append (ihs (hrest.after ht.grows hall) hses nofun)
    rw [List.append_assoc, List.append_assoc] at hall
    exact hall
  | tailValue e hv he ih =>
    intro ids vars hin hs _
    exact ih hin hs nofun
  | tailEffect e hv he ih =>
    intro ids vars hin hs _
    exact ih hin hs nofun
  | innerBlock h ss tail hss ht ihs iht =>
    intro ids vars hin hs _
    have hforget : ∀ id ∈ ids, id ∈ Stmt.introducedAll ss ++ ids :=
      fun _ hid => List.mem_append_right _ hid
    cases tail with
    | none =>
      cases ht
      rw [List.append_nil]
      exact (ihs (hin.sub (List.sublist_cons_self ..)) hs nofun).forget hforget
    | some e =>
      obtain ⟨hsss, hse⟩ := Bool.and_eq_true _ _ ▸ hs
      have hparts := hin.sub (List.sublist_cons_self ..)
      have hstmts := ihs (hparts.left hss.grows ht.grows) hsss nofun
      have hseen : ∀ id ∈ Stmt.introducedAll ss ++ ids,
          id ∈ ids ∨ id ∈ Part.declaredAll (Stmt.partsAll ss) := by
        intro id hid
        rcases List.mem_append.1 hid with hid | hid
        · exact .inr (Stmt.introducedAll_declared hid)
        · exact .inl hid
      have htail := iht (hparts.right hss.grows hseen hstmts.sees) hse nofun
      exact (hstmts.append htail).forget hforget
  | innerOther e hb he ih =>
    intro ids vars hin hs _
    exact ih hin hs nofun
  | @branch m m' target v a s e he hst ih =>
    intro ids vars hin hs htarget
    have hinner := ih hin hs nofun
    cases hst with
    | noTarget | noValue =>
      rw [List.append_nil]
      exact hinner.drop
    | both x name value =>
      obtain ⟨hx, hno⟩ := htarget x rfl
      have hboth := hinner.target ⟨List.mem_append_left _ hx, hno⟩ name
      refine (hboth.actPlain (s := .assign (.var x name) value) rfl fun u hu => ?_).drop
      rcases List.mem_append.1 hu with hu | hu
      · exact ⟨_, List.mem_cons_self .., hu⟩
      · exact ⟨value, List.mem_cons_of_mem _ (List.mem_cons_self ..), hu⟩
  | effectItself e ha he ih =>
    intro ids vars hin hs _
    exact (ih hin hs nofun).drop
  | @effect m m' v a e ha he ih =>
    intro ids vars hin hs _
    have hvalue := ih hin hs nofun
    exact (hvalue.actPlain (s := .expr v) rfl
      fun u hu => ⟨v, List.mem_singleton_self _, hu⟩).drop
  | declareNothing h pattern ascribed hty hn =>
    intro ids vars hin _ _
    exact .nil (hin.sees.nothing (hin.ready.new _ (List.mem_cons_self ..)))
  | @declare m t ct declared spelled h pattern ascribed hty hc =>
    intro ids vars hin _ _
    have hnil : Fits k B Free ps last vars ids [] [] m := .nil hin.sees
    have hlet := hnil.actPlain (s := .declare m.var declared spelled none) rfl
      fun u hu => absurd hu List.not_mem_nil
    refine ⟨hlet.stmts, fun v hv => absurd hv List.not_mem_nil, ?_⟩
    exact hin.sees.declare (List.subset_append_left ..)
      (List.mem_append_right _ (List.mem_singleton_self _))
  | bindNothing h pattern ascribed init hty hn he ih =>
    intro ids vars hin hs _
    have hinit := ih (hin.sub ((List.sublist_append_right ..).trans (List.sublist_cons_self ..))) hs
      nofun
    refine ⟨hinit.stmts, hinit.texts, hinit.sees.nothing ?_⟩
    have hnot := (List.nodup_cons.1 hin.ready.distinct).1
    rw [he.grows.others _ fun hid => hnot (Part.mem_declaredAll_init ascribed hid)]
    exact hin.ready.new _ (List.mem_cons_self ..)
  | @bind m m' t ct declared spelled v a h pattern ascribed init hty hc he ih =>
    intro ids vars hin hs _
    have hbefore := hin.upTo (stays_bind hin.ready he) (Grows.declare m' h.id.ir).older
    have hinit := ih
      (hbefore.sub ((List.sublist_append_right ..).trans (List.sublist_cons_self ..))) hs nofun
    have hlet := hinit.actPlain (s := .declare m'.var declared spelled (some v)) rfl
      fun u hu => C.Expr.mem_usesAll.1 hu
    refine ⟨hlet.stmts, fun v hv => absurd hv List.not_mem_nil, ?_⟩
    rw [C.declares_append, ← List.append_assoc]
    exact hinit.sees.declare (List.subset_append_left ..)
      (List.mem_append_right _ (List.mem_singleton_self _))
  | stmtsCons st rest hst hr ihs ihr =>
    intro ids vars hin hs _
    obtain ⟨hss, hsr⟩ := Bool.and_eq_true _ _ ▸ hs
    have hfirst := ihs (hin.left hst.grows hr.grows) hss nofun
    have hseen : ∀ id ∈ st.introduced ++ ids, id ∈ ids ∨ id ∈ Part.declaredAll st.parts := by
      intro id hid
      rcases List.mem_append.1 hid with hid | hid
      · exact .inr (Stmt.introduced_declared hid)
      · exact .inl hid
    have hrest := ihr (hin.right hst.grows hseen hfirst.sees) hsr nofun
    have hall := hfirst.append hrest
    rw [← List.append_assoc] at hall
    exact hall

/-! ## Declarations in order -/

/-- Read from top to bottom, the statements declare variables in the order of their numbers, which
are these. -/
def Ordered (B : C.BlockId → List C.Stmt) (low high : Nat) (a : List C.Stmt) : Prop :=
  ∃ all, Nested B a all ∧ (C.declares all).Pairwise (fun v w => v.index < w.index) ∧
    ∀ v ∈ C.declares all, low ≤ v.index ∧ v.index < high

namespace Ordered

variable {low mid high : Nat} {a b : List C.Stmt} {s : C.Stmt}

theorem nil (low high : Nat) : Ordered B low high [] :=
  ⟨[], .nil, .nil, fun _ hv => absurd hv List.not_mem_nil⟩

theorem append (h : Ordered B low mid a) (h' : Ordered B mid high b) (hl : low ≤ mid)
    (hh : mid ≤ high) : Ordered B low high (a ++ b) := by
  obtain ⟨x, hx, hpx, hrx⟩ := h
  obtain ⟨y, hy, hpy, hry⟩ := h'
  refine ⟨x ++ y, hx.append hy, ?_, ?_⟩
  · rw [C.declares_append, List.pairwise_append]
    refine ⟨hpx, hpy, fun v hv w hw => ?_⟩
    have hlow := hrx v hv
    have hhigh := hry w hw
    omega
  · intro v hv
    rw [C.declares_append] at hv
    rcases List.mem_append.1 hv with hv | hv
    · have hrange := hrx v hv
      omega
    · have hrange := hry v hv
      omega

/-- A statement that declares nothing by itself. -/
theorem enclose (hs : s.declared? = none) (h : Ordered B low high (s.blocks.flatMap B)) :
    Ordered B low high [s] := by
  obtain ⟨x, hx, hp, hr⟩ := h
  have hall : C.declares (s :: x) = C.declares x := by
    unfold C.declares
    rw [List.filterMap_cons_none hs]
  refine ⟨s :: x, .single hx, ?_, ?_⟩
  · rw [hall]
    exact hp
  · rw [hall]
    exact hr

theorem plain (hs : s.declared? = none) (hb : s.blocks = []) : Ordered B low high [s] := by
  refine enclose hs ?_
  rw [hb]
  exact nil low high

theorem behind (h : Ordered B low high a) (hs : s.declared? = none) (hb : s.blocks = [])
    (hl : low ≤ high) : Ordered B low high (a ++ [s]) :=
  h.append (plain hs hb) hl (Nat.le_refl _)

theorem declare (m : Slots) (t : C.Ty) (name : String) (init : Option C.Expr) :
    Ordered B m.next (m.next + 1) [.declare m.var t name init] := by
  refine ⟨_, .single .nil, List.pairwise_singleton .., fun v hv => ?_⟩
  rw [List.mem_singleton.1 hv]
  exact ⟨Nat.le_refl _, Nat.lt_succ_self _⟩

theorem temporary {t : Ty} {target : Option C.VarId} {d : List C.Stmt}
    (h : Temporary g m t target d m') : Ordered B m.next m'.next d := by
  cases h with
  | none => exact nil _ _
  | some name declared _ _ => exact declare m declared name none

theorem keeps {target : Option C.VarId} {v w : C.Expr} {d : List C.Stmt} (h : Keeps target v w d)
    (n : Nat) : Ordered B n n d := by
  cases h with
  | asItIs => exact nil n n
  | moved => exact plain rfl rfl

theorem one {c : C.Expr} {x : C.BlockId} (h : Ordered B low high (B x)) :
    Ordered B low high [.branch c x none] := by
  refine enclose rfl ?_
  rw [show C.Stmt.blocks (.branch c x none) = [x] from rfl, List.flatMap_singleton]
  exact h

theorem two {c : C.Expr} {x y : C.BlockId} (h : Ordered B low mid (B x))
    (h' : Ordered B mid high (B y)) (hl : low ≤ mid) (hh : mid ≤ high) :
    Ordered B low high [.branch c x (some y)] := by
  refine enclose rfl ?_
  rw [show C.Stmt.blocks (.branch c x (some y)) = [x, y] from rfl, List.flatMap_cons,
    List.flatMap_singleton]
  exact h.append h' hl hh

end Ordered

theorem Emits.ordered {j : Job} {a : List C.Stmt} (h : Emits k g B m j a m') :
    Ordered B m.next m'.next a := by
  induction h with
  | literal | use | constant | exprsNil | fieldsNil | tailNone | stmtsNil | declareNothing =>
    exact .nil _ _
  | retUnit => exact .plain rfl rfl
  | ret _ _ he ih => exact ih.behind rfl rfl he.grows.next
  | call _ _ _ _ _ ih => exact ih
  | assign _ _ _ ht hv iht ihv =>
    rw [← List.append_assoc]
    exact (iht.append ihv ht.grows.next hv.grows.next).behind rfl rfl
      (Nat.le_trans ht.grows.next hv.grows.next)
  | binary _ _ _ _ hl hr ihl ihr => exact ihl.append ihr hl.grows.next hr.grows.next
  | ifOnly _ _ _ _ hc hb ihc ihb => exact ihc.append ihb.one hc.grows.next hb.grows.next
  | ifElse _ _ _ _ _ _ _ hc ht hx hy _ ihc ihx ihy =>
    have hall := Nat.le_trans hx.grows.next hy.grows.next
    exact ihc.append ((Ordered.temporary ht).append (ihx.two ihy hx.grows.next hy.grows.next)
      ht.grows.next hall) hc.grows.next (Nat.le_trans ht.grows.next hall)
  | ifElseIf _ _ _ _ _ _ hc hx hy ihc ihx ihy =>
    exact ihc.append (ihx.two ihy hx.grows.next hy.grows.next) hc.grows.next
      (Nat.le_trans hx.grows.next hy.grows.next)
  | block h ss tail x _ ht hx _ ih =>
    refine (Ordered.temporary ht).append (.enclose rfl ?_) ht.grows.next hx.grows.next
    rw [show C.Stmt.blocks (.block x) = [x] from rfl, List.flatMap_singleton]
    exact ih
  | index _ _ _ hb hp ihb ihp => exact ihb.append ihp hb.grows.next hp.grows.next
  | array _ _ _ _ _ ih => exact ih
  | copies _ _ _ _ ih => exact ih
  | struct _ _ _ _ _ _ _ ih => exact ih
  | exprsCons _ _ he hes ih ihs => exact ih.append ihs he.grows.next hes.grows.next
  | fieldsCons _ _ _ _ _ _ he hes ih ihs => exact ih.append ihs he.grows.next hes.grows.next
  | fieldsKeep _ _ _ _ _ _ he _ ht hk hes ih ihs =>
    exact ih.append ((Ordered.temporary ht).append ((Ordered.keeps hk _).append ihs
      (Nat.le_refl _) hes.grows.next) ht.grows.next hes.grows.next) he.grows.next
      (Nat.le_trans ht.grows.next hes.grows.next)
  | tailValue _ _ _ ih => exact ih
  | tailEffect _ _ _ ih => exact ih
  | innerBlock _ _ _ hs ht ihs iht => exact ihs.append iht hs.grows.next ht.grows.next
  | innerOther _ _ _ ih => exact ih
  | branch _ he hs ih =>
    cases hs with
    | noTarget | noValue =>
      rw [List.append_nil]
      exact ih
    | both => exact ih.behind rfl rfl he.grows.next
  | effectItself _ _ _ ih => exact ih
  | effect _ _ he ih => exact ih.behind rfl rfl he.grows.next
  | @declare m => exact .declare m _ _ _
  | bindNothing _ _ _ _ _ _ _ ih => exact ih
  | @bind m m' _ _ _ _ _ _ _ _ _ _ _ _ he ih =>
    exact ih.append (.declare m' _ _ _) he.grows.next (Nat.le_succ _)
  | stmtsCons _ _ hs hr ihs ihr => exact ihs.append ihr hs.grows.next hr.grows.next

/-! ## Functions -/

/-- Parameters are visible afterwards. -/
theorem Declares.sees {params : List Param} {ts : Members} {vs : List C.VarId}
    (h : Declares g m params ts vs m') : ∀ {ids : List IrId} {vars : List C.VarId},
    m.Ready (params.map (·.head.id.ir)) → m.Sees Free ids vars →
      m'.Sees Free (params.map (·.head.id.ir) ++ ids) (vars ++ vs) := by
  induction h with
  | none qs ts hno =>
    intro ids vars hr hs id hid v hv
    rw [List.append_nil]
    rcases List.mem_append.1 hid with hid | hid
    · rw [hr.new id hid] at hv
      cases hv
    · exact hs id hid v hv
  | @cons m m' vs t ct ts p rest name hc hd ih =>
    intro ids vars hr hs
    have hall : m.Ready ([p.head.id.ir] ++ rest.map (·.head.id.ir)) := hr
    have hnew : (m.declare p.head.id.ir).Ready (rest.map (·.head.id.ir)) :=
      hall.right (.declare m _)
    have hall := ih hnew (hs.declare (List.subset_append_left vars [m.var])
      (List.mem_append_right _ (List.mem_singleton_self _)))
    intro id hid v hv
    have hmem : id ∈ rest.map (·.head.id.ir) ++ ([p.head.id.ir] ++ ids) := by
      simp only [List.map_cons, List.mem_append, List.mem_cons, List.not_mem_nil] at hid ⊢
      tauto
    have hin := hall id hmem v hv
    rw [List.append_assoc] at hin
    exact hin

theorem Declares.ordered {params : List Param} {ts : Members} {vs : List C.VarId}
    (h : Declares g m params ts vs m') : m.next ≤ m'.next ∧
      vs.Pairwise (fun v w => v.index < w.index) ∧
      ∀ v ∈ vs, m.next ≤ v.index ∧ v.index < m'.next := by
  induction h with
  | none => exact ⟨Nat.le_refl _, .nil, fun v hv => absurd hv List.not_mem_nil⟩
  | @cons m m' vs t ct ts p rest name hc hd ih =>
    obtain ⟨hle, hpair, hrange⟩ := ih
    have hstep : m.next + 1 ≤ m'.next := hle
    refine ⟨by omega, List.pairwise_cons.2 ⟨fun w hw => ?_, hpair⟩, fun v hv => ?_⟩
    · have hlow : m.next + 1 ≤ w.index := (hrange w hw).1
      show m.next < w.index
      omega
    · rcases List.mem_cons.1 hv with rfl | hv
      · show m.next ≤ m.next ∧ m.next < m'.next
        omega
      · have hlow : m.next + 1 ≤ v.index := (hrange v hv).1
        have hhigh := (hrange v hv).2
        omega

theorem Ordered.finishes {slot : Option C.VarId} {v : Option C.Expr} {s : List C.Stmt}
    (h : Finishes slot v s) (n : Nat) : Ordered B n n s := by
  cases h with
  | noValue => exact .nil n n
  | returned x name spelled value =>
    exact (Ordered.plain (s := .assign (.var x name) value) rfl rfl).behind rfl rfl (Nat.le_refl n)
  | effect value => exact .plain rfl rfl

/-- The variables of a function are declared in the order of their numbers. -/
theorem EmitsFunction.ordered {id : IrId} {d : FunctionDecl} {vs : List C.VarId} {b : C.BlockId}
    (h : EmitsFunction k g B id d m vs b m') : ∃ all, Nested B (B b) all ∧
      (vs ++ C.declares all).Pairwise (fun v w => v.index < w.index) ∧
      ∀ v ∈ vs ++ C.declares all, m.next ≤ v.index ∧ v.index < m'.next := by
  cases h with
  | intro h ss tail hbody hty hfn hparams hslot hinner hfin hb =>
    obtain ⟨hle, hpair, hrange⟩ := hparams.ordered
    obtain ⟨all, hn, hp, hr⟩ := (Ordered.temporary hslot).append
      (hinner.ordered.append (.finishes hfin m'.next) hinner.grows.next (Nat.le_refl _))
      hslot.grows.next hinner.grows.next
    have hsize := Nat.le_trans hslot.grows.next hinner.grows.next
    rw [← hb] at hn
    refine ⟨all, hn, ?_, ?_⟩
    · rw [List.pairwise_append]
      refine ⟨hpair, hp, fun v hv w hw => ?_⟩
      have hv := hrange v hv
      have hw := hr w hw
      omega
    · intro v hv
      rcases List.mem_append.1 hv with hv | hv
      · have hv := hrange v hv
        omega
      · have hv := hr v hv
        omega

end MiddleEnd.Lower
