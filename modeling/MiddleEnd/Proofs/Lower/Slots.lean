/-
  The variables that lowering gives to declarations. Every declaration gets a new variable and
  temporaries belong to none, so two declarations never share one (`Slots.Proper`), and lowering a
  piece of a body only changes what the `let`s in it have (`Emits.grows`).
-/
import MiddleEnd.Proofs.Lower.Emission
import MiddleEnd.Proofs.Syntax.Parts

namespace MiddleEnd

/-- The declaration that a part is, for which lowering makes a variable. -/
def Part.declared : Part → List IrId
  | .bind h _ => [h.id.ir]
  | _ => []

/-- The declarations among parts. -/
def Part.declaredAll (ps : List Part) : List IrId := ps.flatMap Part.declared

theorem Part.declaredAll_append (ps qs : List Part) :
    Part.declaredAll (ps ++ qs) = Part.declaredAll ps ++ Part.declaredAll qs :=
  List.flatMap_append ..

theorem Part.mem_declaredAll_init (ascribed : Option TypeExpr) {ps : List Part} {id : IrId}
    (h : id ∈ Part.declaredAll ps) :
    id ∈ Part.declaredAll (TypeExpr.partsOf ascribed ++ ps) := by
  rw [Part.declaredAll_append]
  exact List.mem_append_right _ h

/-- The declarations in a function: its parameters and the `let`s of its body. -/
def FunctionDecl.declared (d : FunctionDecl) : List IrId :=
  d.params.map (·.head.id.ir) ++ Part.declaredAll d.body.parts

namespace Lower

namespace Slots

theorem declare_self (m : Slots) (id : IrId) : (m.declare id).vars id = some m.var := if_pos rfl

theorem declare_other (m : Slots) {id other : IrId} (h : other ≠ id) :
    (m.declare id).vars other = m.vars other := if_neg h

/-- Variables are made in order, one for each declaration. -/
structure Proper (m : Slots) : Prop where
  below : ∀ id v, m.vars id = some v → v.index < m.next
  distinct : ∀ id id' v, m.vars id = some v → m.vars id' = some v → id = id'

end Slots

/-- Some declarations have got variables, which are new. -/
structure Grows (ids : List IrId) (m m' : Slots) : Prop where
  next : m.next ≤ m'.next
  others : ∀ id, id ∉ ids → m'.vars id = m.vars id
  fresh : ∀ id v, m'.vars id = some v → m.vars id = some v ∨ m.next ≤ v.index
  proper : m.Proper → m'.Proper

namespace Grows

variable {ids ids' : List IrId} {m m₁ m' : Slots}

theorem refl (m : Slots) : Grows [] m m where
  next := Nat.le_refl _
  others _ _ := rfl
  fresh _ _ h := .inl h
  proper := id

theorem trans (h : Grows ids m m₁) (k : Grows ids' m₁ m') : Grows (ids ++ ids') m m' where
  next := Nat.le_trans h.next k.next
  others id hid := by
    rw [List.mem_append, not_or] at hid
    rw [k.others id hid.2, h.others id hid.1]
  fresh id v hv := by
    rcases k.fresh id v hv with hv | hv
    · exact h.fresh id v hv
    · exact .inr (Nat.le_trans h.next hv)
  proper hm := k.proper (h.proper hm)

/-- Lowering parts one after the other. -/
theorem both {ps qs : List Part} (h : Grows (Part.declaredAll ps) m m₁)
    (k : Grows (Part.declaredAll qs) m₁ m') : Grows (Part.declaredAll (ps ++ qs)) m m' := by
  rw [Part.declaredAll_append]
  exact h.trans k

theorem and_nothing (h : Grows ids m m₁) (k : Grows [] m₁ m') : Grows ids m m' := by
  have hk := h.trans k
  rw [List.append_nil] at hk
  exact hk

theorem mono (h : Grows ids m m') (hs : ids ⊆ ids') : Grows ids' m m' where
  next := h.next
  others id hid := h.others id fun hm => hid (hs hm)
  fresh := h.fresh
  proper := h.proper

/-- A variable for no declaration. -/
theorem step (m : Slots) : Grows [] m m.fresh where
  next := Nat.le_succ _
  others _ _ := rfl
  fresh _ _ h := .inl h
  proper h := ⟨fun id v hv => Nat.lt_succ_of_lt (h.below id v hv), h.distinct⟩

theorem declare (m : Slots) (id : IrId) : Grows [id] m (m.declare id) where
  next := Nat.le_succ _
  others other ho := m.declare_other fun he => ho (List.mem_singleton.2 he)
  fresh other v hv := by
    by_cases he : other = id
    · rw [he, m.declare_self] at hv
      cases hv
      exact .inr (Nat.le_refl _)
    · rw [m.declare_other he] at hv
      exact .inl hv
  proper h := by
    refine ⟨?_, ?_⟩
    · intro other v hv
      by_cases he : other = id
      · rw [he, m.declare_self] at hv
        cases hv
        exact Nat.lt_succ_self _
      · rw [m.declare_other he] at hv
        exact Nat.lt_succ_of_lt (h.below other v hv)
    · intro a b v ha hb
      -- the new variable lies above all that are in use
      have hold : ∀ c, m.vars c = some v → some v ≠ some m.var := by
        intro c hc he
        cases he
        exact Nat.lt_irrefl _ (h.below c _ hc)
      by_cases hea : a = id <;> by_cases heb : b = id
      · rw [hea, heb]
      · rw [hea, m.declare_self] at ha
        rw [m.declare_other heb] at hb
        exact absurd ha.symm (hold b hb)
      · rw [m.declare_other hea] at ha
        rw [heb, m.declare_self] at hb
        exact absurd hb.symm (hold a ha)
      · rw [m.declare_other hea] at ha
        rw [m.declare_other heb] at hb
        exact h.distinct a b v ha hb

/-- What had a variable keeps it, unless it is declared once more. -/
theorem keeps (h : Grows ids m m') {id : IrId} {v : C.VarId} (hid : id ∉ ids)
    (hv : m.vars id = some v) : m'.vars id = some v :=
  (h.others id hid).trans hv

end Grows

/-! ## Emission -/

theorem Temporary.grows {g : Setting} {m m' : Slots} {t : Ty} {target : Option C.VarId}
    {d : List C.Stmt} (h : Temporary g m t target d m') : Grows [] m m' := by
  cases h with
  | none => exact .refl m
  | some => exact .step m

/-- The parts of what is lowered. -/
def Job.parts : Job → List Part
  | .expr e _ => e.parts
  | .exprs es _ => Expr.partsAll es
  | .fields _ fs _ => FieldInit.partsAll fs
  | .tail none _ => []
  | .tail (some e) _ => e.parts
  | .inner e _ => e.parts
  | .branch _ e => e.parts
  | .stmt st => st.parts
  | .stmts sts => Stmt.partsAll sts

/-- The declarations in what is lowered. -/
def Job.declared (j : Job) : List IrId := Part.declaredAll j.parts

variable {k : Checked} {g : Setting} {B : C.BlockId → List C.Stmt} {m m' : Slots} {j : Job}
  {a : List C.Stmt}

theorem Emits.grows (h : Emits k g B m j a m') : Grows j.declared m m' := by
  induction h with
  | literal | use | constant | retUnit | exprsNil | fieldsNil | tailNone | stmtsNil =>
    exact .refl _
  | ret _ _ _ ih => exact ih
  | call _ _ _ _ _ ih => exact ih
  | assign _ _ _ _ _ ih₁ ih₂ => exact ih₁.both ih₂
  | binary _ _ _ _ _ _ ih₁ ih₂ => exact ih₁.both ih₂
  | ifOnly _ _ _ _ _ _ ihc ihb => exact ihc.both ihb
  | ifElse _ _ _ _ _ _ _ _ ht _ _ _ ihc ihx ihy =>
    exact (ihc.and_nothing ht.grows).both (ihx.both ihy)
  | ifElseIf _ _ _ _ _ _ _ _ _ ihc ihx ihy => exact ihc.both (ihx.both ihy)
  | block _ _ _ _ _ ht _ _ ih => exact ht.grows.trans ih
  | index _ _ _ _ _ ih₁ ih₂ => exact ih₁.both ih₂
  | array _ _ _ _ _ ih => exact ih
  | copies _ _ _ _ ih => exact ih
  | struct _ _ _ _ _ _ _ ih => exact ih
  | exprsCons _ _ _ _ ih₁ ih₂ => exact ih₁.both ih₂
  | fieldsCons _ _ _ _ _ _ _ _ ih₁ ih₂ => exact ih₁.both ih₂
  | fieldsKeep _ _ _ _ _ _ _ _ ht _ _ ih₁ ih₂ => exact (ih₁.and_nothing ht.grows).both ih₂
  | tailValue _ _ _ ih => exact ih
  | tailEffect _ _ _ ih => exact ih
  | innerBlock _ _ tail _ _ ih₁ ih₂ =>
    cases tail with
    | none => exact ih₁.and_nothing ih₂
    | some e => exact ih₁.both ih₂
  | innerOther _ _ _ ih => exact ih
  | branch _ _ _ ih => exact ih
  | effectItself _ _ _ ih => exact ih
  | effect _ _ _ ih => exact ih
  | declareNothing h _ _ _ _ =>
    exact (Grows.refl _).mono (List.nil_subset _)
  | declare h pattern ascribed _ _ =>
    refine (Grows.declare _ _).mono ?_
    exact List.cons_subset_cons _ (List.nil_subset _)
  | bindNothing h pattern ascribed init _ _ _ ih =>
    exact ih.mono fun id hid => List.mem_cons_of_mem _ (Part.mem_declaredAll_init ascribed hid)
  | bind h pattern ascribed init _ _ _ ih =>
    refine (ih.trans (.declare _ _)).mono fun id hid => ?_
    rcases List.mem_append.1 hid with hid | hid
    · exact List.mem_cons_of_mem _ (Part.mem_declaredAll_init ascribed hid)
    · exact List.mem_cons.2 (.inl (List.mem_singleton.1 hid))
  | stmtsCons _ _ _ _ ih₁ ih₂ => exact ih₁.both ih₂

/-! ## Functions -/

theorem Declares.grows {ps : List Param} {ts : Members} {vs : List C.VarId}
    (h : Declares g m ps ts vs m') : Grows (ps.map (·.head.id.ir)) m m' := by
  induction h with
  | none => exact (Grows.refl _).mono (List.nil_subset _)
  | cons _ _ _ _ _ ih => exact (Grows.declare _ _).trans ih

theorem EmitsFunction.grows {id : IrId} {d : FunctionDecl} {vs : List C.VarId} {b : C.BlockId}
    (h : EmitsFunction k g B id d m vs b m') : Grows d.declared m m' := by
  cases h with
  | intro h ss tail hbody _ _ hparams hslot hinner _ _ =>
    unfold FunctionDecl.declared
    rw [hbody]
    exact (hparams.grows.and_nothing hslot.grows).trans hinner.grows

end Lower

end MiddleEnd
