/-
  What the statements of an expression assign: the variables of the places that the expression
  assigns, and otherwise only variables that are made while it is lowered (`Emits.alters`).
-/
import MiddleEnd.Proofs.Lower.Remains

namespace MiddleEnd.Lower

variable {k : Checked} {g : Setting} {B : C.BlockId → List C.Stmt}

/-! ## Places -/

/-- The place that a text stands for is that of the expression, or belongs to a new variable. -/
structure AtPlace (k : Checked) (g : Setting) (m m' : Slots) (e : Expr) (v : C.Expr) : Prop where
  only : ∀ x, v.place? = some x → m.next ≤ x.index ∨ ∃ t, e.place? = some t ∧ Means k m' t x
  all : ∀ t, e.place? = some t → ∀ id, Names k t id → g.constants id = none →
    ∃ x, m'.vars id = some x ∧ v.place? = some x

namespace AtPlace

variable {m m₁ m' : Slots} {e : Expr} {v : C.Expr}

/-- Neither is a place. -/
theorem none (he : e.place? = none) (hv : v.place? = none) : AtPlace k g m m' e v where
  only x hx := by rw [hv] at hx; cases hx
  all t ht := by rw [he] at ht; cases ht

theorem later (h : AtPlace k g m m₁ e v) (hs : m₁.Stays m') : AtPlace k g m m' e v where
  only x hx := (h.only x hx).imp_right fun ⟨t, ht, hm⟩ => ⟨t, ht, hm.stays hs⟩
  all t ht id hn hc := by
    obtain ⟨x, hx, hp⟩ := h.all t ht id hn hc
    exact ⟨x, hs id x hx, hp⟩

/-- Another expression and text that stand for the same places. -/
theorem through (h : AtPlace k g m m' e v) {e' : Expr} {v' : C.Expr} (he : e'.place? = e.place?)
    (hv : v'.place? = v.place?) : AtPlace k g m m' e' v' where
  only := by rw [he, hv]; exact h.only
  all := by rw [he, hv]; exact h.all

end AtPlace

theorem Emits.atPlace (hconst : ∀ id e, g.constants id = some e → ∃ name, e = C.Expr.constant name)
    {m m' : Slots} {j : Job} {a : List C.Stmt} (h : Emits k g B m j a m')
    (hr : m.Ready j.declared) : ∀ e v, j = .expr e v → AtPlace k g m m' e v := by
  induction h with
  | literal h lit hs =>
    rintro e v ⟨⟩
    cases hs <;> exact .none rfl rfl
  | @use m id x h name spelled hd hx =>
    rintro e v ⟨⟩
    refine ⟨?_, ?_⟩
    · rintro y ⟨⟩
      exact .inr ⟨_, rfl, id, ⟨rfl, hd⟩, hx⟩
    · rintro t ⟨⟩ other hn _
      cases hd.symm.trans hn.2
      exact ⟨x, hx, rfl⟩
  | constant h name hd _ hv =>
    rintro e v ⟨⟩
    obtain ⟨_, rfl⟩ := hconst _ _ hv
    refine ⟨nofun, ?_⟩
    rintro t ⟨⟩ other hn hc
    cases hd.symm.trans hn.2
    rw [hv] at hc
    cases hc
  | assign h target value ht hv iht ihv =>
    rintro e v ⟨⟩
    exact ((iht hr.partsLeft _ _ rfl).later ((hr.partsRight ht.grows).stays hv.grows)).through rfl
      rfl
  | index h base position hb hp ihb ihp =>
    rintro e v ⟨⟩
    exact ((ihb hr.partsLeft _ _ rfl).later ((hr.partsRight hb.grows).stays hp.grows)).through rfl
      rfl
  | @ifElse _ m₁ _ _ _ _ _ _ _ _ _ h condition thenBody elseBody x y hty hc ht hx hy hl =>
    rintro e v ⟨⟩
    refine ⟨?_, nofun⟩
    intro y hy
    cases ht with
    | none => cases hl; cases hy
    | some =>
      cases hl
      cases hy
      exact .inl hc.grows.next
  | block h ss tail x hty ht hx hl =>
    rintro e v ⟨⟩
    refine ⟨?_, nofun⟩
    intro y hy
    cases ht with
    | none => cases hl; cases hy
    | some =>
      cases hl
      cases hy
      exact .inl (Nat.le_refl _)
  | retUnit | ret | call | binary | ifOnly | ifElseIf | array | copies | struct =>
    rintro e v ⟨⟩
    exact .none rfl rfl
  | _ => rintro e v ⟨⟩

/-! ## Statements -/

/-- These statements assign the variables of these names, and besides them only new variables and
the target. -/
structure Alters (k : Checked) (g : Setting) (B : C.BlockId → List C.Stmt)
    (target : Option C.VarId) (ts : List Expr) (m m' : Slots) (a : List C.Stmt) : Prop where
  only : ∀ x, C.Assigns B x a →
    m.next ≤ x.index ∨ target = some x ∨ ∃ t ∈ ts, Means k m' t x
  all : ∀ t ∈ ts, ∀ id, Names k t id → g.constants id = none →
    ∃ x, m'.vars id = some x ∧ C.Assigns B x a

namespace Alters

variable {m m₁ m' : Slots} {target : Option C.VarId} {ts us : List Expr} {a b : List C.Stmt}

theorem nil (m m' : Slots) : Alters k g B target [] m m' [] where
  only _ h := absurd h C.Assigns.not_nil
  all _ h := absurd h List.not_mem_nil

/-- A statement that assigns nothing and has no blocks. -/
theorem quiet (m m' : Slots) {s : C.Stmt} (hs : ∀ t v, s ≠ .assign t v) (hb : s.blocks = []) :
    Alters k g B target [] m m' [s] where
  only x h := by
    rcases C.Assigns.single_iff.1 h with ⟨t, v, he, _⟩ | ⟨b, hm, _⟩
    · exact absurd he (hs t v)
    · rw [hb] at hm
      cases hm
  all _ h := absurd h List.not_mem_nil

/-- The target, or a new variable, is assigned. -/
theorem store (m m' : Slots) {v : C.VarId} (hv : m.next ≤ v.index ∨ target = some v)
    (name : String) (value : C.Expr) :
    Alters k g B target [] m m' [.assign (.var v name) value] where
  only x h := by
    rcases C.Assigns.single_iff.1 h with ⟨t, w, he, ht⟩ | ⟨b, hm, _⟩
    · cases he
      cases ht
      exact hv.imp_right .inl
    · cases hm
  all _ h := absurd h List.not_mem_nil

theorem append (h : Alters k g B target ts m m₁ a) (h' : Alters k g B target us m₁ m' b)
    (hn : m.next ≤ m₁.next) (hs : m₁.Stays m') :
    Alters k g B target (ts ++ us) m m' (a ++ b) where
  only x hx := by
    rcases C.Assigns.append_iff.1 hx with hx | hx
    · rcases h.only x hx with hnew | ht | ⟨t, ht, hm⟩
      · exact .inl hnew
      · exact .inr (.inl ht)
      · exact .inr (.inr ⟨t, List.mem_append_left _ ht, hm.stays hs⟩)
    · rcases h'.only x hx with hnew | ht | ⟨t, ht, hm⟩
      · exact .inl (Nat.le_trans hn hnew)
      · exact .inr (.inl ht)
      · exact .inr (.inr ⟨t, List.mem_append_right _ ht, hm⟩)
  all t ht id hnames hc := by
    rcases List.mem_append.1 ht with ht | ht
    · obtain ⟨x, hx, ha⟩ := h.all t ht id hnames hc
      exact ⟨x, hs id x hx, C.Assigns.append_iff.2 (.inl ha)⟩
    · obtain ⟨x, hx, ha⟩ := h'.all t ht id hnames hc
      exact ⟨x, hx, C.Assigns.append_iff.2 (.inr ha)⟩

/-- Statements behind that assign nothing else. -/
theorem extend (h : Alters k g B target ts m m' a) (h' : Alters k g B target [] m' m' b)
    (hn : m.next ≤ m'.next) : Alters k g B target ts m m' (a ++ b) := by
  have hboth := h.append h' hn (.refl m')
  rw [List.append_nil] at hboth
  exact hboth

/-- Statements in front that assign nothing else. -/
theorem front (h : Alters k g B target [] m m' a) (h' : Alters k g B target ts m m' b) :
    Alters k g B target ts m m' (a ++ b) where
  only x hx := (C.Assigns.append_iff.1 hx).elim (fun ha => (h.only x ha).imp_right (Or.imp_right
    fun ⟨_, ht, _⟩ => absurd ht List.not_mem_nil)) (h'.only x)
  all t ht id hn hc := by
    obtain ⟨x, hx, ha⟩ := h'.all t ht id hn hc
    exact ⟨x, hx, C.Assigns.append_iff.2 (.inr ha)⟩

/-- Variables made in front. -/
theorem behind (h : Alters k g B target ts m₁ m' a) (hn : m.next ≤ m₁.next) :
    Alters k g B target ts m m' a where
  only x hx := (h.only x hx).imp_left (Nat.le_trans hn)
  all := h.all

/-- A target that is not assigned. -/
theorem widen (h : Alters k g B Option.none ts m m' a) (other : Option C.VarId) :
    Alters k g B other ts m m' a where
  only x hx := by
    rcases h.only x hx with hnew | hx | hm
    · exact .inl hnew
    · cases hx
    · exact .inr (.inr hm)
  all := h.all

/-- A target that is new itself. -/
theorem absorb (h : Alters k g B target ts m m' a)
    (ht : ∀ x, target = some x → m.next ≤ x.index) : Alters k g B Option.none ts m m' a where
  only x hx := by
    rcases h.only x hx with hnew | hx | hm
    · exact .inl hnew
    · exact .inl (ht x hx)
    · exact .inr (.inr hm)
  all := h.all

theorem block {x : C.BlockId} (h : Alters k g B target ts m m' (B x)) :
    Alters k g B target ts m m' [.block x] where
  only y hy := by
    rcases C.Assigns.single_iff.1 hy with ⟨t, v, he, _⟩ | ⟨b, hb, hy⟩
    · cases he
    · rw [List.mem_singleton.1 hb] at hy
      exact h.only y hy
  all t ht id hn hc := by
    obtain ⟨y, hy, ha⟩ := h.all t ht id hn hc
    exact ⟨y, hy, C.Assigns.single_iff.2 (.inr ⟨x, List.mem_singleton_self _, ha⟩)⟩

theorem branch {x : C.BlockId} (h : Alters k g B target ts m m' (B x)) (c : C.Expr) :
    Alters k g B target ts m m' [.branch c x Option.none] where
  only y hy := by
    rcases C.Assigns.single_iff.1 hy with ⟨t, v, he, _⟩ | ⟨b, hb, hy⟩
    · cases he
    · rw [List.mem_singleton.1 hb] at hy
      exact h.only y hy
  all t ht id hn hc := by
    obtain ⟨y, hy, ha⟩ := h.all t ht id hn hc
    exact ⟨y, hy, C.Assigns.single_iff.2 (.inr ⟨x, List.mem_singleton_self _, ha⟩)⟩

theorem branches {x y : C.BlockId} (h : Alters k g B target ts m m' (B x ++ B y)) (c : C.Expr) :
    Alters k g B target ts m m' [.branch c x (some y)] := by
  have hiff : ∀ z, C.Assigns B z [.branch c x (some y)] ↔ C.Assigns B z (B x ++ B y) := by
    intro z
    rw [C.Assigns.single_iff, C.Assigns.append_iff]
    simp [C.Stmt.blocks]
  refine ⟨fun z hz => h.only z ((hiff z).1 hz), fun t ht id hn hc => ?_⟩
  obtain ⟨z, hz, ha⟩ := h.all t ht id hn hc
  exact ⟨z, hz, (hiff z).2 ha⟩

/-- The assignment to a place, behind the statements of the place and of the value. -/
theorem assign {e : Expr} {t v : C.Expr} (h : Alters k g B target ts m m' a)
    (hp : AtPlace k g m m' e t) :
    Alters k g B target (e.place?.toList ++ ts) m m' (a ++ [.assign t v]) where
  only x hx := by
    rcases C.Assigns.append_iff.1 hx with hx | hx
    · refine (h.only x hx).imp_right (Or.imp_right ?_)
      rintro ⟨n, hn, hm⟩
      exact ⟨n, List.mem_append_right _ hn, hm⟩
    · rcases C.Assigns.single_iff.1 hx with ⟨_, _, he, hx⟩ | ⟨b, hb, _⟩
      · cases he
        refine (hp.only x hx).imp_right fun ⟨n, hn, hm⟩ => .inr ⟨n, ?_, hm⟩
        exact List.mem_append_left _ (Option.mem_toList.2 hn)
      · cases hb
  all n hn id hnames hc := by
    rcases List.mem_append.1 hn with hn | hn
    · obtain ⟨x, hx, hv⟩ := hp.all n (Option.mem_toList.1 hn) id hnames hc
      exact ⟨x, hx, C.Assigns.append_iff.2
        (.inr (C.Assigns.single_iff.2 (.inl ⟨t, v, rfl, hv⟩)))⟩
    · obtain ⟨x, hx, ha⟩ := h.all n hn id hnames hc
      exact ⟨x, hx, C.Assigns.append_iff.2 (.inl ha)⟩

/-- Statements behind the declaration of a temporary variable, which may be their target. -/
theorem after_temporary {t : Ty} {new : Option C.VarId} {d : List C.Stmt}
    (ht : Temporary g m t new d m₁) (h : Alters k g B new ts m₁ m' b) :
    Alters k g B Option.none ts m m' (d ++ b) := by
  have hn := ht.grows.next
  cases ht with
  | none => exact h
  | some _ _ _ _ =>
    have hrest := (h.behind hn).absorb fun x hx => Option.some.inj hx ▸ Nat.le_refl _
    exact .front (.quiet m m' nofun rfl) hrest

end Alters

/-- The variable that a job leaves its value in. -/
def Job.target : Job → Option C.VarId
  | .branch target _ => target
  | _ => none

theorem targets_cons_assign {h : Head} {target value : Expr} (ps : List Part) :
    Part.targets (.expr (.assign h target value) :: ps) =
      target.place?.toList ++ Part.targets ps := by
  unfold Part.targets
  cases hp : target.place? with
  | none => exact List.filterMap_cons_none hp
  | some t => exact List.filterMap_cons_some hp

theorem targets_cons {p : Part} (hp : p.target? = none) (ps : List Part) :
    Part.targets (p :: ps) = Part.targets ps :=
  List.filterMap_cons_none hp

/-- Jobs one after the other. -/
theorem Alters.sequence {m m₁ m' : Slots} {target : Option C.VarId} {ps qs : List Part}
    {a b : List C.Stmt} (hr : m.Ready (Part.declaredAll (ps ++ qs)))
    (hg : Grows (Part.declaredAll ps) m m₁) (hg' : Grows (Part.declaredAll qs) m₁ m')
    (h : m.Ready (Part.declaredAll ps) → Alters k g B target (Part.targets ps) m m₁ a)
    (h' : m₁.Ready (Part.declaredAll qs) → Alters k g B target (Part.targets qs) m₁ m' b) :
    Alters k g B target (Part.targets (ps ++ qs)) m m' (a ++ b) := by
  have hrest := hr.partsRight hg
  rw [Part.targets_append]
  exact (h hr.partsLeft).append (h' hrest) hg.next (hrest.stays hg')

/-- What a job adds assigns the variables of the names that the job assigns, and besides them only
new variables and the variable that it leaves its value in. -/
theorem Emits.alters (hconst : ∀ id e, g.constants id = some e → ∃ name, e = C.Expr.constant name)
    {m m' : Slots} {j : Job} {a : List C.Stmt} (h : Emits k g B m j a m')
    (hr : m.Ready j.declared) : Alters k g B j.target (Part.targets j.parts) m m' a := by
  induction h with
  | literal | use | constant | exprsNil | fieldsNil | tailNone | stmtsNil => exact .nil _ _
  | retUnit => exact .quiet _ _ nofun rfl
  | ret h value he ih => exact (ih hr).extend (.quiet _ _ nofun rfl) he.grows.next
  | call h callee args hc he ih => exact ih hr
  | @assign m m₁ m' t v a b h target value ht hv iht ihv =>
    have hplace := (ht.atPlace hconst hr.partsLeft _ _ rfl).later
      ((hr.partsRight ht.grows).stays hv.grows)
    have hall := (Alters.sequence hr ht.grows hv.grows iht ihv).assign (v := v) hplace
    rw [List.append_assoc] at hall
    rw [Job.parts, Expr.parts, targets_cons_assign]
    exact hall
  | binary h op lhs rhs hl hr' ihl ihr => exact .sequence hr hl.grows hr'.grows ihl ihr
  | ifOnly h condition body b hc hb ihc ihb =>
    exact .sequence hr hc.grows hb.grows ihc fun r => (ihb r).branch _
  | ifElse h condition thenBody elseBody x y hty hc ht hx hy hl ihc ihx ihy =>
    exact .sequence hr hc.grows (ht.grows.trans (hx.grows.both hy.grows)) ihc fun r =>
      .after_temporary ht
        ((Alters.sequence (r.after ht.grows) hx.grows hy.grows ihx ihy).branches _)
  | ifElseIf h condition thenBody elseIf x y hc hx hy ihc ihx ihy =>
    exact .sequence hr hc.grows (hx.grows.both hy.grows) ihc fun r =>
      (Alters.sequence r hx.grows hy.grows ihx ihy).branches _
  | block h ss tail x hty ht hx hl ih => exact .after_temporary ht (ih (hr.after ht.grows)).block
  | index h base position hb hp ihb ihp => exact .sequence hr hb.grows hp.grows ihb ihp
  | array h values hty hc he ih => exact ih hr
  | copies h element count he ih => exact ih hr
  | struct h path fields hty hc hf ho ih => exact ih hr
  | exprsCons e es he hes ih ihs => exact .sequence hr he.grows hes.grows ih ihs
  | fieldsCons inOrder h name value rest hs he hes ih ihs =>
    exact .sequence hr he.grows hes.grows ih ihs
  | @fieldsKeep m m₁ m₂ m' t v w target vs a d s b inOrder h name value rest hs he hty ht hk hes ih
      ihs =>
    refine .sequence hr he.grows (ht.grows.trans hes.grows) ih fun r =>
      .after_temporary ht (.front ?_ ((ihs (r.after ht.grows)).widen target))
    cases hk with
    | asItIs => exact .nil _ _
    | moved => exact .store _ _ (.inr rfl) _ _
  | tailValue e hv he ih => exact ih hr
  | tailEffect e hv he ih => exact ih hr
  | innerBlock h ss tail hs ht ihs iht =>
    cases tail with
    | none =>
      have hnone := iht ⟨hs.grows.proper hr.proper, .nil, nofun⟩
      have hall := (ihs hr).append hnone hs.grows.next (.of_grows ht.grows)
      rw [show Part.targets (Job.tail none _).parts = [] from rfl, List.append_nil] at hall
      exact hall
    | some e => exact .sequence hr hs.grows ht.grows ihs iht
  | innerOther e hb he ih => exact ih hr
  | @branch m m' target v a s e he hs ih =>
    refine ((ih hr).widen target).extend ?_ he.grows.next
    cases hs with
    | noTarget | noValue => exact .nil _ _
    | both x name value => exact .store _ _ (.inr rfl) name value
  | effectItself e ha he ih => exact ih hr
  | effect e ha he ih => exact (ih hr).extend (.quiet _ _ nofun rfl) he.grows.next
  | declareNothing h pattern ascribed hty hn =>
    rw [Job.parts, Stmt.parts, targets_cons rfl, TypeExpr.targets_partsOf]
    exact .nil _ _
  | declare h pattern ascribed hty hc =>
    rw [Job.parts, Stmt.parts, targets_cons rfl, TypeExpr.targets_partsOf]
    exact .quiet _ _ nofun rfl
  | bindNothing h pattern ascribed init hty hn he ih =>
    rw [Job.parts, Stmt.parts, targets_cons rfl, Part.targets_append, TypeExpr.targets_partsOf]
    exact ih (hr.of_sublist (sublist_declared_init h pattern ascribed _))
  | @bind m m' t ct declared spelled v a h pattern ascribed init hty hc he ih =>
    rw [Job.parts, Stmt.parts, targets_cons rfl, Part.targets_append, TypeExpr.targets_partsOf]
    have hinit := ih (hr.of_sublist (sublist_declared_init h pattern ascribed _))
    have hlet : Alters k g B none [] m' (m'.declare h.id.ir)
        [.declare m'.var declared spelled (some v)] := .quiet _ _ nofun rfl
    have hall := hinit.append hlet he.grows.next (stays_bind hr he)
    rw [List.append_nil] at hall
    exact hall
  | stmtsCons st rest hs hr' ihs ihr => exact .sequence hr hs.grows hr'.grows ihs ihr

end MiddleEnd.Lower
