/-
  What of an expression is left in its text, read off the checked tree, and what its statements
  assign. Lowering moves statements in front of an expression; the calls and names that stay in its
  text (`remains`) are evaluated after all of them, and the variables assigned meanwhile are those
  of the places that the expression assigns (`targets`) and new ones.
-/
import MiddleEnd.Proofs.C.Variables
import MiddleEnd.Proofs.Lower.Places

namespace MiddleEnd

/-- Whether the expression is a call. -/
def Expr.isCall : Expr → Bool
  | .call .. => true
  | _ => false

/-- Whether the expression is a name. -/
def Expr.isName : Expr → Bool
  | .identifier .. => true
  | _ => false

/-- The name of the variable that an assignment to this place changes. -/
def Expr.place? : Expr → Option Expr
  | .identifier h name => some (.identifier h name)
  | .assign _ target _ => target.place?
  | .index _ base _ => base.place?
  | _ => none

/-- The name that a part assigns. -/
def Part.target? : Part → Option Expr
  | .expr (.assign _ target _) => target.place?
  | _ => none

/-- The names that parts assign. -/
def Part.targets (ps : List Part) : List Expr := ps.filterMap Part.target?

theorem Part.targets_append (ps qs : List Part) :
    Part.targets (ps ++ qs) = Part.targets ps ++ Part.targets qs :=
  List.filterMap_append

theorem TypeExpr.targets_partsOf (a : Option TypeExpr) : Part.targets (partsOf a) = [] := by
  refine List.filterMap_eq_nil_iff.2 fun p hp => ?_
  cases p with
  | expr e => exact absurd hp (TypeExpr.noExpr_partsOf a e)
  | _ => rfl

namespace Lower

mutual

/-- The calls and names that are left in the text of an expression. -/
def remains (k : Checked) : Expr → List Expr
  | .identifier h name => [.identifier h name]
  | .call h f args => .call h f args :: remainsAll k args
  | .assign _ target _ => remains k target
  | .binary _ _ lhs rhs => remains k lhs ++ remains k rhs
  | .index _ base position => remains k base ++ remains k position
  | .array _ values => remainsAll k values
  | .copies _ element count => if count.toNat = 0 then [] else remains k element
  | .struct h _ fields =>
    let names := match (k.types.get? h.id.ir).bind Ty.struct? with
      | some (_, decls) => decls.toList.map (·.1)
      | none => []
    remainsFields k (fields.map FieldInit.name == names) names fields
  | .literal .. | .ret .. | .ifOnly .. | .ifElse .. | .ifElseIf .. | .block .. => []

def remainsAll (k : Checked) : List Expr → List Expr
  | [] => []
  | e :: rest => remains k e ++ remainsAll k rest

def remainsFields (k : Checked) (inOrder : Bool) (names : List String) : List FieldInit → List Expr
  | [] => []
  | .mk _ name value :: rest =>
    (if staysInPlace k inOrder value && isTaken names name (rest.map FieldInit.name) then
      remains k value else []) ++ remainsFields k inOrder names rest

end

variable {k : Checked} {g : Setting} {B : C.BlockId → List C.Stmt}

/-! ## Names of variables -/

/-- The name stands for this declaration. -/
def Names (k : Checked) (e : Expr) (id : IrId) : Prop :=
  e.isName = true ∧ Check.declaration k.scope e = .ok id

/-- The name stands for a declaration that has this variable. -/
def Means (k : Checked) (m : Slots) (e : Expr) (v : C.VarId) : Prop :=
  ∃ id, Names k e id ∧ m.vars id = some v

theorem Means.stays {m m' : Slots} {e : Expr} {v : C.VarId} (h : Means k m e v)
    (hs : m.Stays m') : Means k m' e v := by
  obtain ⟨id, hn, hv⟩ := h
  exact ⟨id, hn, hs id v hv⟩

/-- What has a variable now is older than what is made from now on. -/
def Slots.Older (m m' : Slots) : Prop :=
  m.next ≤ m'.next ∧ ∀ id v, m'.vars id = some v → m.vars id = some v ∨ m.next ≤ v.index

theorem Grows.older {ids : List IrId} {m m' : Slots} (h : Grows ids m m') : m.Older m' :=
  ⟨h.next, h.fresh⟩

/-! ## Texts -/

/-- These texts hold the calls and read the variables of these calls and names, and besides them
only variables that belong to no declaration. -/
structure Retains (k : Checked) (g : Setting) (es : List Expr) (m : Slots) (vs : List C.Expr) :
    Prop where
  calls : (∃ v ∈ vs, v.Calls) ↔ ∃ e ∈ es, e.isCall = true
  older : ∀ v ∈ vs, ∀ x, v.Reads x → x.index < m.next
  reads : ∀ v ∈ vs, ∀ x, v.Reads x → (∃ e ∈ es, Means k m e x) ∨ ∀ id, m.vars id ≠ some x
  names : ∀ e ∈ es, ∀ id, Names k e id → g.constants id = none →
    ∃ x, m.vars id = some x ∧ ∃ v ∈ vs, v.Reads x

namespace Retains

variable {es fs : List Expr} {m m' : Slots} {vs ws : List C.Expr}

theorem nil (m : Slots) : Retains k g [] m [] where
  calls := by simp
  older _ h := absurd h List.not_mem_nil
  reads _ h := absurd h List.not_mem_nil
  names _ h := absurd h List.not_mem_nil

/-- A text without calls and variables. -/
theorem plain (m : Slots) {v : C.Expr} (hc : v.calls = 0) (hu : v.uses = []) :
    Retains k g [] m [v] where
  calls := by simp [C.Expr.Calls, hc]
  older w hw x h := by
    rw [List.mem_singleton.1 hw, C.Expr.Reads, hu] at h
    simp at h
  reads w hw x h := by
    rw [List.mem_singleton.1 hw, C.Expr.Reads, hu] at h
    simp at h
  names _ h := absurd h List.not_mem_nil

theorem append (h : Retains k g es m vs) (h' : Retains k g fs m ws) :
    Retains k g (es ++ fs) m (vs ++ ws) where
  calls := by
    simp only [List.mem_append, or_and_right, exists_or]
    exact or_congr h.calls h'.calls
  older v hv x hx := by
    rcases List.mem_append.1 hv with hv | hv
    · exact h.older v hv x hx
    · exact h'.older v hv x hx
  reads v hv x hx := by
    rcases List.mem_append.1 hv with hv | hv
    · refine (h.reads v hv x hx).imp_left ?_
      rintro ⟨e, he, hm⟩
      exact ⟨e, List.mem_append_left _ he, hm⟩
    · refine (h'.reads v hv x hx).imp_left ?_
      rintro ⟨e, he, hm⟩
      exact ⟨e, List.mem_append_right _ he, hm⟩
  names e he id hn hc := by
    rcases List.mem_append.1 he with he | he
    · obtain ⟨x, hx, v, hv, hr⟩ := h.names e he id hn hc
      exact ⟨x, hx, v, List.mem_append_left _ hv, hr⟩
    · obtain ⟨x, hx, v, hv, hr⟩ := h'.names e he id hn hc
      exact ⟨x, hx, v, List.mem_append_right _ hv, hr⟩

/-- Texts do not change while more is lowered. -/
theorem later (h : Retains k g es m vs) (hs : m.Stays m') (ho : m.Older m') :
    Retains k g es m' vs where
  calls := h.calls
  older v hv x hx := Nat.lt_of_lt_of_le (h.older v hv x hx) ho.1
  reads v hv x hx := by
    refine (h.reads v hv x hx).imp ?_ fun hno id hid => ?_
    · rintro ⟨e, he, hm⟩
      exact ⟨e, he, hm.stays hs⟩
    · rcases ho.2 id x hid with hid | hnew
      · exact hno id hid
      · exact Nat.not_lt_of_le hnew (h.older v hv x hx)
  names e he id hn hc := by
    obtain ⟨x, hx, hr⟩ := h.names e he id hn hc
    exact ⟨x, hs id x hx, hr⟩

/-- Other texts with the same calls and variables. -/
theorem congr (h : Retains k g es m vs) (hc : (∃ v ∈ vs, v.Calls) ↔ ∃ w ∈ ws, w.Calls)
    (hr : ∀ x, (∃ v ∈ vs, v.Reads x) ↔ ∃ w ∈ ws, w.Reads x) : Retains k g es m ws where
  calls := hc.symm.trans h.calls
  older w hw x hx := by
    obtain ⟨v, hv, hx⟩ := (hr x).2 ⟨w, hw, hx⟩
    exact h.older v hv x hx
  reads w hw x hx := by
    obtain ⟨v, hv, hx⟩ := (hr x).2 ⟨w, hw, hx⟩
    exact h.reads v hv x hx
  names e he id hn hc := by
    obtain ⟨x, hx, hread⟩ := h.names e he id hn hc
    exact ⟨x, hx, (hr x).1 hread⟩

/-- A text that is made of others. -/
theorem compose (h : Retains k g es m vs) {w : C.Expr} (hc : w.calls = C.Expr.callsAll vs)
    (hu : w.uses = C.Expr.usesAll vs) : Retains k g es m [w] := by
  refine h.congr ?_ fun x => ?_
  · simp only [C.Expr.Calls, List.mem_singleton, exists_eq_left, hc, C.Expr.mem_callsAll]
    exact ⟨fun ⟨v, hv, c, hm⟩ => ⟨c, v, hv, hm⟩, fun ⟨c, v, hv, hm⟩ => ⟨v, hv, c, hm⟩⟩
  · simp only [C.Expr.Reads, List.mem_singleton, exists_eq_left, hu, C.Expr.mem_usesAll]
    exact ⟨fun ⟨v, hv, c, hm⟩ => ⟨c, v, hv, hm⟩, fun ⟨c, v, hv, hm⟩ => ⟨v, hv, c, hm⟩⟩

/-- A call with arguments that leave this. -/
theorem call (h : Retains k g es m vs) {e : Expr} (he : e.isCall = true) (f : C.FunctionId)
    (name : String) : Retains k g (e :: es) m [.call f name vs] where
  calls := by
    refine iff_of_true ⟨_, List.mem_singleton_self _, _, Multiset.mem_cons_self _ _⟩
      ⟨e, List.mem_cons_self .., he⟩
  older v hv x := by
    rw [List.mem_singleton.1 hv]
    rintro ⟨spelled, hx⟩
    obtain ⟨w, hw, hx⟩ := C.Expr.mem_usesAll.1 hx
    exact h.older w hw x ⟨spelled, hx⟩
  reads v hv x := by
    rw [List.mem_singleton.1 hv]
    rintro ⟨spelled, hx⟩
    obtain ⟨w, hw, hx⟩ := C.Expr.mem_usesAll.1 hx
    refine (h.reads w hw x ⟨spelled, hx⟩).imp_left ?_
    rintro ⟨e', he', hm⟩
    exact ⟨e', List.mem_cons_of_mem _ he', hm⟩
  names e' he' id hn hc := by
    rcases List.mem_cons.1 he' with rfl | he'
    · cases e' with
      | call => cases hn.1
      | _ => cases he
    · obtain ⟨x, hx, v, hv, spelled, hr⟩ := h.names e' he' id hn hc
      exact ⟨x, hx, _, List.mem_singleton_self _, spelled, C.Expr.mem_usesAll.2 ⟨v, hv, hr⟩⟩

/-- A name that stands for a variable. -/
theorem use (hp : m.Proper) {h : Head} {name : String} {id : IrId} {x : C.VarId}
    (hd : Check.declaration k.scope (.identifier h name) = .ok id) (hx : m.vars id = some x)
    (spelled : String) : Retains k g [.identifier h name] m [.var x spelled] where
  calls := by simp [C.Expr.Calls, C.Expr.calls, Expr.isCall]
  older v hv y hy := by
    simp only [List.mem_singleton] at hv
    simp only [hv, C.Expr.Reads, C.Expr.uses, List.mem_singleton, Prod.mk.injEq] at hy
    obtain ⟨_, rfl, _⟩ := hy
    exact hp.below id _ hx
  reads v hv y hy := by
    simp only [List.mem_singleton] at hv
    simp only [hv, C.Expr.Reads, C.Expr.uses, List.mem_singleton, Prod.mk.injEq] at hy
    obtain ⟨_, rfl, _⟩ := hy
    exact .inl ⟨_, List.mem_singleton_self _, id, ⟨rfl, hd⟩, hx⟩
  names e he other hn _ := by
    rw [List.mem_singleton.1 he] at hn
    cases hd.symm.trans hn.2
    exact ⟨x, hx, _, List.mem_singleton_self _, spelled, List.mem_singleton_self _⟩

/-- A name that stands for a constant. -/
theorem constant (m : Slots) {h : Head} {name spelled : String} {id : IrId} {v : C.Expr}
    (hd : Check.declaration k.scope (.identifier h name) = .ok id) (hv : g.constants id = some v) :
    Retains k g [.identifier h name] m [.constant spelled] where
  calls := by simp [C.Expr.Calls, C.Expr.calls, Expr.isCall]
  older w hw x hx := by
    simp only [List.mem_singleton] at hw
    simp [hw, C.Expr.Reads, C.Expr.uses] at hx
  reads w hw x hx := by
    simp only [List.mem_singleton] at hw
    simp [hw, C.Expr.Reads, C.Expr.uses] at hx
  names e he other hn hc := by
    rw [List.mem_singleton.1 he] at hn
    cases hd.symm.trans hn.2
    rw [hv] at hc
    cases hc

/-- A new variable for no declaration. -/
theorem temporary (hp : m.Proper) (spelled : String) :
    Retains k g [] m.fresh [.var m.var spelled] where
  calls := by simp [C.Expr.Calls, C.Expr.calls]
  older v hv y hy := by
    simp only [List.mem_singleton] at hv
    simp only [hv, C.Expr.Reads, C.Expr.uses, List.mem_singleton, Prod.mk.injEq] at hy
    obtain ⟨_, rfl, _⟩ := hy
    exact Nat.lt_succ_self _
  reads v hv y hy := by
    simp only [List.mem_singleton] at hv
    simp only [hv, C.Expr.Reads, C.Expr.uses, List.mem_singleton, Prod.mk.injEq] at hy
    obtain ⟨_, rfl, _⟩ := hy
    exact .inr fun id hid => Nat.lt_irrefl _ (hp.below id _ hid)
  names _ h := absurd h List.not_mem_nil

/-- The value left in a temporary variable, or none. -/
theorem load (hp : m.Proper) {t : Ty} {target : Option C.VarId} {d : List C.Stmt} {v : C.Expr}
    (ht : Temporary g m t target d m') (hl : Loads target v) : Retains k g [] m' [v] := by
  cases ht with
  | none _ =>
    cases hl
    exact .plain m rfl rfl
  | some _ _ _ _ =>
    cases hl with
    | some _ spelled => exact .temporary hp spelled

/-- Copies of a text. -/
theorem copies {v : C.Expr} (h : Retains k g es m [v]) (n : Nat) :
    Retains k g (if n = 0 then [] else es) m (List.replicate n v) := by
  by_cases hn : n = 0
  · rw [if_pos hn, hn]
    exact .nil m
  · rw [if_neg hn]
    refine h.congr ?_ fun x => ?_
    · simp [List.mem_replicate, hn]
    · simp [List.mem_replicate, hn]

/-- Texts in another order. -/
theorem perm (h : Retains k g es m vs) (hp : ws.Perm vs) : Retains k g es m ws :=
  h.congr (by simp only [hp.mem_iff]) fun x => by simp only [hp.mem_iff]

end Retains

/-- What the texts that a job comes to leave of it. -/
def Job.Retains (k : Checked) (g : Setting) (m : Slots) : Job → Prop
  | .expr e v => Lower.Retains k g (remains k e) m [v]
  | .exprs es vs => Lower.Retains k g (remainsAll k es) m vs
  | .fields inOrder fs vs => vs.map (·.1) = fs.map FieldInit.name ∧
    ∀ names, Lower.Retains k g (remainsFields k inOrder names fs) m (taken names vs)
  | _ => True

/-- The text of a field, if it is taken, in front of those of other fields. -/
theorem Retains.field {es fs : List Expr} {m : Slots} {name : String} {v : C.Expr}
    {vs : List (String × C.Expr)} {names rest : List String} (hnames : vs.map (·.1) = rest)
    (h : isTaken names name rest = true → Retains k g es m [v])
    (hno : isTaken names name rest = false → es = [])
    (hr : Retains k g fs m (taken names vs)) :
    Retains k g (es ++ fs) m (taken names ((name, v) :: vs)) := by
  rw [taken, hnames]
  cases ht : isTaken names name rest with
  | true => exact (h ht).append hr
  | false =>
    rw [hno ht]
    exact hr

theorem Emits.retains (hconst : ∀ id e, g.constants id = some e → ∃ name, e = C.Expr.constant name)
    {m m' : Slots} {j : Job} {a : List C.Stmt} (h : Emits k g B m j a m')
    (hr : m.Ready j.declared) : j.Retains k g m' := by
  induction h with
  | literal h lit hs =>
    cases hs <;> exact Retains.plain _ rfl rfl
  | use h name spelled hd hv => exact Retains.use hr.proper hd hv spelled
  | constant h name hd _ hv =>
    obtain ⟨_, rfl⟩ := hconst _ _ hv
    exact Retains.constant _ hd hv
  | retUnit | ret => exact Retains.plain _ rfl rfl
  | call h callee args hc he ih => exact (ih hr).call rfl _ _
  | assign h target value ht hv iht ihv =>
    exact (iht hr.partsLeft).later ((hr.partsRight ht.grows).stays hv.grows) hv.grows.older
  | binary h op lhs rhs hl hr' ihl ihr =>
    have hright := hr.partsRight hl.grows
    have hleft := (ihl hr.partsLeft).later (hright.stays hr'.grows) hr'.grows.older
    exact (hleft.append (ihr hright)).compose (by simp [C.Expr.calls, C.Expr.callsAll])
      (by simp [C.Expr.uses, C.Expr.usesAll])
  | ifOnly | ifElseIf => exact Retains.plain _ rfl rfl
  | ifElse h condition thenBody elseBody x y hty hc ht hx hy hl ihc ihx ihy =>
    have hm₁ := hr.partsRight hc.grows
    have hboth := hx.grows.both hy.grows
    exact (Retains.load hm₁.proper ht hl).later ((hm₁.after ht.grows).stays hboth) hboth.older
  | block h ss tail x hty ht hx hl ih =>
    exact (Retains.load hr.proper ht hl).later ((hr.after ht.grows).stays hx.grows) hx.grows.older
  | index h base position hb hp ihb ihp =>
    have hright := hr.partsRight hb.grows
    have hleft := (ihb hr.partsLeft).later (hright.stays hp.grows) hp.grows.older
    exact (hleft.append (ihp hright)).compose (by simp [C.Expr.calls, C.Expr.callsAll])
      (by simp [C.Expr.uses, C.Expr.usesAll])
  | array h values hty hc he ih => exact (ih hr).compose rfl rfl
  | copies h element count he ih => exact ((ih hr).copies count.toNat).compose rfl rfl
  | @struct m m' ct r name decls given vs a h path fields hty hc hf ho ih =>
    show Retains k g (remainsFields k (fields.map FieldInit.name ==
      match (k.types.get? h.id.ir).bind Ty.struct? with
      | some (_, decls) => decls.toList.map (·.1)
      | none => []) _ fields) m' [.struct ct vs]
    rw [hty]
    exact (((ih hr).2 _).perm (taken_perm ho)).compose rfl rfl
  | exprsNil => exact Retains.nil _
  | exprsCons e es he hes ih ihs =>
    have hrest := hr.partsRight he.grows
    exact ((ih hr.partsLeft).later (hrest.stays hes.grows) hes.grows.older).append (ihs hrest)
  | fieldsNil => exact ⟨rfl, fun names => Retains.nil _⟩
  | @fieldsCons m m₁ m' v vs a b inOrder h name value rest hs he hes ih ihs =>
    have hrest := Slots.Ready.partsRight hr he.grows
    obtain ⟨hnames, hvalues⟩ := ihs hrest
    refine ⟨congrArg (name :: ·) hnames, fun names => ?_⟩
    have hstays : staysInPlace k inOrder value = true := by
      unfold staysInPlace
      rw [hs, Bool.true_or]
    have hself := (ih (Slots.Ready.partsLeft hr)).later (hrest.stays hes.grows) hes.grows.older
    rw [remainsFields, hstays, Bool.true_and]
    refine Retains.field hnames (fun ht => ?_) (fun ht => ?_) (hvalues names)
    · rw [if_pos ht]
      exact hself
    · rw [if_neg (by rw [ht]; exact Bool.false_ne_true)]
  | @fieldsKeep m m₁ m₂ m' t v w target vs a d s b inOrder h name value rest hs he hty ht hk hes
      ih ihs =>
    have hm₁ := Slots.Ready.partsRight hr he.grows
    have hrest := hm₁.after ht.grows
    obtain ⟨hnames, hvalues⟩ := ihs hrest
    refine ⟨congrArg (name :: ·) hnames, fun names => ?_⟩
    rw [remainsFields]
    cases ht with
    | none hu =>
      cases hk
      have hstays : staysInPlace k inOrder value = true := by
        unfold staysInPlace
        rw [hty, Option.any_some, hu, Bool.or_true]
      have hself := (ih (Slots.Ready.partsLeft hr)).later (hrest.stays hes.grows) hes.grows.older
      rw [hstays, Bool.true_and]
      refine Retains.field hnames (fun ht => ?_) (fun ht => ?_) (hvalues names)
      · rw [if_pos ht]
        exact hself
      · rw [if_neg (by rw [ht]; exact Bool.false_ne_true)]
    | some _ _ hu _ =>
      cases hk with
      | moved _ spelled _ _ =>
        have hstays : staysInPlace k inOrder value = false := by
          unfold staysInPlace
          rw [hs, hty, Option.any_some, hu, Bool.or_false]
        rw [hstays, Bool.false_and, if_neg Bool.false_ne_true]
        refine Retains.field hnames (fun _ => ?_) (fun _ => rfl) (hvalues names)
        exact (Retains.temporary hm₁.proper spelled).later (hrest.stays hes.grows) hes.grows.older
  | _ => trivial

end Lower

end MiddleEnd
