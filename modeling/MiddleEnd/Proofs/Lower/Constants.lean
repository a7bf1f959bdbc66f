/-
  What lowering knows about constants. Only constant items are entered as constants
  (`constants_of_runs`), and where the identities of a program are distinct, none of these is a
  declaration that gets a variable (`Program.constant_not_declared`).
-/
import Mathlib.Data.List.Nodup
import MiddleEnd.Proofs.Lower.Whole

namespace MiddleEnd

/-- The identity of a constant item. -/
def Item.constant? (i : Item) : Option IrId :=
  match i.kind with
  | .constant _ => some i.head.id.ir
  | _ => none

/-- The identities of the constants of a program. -/
def Program.constants (p : Program) : List IrId := p.items.filterMap Item.constant?

/-! ## Distinct identities -/

theorem Part.declared_sublist (p : Part) : p.declared.Sublist p.irs := by
  cases p with
  | bind h pattern => exact List.Sublist.cons_cons _ (List.nil_sublist _)
  | _ => exact List.nil_sublist _

theorem Part.declaredAll_sublist : ∀ ps : List Part, (declaredAll ps).Sublist (irsAll ps)
  | [] => .slnil
  | p :: rest => (Part.declared_sublist p).append (declaredAll_sublist rest)

theorem Expr.declared_sublist (e : Expr) : (Part.declaredAll e.parts).Sublist e.ids :=
  e.irsAll_parts ▸ Part.declaredAll_sublist e.parts

theorem params_sublist : ∀ ps : List Param,
    (ps.map (·.head.id.ir)).Sublist (ps.flatMap Param.ids)
  | [] => .slnil
  | p :: rest => by
    have hp : [p.head.id.ir].Sublist p.ids := by
      rw [p.ids_eq]
      exact List.singleton_sublist.2 (List.mem_cons_self ..)
    exact hp.append (params_sublist rest)

/-- The declarations of an item that get variables are among its identities. -/
theorem Item.declared_sublist (i : Item) : i.declared.Sublist i.ids := by
  rw [i.ids_eq]
  obtain ⟨h, k⟩ := i
  cases k with
  | function d =>
    have hparams : (d.params.map (·.head.id.ir)).Sublist
        (h.id.ir :: (d.params.flatMap Param.ids ++ TypeExpr.idsOf d.returns)) :=
      ((params_sublist d.params).trans (List.sublist_append_left ..)).cons _
    exact hparams.append d.body.declared_sublist
  | struct d => exact List.nil_sublist _
  | constant d => exact d.value.declared_sublist.trans (List.sublist_append_right ..)
  | static d =>
    have hself : [h.id.ir].Sublist (h.id.ir :: d.type.ids) :=
      List.singleton_sublist.2 (List.mem_cons_self ..)
    exact hself.append d.value.declared_sublist

theorem items_declared_sublist : ∀ is : List Item,
    (is.flatMap Item.declared).Sublist (is.flatMap Item.ids)
  | [] => .slnil
  | i :: rest => i.declared_sublist.append (items_declared_sublist rest)

/-- The declarations of a function differ from each other and from those of all other items. -/
theorem Program.declared_nodup {p : Program} (hn : p.ids.Nodup) {before after : List Item}
    {i : Item} {d : FunctionDecl} (hp : p.items = before ++ i :: after)
    (hi : i.kind = .function d) :
    ((before ++ after).flatMap Item.declared ++ d.declared).Nodup := by
  have hall : (p.items.flatMap Item.declared).Nodup := by
    rw [p.ids_eq] at hn
    exact hn.sublist (items_declared_sublist p.items)
  have hself : i.declared = d.declared := by
    unfold Item.declared
    rw [hi]
  rw [hp, List.flatMap_append, List.flatMap_cons, hself] at hall
  refine (List.Perm.nodup_iff ?_).1 hall
  rw [List.flatMap_append, List.append_assoc]
  exact (List.perm_append_comm ..).append_left _

theorem Program.heads_nodup {p : Program} (hn : p.ids.Nodup) :
    (p.items.map (·.head.id.ir)).Nodup := by
  have hone : ∀ i : Item, [i.head.id.ir].Sublist i.ids := by
    intro i
    rw [i.ids_eq]
    exact List.singleton_sublist.2 (List.mem_append_left _ i.head_mem_signatureIds)
  have hall : ∀ is : List Item, (is.map (·.head.id.ir)).Sublist (is.flatMap Item.ids) := by
    intro is
    induction is with
    | nil => exact .slnil
    | cons i rest ih => exact (hone i).append ih
  rw [p.ids_eq] at hn
  exact hn.sublist (hall p.items)

theorem Program.items_nodup {p : Program} (hn : p.ids.Nodup) : p.items.Nodup :=
  List.Nodup.of_map _ (Program.heads_nodup hn)

/-- Where identities are distinct, a function item is the first one with its identity. -/
theorem Program.first_of_nodup {p : Program} (hn : p.ids.Nodup) {before after : List Item}
    {i : Item} (hp : p.items = before ++ i :: after) :
    ∀ j ∈ before, ∀ e, j.kind = .function e → j.head.id.ir ≠ i.head.id.ir := by
  intro j hj _ _
  have hheads := Program.heads_nodup hn
  rw [hp, List.map_append, List.map_cons] at hheads
  exact (List.nodup_append.1 hheads).2.2 _ (List.mem_map_of_mem hj) _ (List.mem_cons_self ..)

/-- Every declaration that gets a variable is one of an item. -/
theorem Program.mem_declared {p : Program} {before after : List Item} {i : Item} {d : FunctionDecl}
    (hp : p.items = before ++ i :: after) (hi : i.kind = .function d) {id : IrId}
    (h : id ∈ (before ++ after).flatMap Item.declared ++ d.declared) :
    ∃ j ∈ p.items, id ∈ j.declared := by
  rw [hp]
  rcases List.mem_append.1 h with h | h
  · obtain ⟨j, hj, hid⟩ := List.mem_flatMap.1 h
    exact ⟨j, (List.mem_append.1 hj).elim (List.mem_append_left _ ·)
      fun h => List.mem_append_right _ (List.mem_cons_of_mem _ h), hid⟩
  · refine ⟨i, List.mem_append_right _ (List.mem_cons_self ..), ?_⟩
    unfold Item.declared
    rw [hi]
    exact h

theorem Item.declared_cases {i : Item} {id : IrId} (h : id ∈ i.declared) :
    id ∈ i.firm ∧ (∀ d, i.kind ≠ .constant d) ∨ id ∈ Part.irsAll i.parts := by
  have hbody : ∀ e : Expr, i.bodyParts = e.parts → id ∈ Part.declaredAll e.parts →
      id ∈ Part.irsAll i.parts := by
    intro e he hid
    rw [Item.parts, Part.irsAll_append, he]
    exact List.mem_append_right _ ((Part.declaredAll_sublist _).subset hid)
  obtain ⟨g, k⟩ := i
  cases k with
  | function d =>
    rcases List.mem_append.1 h with h | h
    · refine .inl ⟨List.mem_cons_of_mem _ ?_, fun d hd => by cases hd⟩
      obtain ⟨q, hq, rfl⟩ := List.mem_map.1 h
      exact List.mem_flatMap.2 ⟨q, hq, List.mem_cons_self ..⟩
    · exact .inr (hbody d.body rfl h)
  | struct d => cases h
  | constant d => exact .inr (hbody d.value rfl h)
  | static d =>
    rcases List.mem_cons.1 h with rfl | h
    · exact .inl ⟨List.mem_cons_self .., fun d hd => by cases hd⟩
    · exact .inr (hbody d.value rfl h)

/-- The identity of an item is not among the declarations of another. -/
theorem Program.head_not_declared {p : Program} (hn : p.ids.Nodup) {i j : Item} (hi : i ∈ p.items)
    (hj : j ∈ p.items) (hne : i ≠ j) : i.head.id.ir ∉ j.declared := by
  have hsplit := List.nodup_append.1 (p.ids_perm.nodup_iff.1 hn)
  intro hdecl
  rcases Item.declared_cases hdecl with ⟨hjf, _⟩ | hparts
  · exact not_mem_of_nodup_flatMap hsplit.1 hi hj hne i.head_mem_firm hjf
  · refine hsplit.2.2 _ (List.mem_flatMap.2 ⟨i, hi, i.head_mem_firm⟩) _ ?_ rfl
    unfold Program.parts
    rw [irsAll_flatMap]
    exact List.mem_flatMap.2 ⟨j, hj, hparts⟩

/-- No constant is a declaration that gets a variable. -/
theorem Program.constant_not_declared {p : Program} (hn : p.ids.Nodup) {id : IrId}
    (hid : id ∈ p.constants) {j : Item} (hj : j ∈ p.items) : id ∉ j.declared := by
  obtain ⟨i, hi, hc⟩ := List.mem_filterMap.1 hid
  have hfirm : i.head.id.ir = id ∧ ∃ d, i.kind = .constant d := by
    unfold Item.constant? at hc
    split at hc
    · rename_i d hk
      cases hc
      exact ⟨rfl, d, hk⟩
    · cases hc
  obtain ⟨rfl, d, hk⟩ := hfirm
  by_cases hij : i = j
  · intro hdecl
    rw [← hij] at hdecl
    rcases Item.declared_cases hdecl with ⟨_, hno⟩ | hparts
    · exact hno d hk
    · have hsplit := List.nodup_append.1 (p.ids_perm.nodup_iff.1 hn)
      refine hsplit.2.2 _ (List.mem_flatMap.2 ⟨i, hi, i.head_mem_firm⟩) _ ?_ rfl
      unfold Program.parts
      rw [irsAll_flatMap]
      exact List.mem_flatMap.2 ⟨i, hi, hparts⟩
  · exact Program.head_not_declared hn hi hj hij

/-! ## Entered constants -/

namespace Lower

variable {k : Checked} {l l' : Lowering} {ids : List IrId}

/-- Only these declarations are entered as constants. -/
def Entered (ids : List IrId) (l : Lowering) : Prop :=
  ∀ id, (setting l).constants id ≠ none → id ∈ ids

namespace Entered

theorem invariant (names : List String) : Invariant names (Entered ids) where
  wrap _ _ h := h
  add _ hr h := by
    obtain ⟨_, _, _, rfl⟩ := runs_addStmt.1 hr
    exact h
  declare _ _ hr h := by
    obtain ⟨_, _, _, rfl⟩ := runs_addStmt.1 hr
    exact h
  begins _ rnew rpush h := by
    obtain ⟨_, rfl⟩ := runs_build.1 rnew
    rw [runs_pushBlock.1 rpush]
    exact h
  ends _ _ _ hr h := by
    obtain ⟨_, _, _, _, rfl⟩ := runs_popBlock.1 hr
    exact h

theorem phases (p : Program) : PhaseInvariant p (Entered p.constants) where
  inside := invariant
  rest {l l'} _ _ _ hc _ _ h id hid := by
    have hid : l'.constants[id]? ≠ none := hid
    rw [hc] at hid
    exact h id hid
  constant {l i d} e hi hd h other ho := by
    by_cases he : i.head.id.ir = other
    · rw [← he]
      refine List.mem_filterMap.2 ⟨i, hi, ?_⟩
      unfold Item.constant?
      rw [hd]
    · refine h other ?_
      have hget : (l.constants.insert i.head.id.ir e)[other]? = l.constants[other]? := by
        rw [Std.TreeMap.getElem?_insert, if_neg fun hc => he (Std.LawfulEqOrd.eq_of_compare hc)]
      show l.constants[other]? ≠ none
      rw [← hget]
      exact ho
  static _ _ _ _ h := h

end Entered

/-- Only the constants of a program are entered as constants. -/
theorem constants_of_runs {p : Program} {target : String} {u : Unit}
    (hr : Runs (do enterPrimitives k; program k p) (.empty target) u l') :
    Entered p.constants l' := by
  obtain ⟨l₀, l₁, hphases, _, hchain, rwrite⟩ := bodies_of_runs hr
  have hbefore : Entered p.constants l₀ :=
    hphases _ (Entered.phases p) fun id hid => absurd rfl hid
  have hend : Entered p.constants l₁ := by
    refine hchain.invariant (I := fun _ l => Entered p.constants l) ?_ hbefore
    intro l i l₁ _ h hr id hid
    refine h id ?_
    rcases runs_bodyItem hr with ⟨_, _, _, _, ⟨_, rfl⟩ | ⟨_, hfilled⟩⟩ | ⟨_, rfl⟩
    · exact hid
    · rw [hfilled.setting] at hid
      exact hid
    · exact hid
  obtain ⟨_, _, rfl⟩ := runs_write rwrite
  exact hend

end Lower

end MiddleEnd
