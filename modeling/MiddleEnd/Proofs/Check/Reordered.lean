/-
  Checks of a program whose items stand in another order. Signatures and bodies of different items
  are local to regions that keep apart: none writes what another one sees. So a row of them comes to
  the same in any order (`Region.perm_forM`), and a check that ends well does so in any order of the
  items that keeps the one of the struct items, with the same types and the same reports
  (`Session.check_withItems`).
-/
import MiddleEnd.Proofs.Check.Local
import MiddleEnd.Proofs.Check.Unresolved

namespace MiddleEnd

namespace Region

open Check

variable {R : Region} {s s' : Scope}

/-! ## Agreement -/

namespace Agree

variable {t t' u : TypeTable}

/-- Nodes that the region does not see may change. -/
theorem later (h : R.Agree t t') {P : IrId → Prop} (hsame : SameBut P t' u)
    (hset : SameSetting t' u) (hP : ∀ id, P id → ¬ R.seen id) : R.Agree t u where
  setting := h.setting.trans hset
  builtinIds := h.builtinIds
  builtins := h.builtins
  stack := h.stack
  entries hseen := (hsame _ fun hp => hP _ hp hseen).trans (h.entries hseen)
  settled := h.settled

theorem left (h : R.Agree t t') : R.Agree t t :=
  ⟨.refl t, h.builtinIds, h.builtins, h.stack, fun _ => rfl, h.settled⟩

/-- A region that sees less agrees as well. -/
theorem narrow (h : R.Agree t t') {R' : Region} (hstart : R'.start = R.start)
    (hseen : ∀ id, R'.seen id → R.seen id) (hloose : ∀ id, ¬ R.loose id) : R'.Agree t t' where
  setting := h.setting
  builtinIds := by
    rw [hstart]
    exact h.builtinIds
  builtins := h.builtins
  stack := h.stack
  entries hid := h.entries (hseen _ hid)
  settled hid hget := .inl ((h.settled (hseen _ hid) hget).resolve_right fun h => hloose _ h.2)

end Agree

/-! ## Rows of steps -/

/-- Neither region writes what the other one sees. -/
def Apart (R S : Region) : Prop :=
  (∀ id, R.own id → ¬ S.seen id) ∧ ∀ id, S.own id → ¬ R.seen id

theorem Apart.symm {R S : Region} (h : Apart R S) : Apart S R := ⟨h.2, h.1⟩

section

variable {α : Type} {f g : α → Check PUnit} {regions : α → Region} {t : TypeTable} {l : List α}

/-- What the step for `a` comes to on its own. -/
def alone (f : α → Check PUnit) (t : TypeTable) (a : α) : Except Fault PUnit × Progress :=
  (f a).run.run ⟨t, [], []⟩

/-- A row of steps has left in progress `q` what each of its steps leaves on its own. -/
structure Gathers (regions : α → Region) (f : α → Check PUnit) (t : TypeTable) (l : List α)
    (p q : Progress) : Prop where
  diagnostics : q.diagnostics = p.diagnostics ++ l.flatMap fun a => (alone f t a).2.diagnostics
  own : ∀ a ∈ l, ∀ id, (regions a).own id → q.types.get? id = (alone f t a).2.types.get? id
  others : ∀ id, (∀ a ∈ l, ¬ (regions a).own id) → q.types.get? id = p.types.get? id
  setting : SameSetting p.types q.types

/-- Where steps are local to regions that keep apart, each comes to what it comes to on its own, and
so does the row. -/
theorem gathers_forM : ∀ {l : List α} {p q : Progress} {r : Except Fault PUnit},
    (∀ a ∈ l, (regions a).Local (fun _ => True) (f a) (g a)) →
    l.Pairwise (fun a c => Apart (regions a) (regions c)) →
    (∀ a ∈ l, ∀ id, (regions a).own id → (regions a).seen id) →
    (∀ a ∈ l, (regions a).Agree t p.types) → (l.forM g).run.run p = (r, q) →
    (r = .ok () ↔ ∀ a ∈ l, (alone f t a).1 = .ok ()) ∧
      (r = .ok () → Gathers regions f t l p q)
  | [], p, q, r, _, _, _, _, hrun => by
    cases hrun
    refine ⟨⟨fun _ _ hm => absurd hm List.not_mem_nil, fun _ => rfl⟩, fun _ => ?_⟩
    exact ⟨(List.append_nil _).symm, fun _ hm => absurd hm List.not_mem_nil, fun _ _ => rfl,
      .refl _⟩
  | a :: l, p, q, r, hlocal, happart, hseen, hagree, hrun => by
    obtain ⟨ha, hl⟩ := List.forall_mem_cons.1 hlocal
    obtain ⟨hac, hcs⟩ := List.pairwise_cons.1 happart
    obtain ⟨hsa, hsl⟩ := List.forall_mem_cons.1 hseen
    obtain ⟨hpa, hpl⟩ := List.forall_mem_cons.1 hagree
    obtain ⟨x, ds, u, v, hc, hc', huv, -⟩ := ha (p := ⟨t, [], []⟩) (q := p) hpa
    have halone : (alone f t a).1 = x := hc.result
    have hsteps : ((a :: l).forM g).run.run p = (g a >>= fun _ => l.forM g).run.run p := rfl
    rw [hsteps, run_bind] at hrun
    rcases hg : (g a).run.run p with ⟨y, z⟩
    have hy := hc'.result
    have hz := hc'.types
    have hd := hc'.diagnostics
    rw [hg] at hy hz hd hrun
    cases hy
    cases hz
    cases y with
    | error e =>
      cases hrun
      refine ⟨⟨nofun, fun hall => ?_⟩, nofun⟩
      cases halone.symm.trans (hall a (List.mem_cons_self ..))
    | ok _ =>
      have hpl' : ∀ c ∈ l, (regions c).Agree t z.types := fun c hcl =>
        (hpl c hcl).later hc'.same hc'.setting fun id hid => (hac c hcl).1 id hid
      obtain ⟨hiff, hgather⟩ := gathers_forM hl hcs hsl hpl' hrun
      refine ⟨?_, fun hr => ?_⟩
      · rw [hiff, List.forall_mem_cons]
        exact ⟨fun h => ⟨halone, h⟩, fun h => h.2⟩
      · obtain ⟨hdiag, hown, hothers, hset⟩ := hgather hr
        have hads : (alone f t a).2.diagnostics = ds := hc.diagnostics
        refine ⟨?_, List.forall_mem_cons.2 ⟨fun id hid => ?_, hown⟩, fun id hid => ?_,
          hc'.setting.trans hset⟩
        · rw [hdiag, hd, List.flatMap_cons, hads, List.append_assoc]
        · have hlater : ∀ c ∈ l, ¬ (regions c).own id := fun c hcl hco =>
            (hac c hcl).2 id hco (hsa id hid)
          rw [hothers id hlater, huv.entries (hsa id hid)]
          exact congrArg (·.get? id) hc.types.symm
        · obtain ⟨hna, hnl⟩ := List.forall_mem_cons.1 hid
          rw [hothers id hnl]
          exact hc'.same id hna

/-- A row of steps that are local to regions that keep apart comes to the same in any order. -/
theorem perm_forM {l' : List α} (hperm : l'.Perm l)
    (hself : ∀ a ∈ l, (regions a).Local (fun _ => True) (f a) (f a))
    (hlocal : ∀ a ∈ l, (regions a).Local (fun _ => True) (f a) (g a))
    (happart : l.Pairwise fun a c => Apart (regions a) (regions c))
    (hseen : ∀ a ∈ l, ∀ id, (regions a).own id → (regions a).seen id) {p p' q : Progress}
    (hagree : ∀ a ∈ l, (regions a).Agree p.types p.types ∧ (regions a).Agree p.types p'.types)
    (hsame : ∀ id, p'.types.get? id = p.types.get? id)
    (hrun : (l.forM f).run.run p = (.ok (), q)) :
    ∃ q', (l'.forM g).run.run p' = (.ok (), q') ∧
      (∀ id, q'.types.get? id = q.types.get? id) ∧
      Gathers regions f p.types l p q ∧ Gathers regions f p.types l' p' q' := by
  obtain ⟨hiff, hq⟩ := gathers_forM hself happart hseen (fun a ha => (hagree a ha).1) hrun
  have hsub : ∀ {P : α → Prop}, (∀ a ∈ l, P a) → ∀ a ∈ l', P a := fun h a ha =>
    h a (hperm.mem_iff.1 ha)
  rcases hrun' : (l'.forM g).run.run p' with ⟨r, q'⟩
  obtain ⟨hiff', hq'⟩ := gathers_forM (hsub hlocal)
    ((hperm.pairwise_iff Apart.symm).2 happart) (hsub hseen) (hsub fun a ha => (hagree a ha).2)
    hrun'
  have hr : r = .ok () := hiff'.2 (hsub (hiff.1 rfl))
  have hgather := hq rfl
  have hgather' := hq' hr
  refine ⟨q', by rw [hr], fun id => ?_, hgather, hgather'⟩
  by_cases hid : ∃ a ∈ l, (regions a).own id
  · obtain ⟨a, ha, hown⟩ := hid
    rw [hgather.own a ha id hown, hgather'.own a (hperm.mem_iff.2 ha) id hown]
  · have hnone : ∀ a ∈ l, ¬ (regions a).own id := fun a ha hown => hid ⟨a, ha, hown⟩
    rw [hgather.others id hnone, hgather'.others id (hsub hnone), hsame id]

end

/-! ## Signatures and bodies -/

section

variable (hs : s.Alike s')
include hs

theorem local_params : ∀ ps : List Param, (∀ id ∈ ps.flatMap Param.ids, R.own id) →
    R.Resolves s (ps.flatMap fun p => p.type.parts) →
    R.Local (fun ms => ms.settled = true) (params s ps) (params s' ps)
  | [], _, _ => .pure rfl
  | p :: rest, hn, hp => by
    rw [List.flatMap_cons, Param.ids_eq, List.cons_append, List.cons_append,
      List.forall_mem_cons, List.forall_mem_cons, List.forall_mem_append] at hn
    rw [List.flatMap_cons] at hp
    rw [params, params]
    exact (local_typeExpr hs p.type hn.2.2.1 (hp.mono (List.subset_append_left ..))).bind
      fun ty hty => (local_record hn.1 (.inl hty)).bind fun _ _ =>
      (local_record hn.2.1 (.inl hty)).bind fun _ _ =>
      (local_params rest hn.2.2.2 (hp.mono (List.subset_append_right ..))).bind fun ms hms =>
      .pure (Bool.and_eq_true _ _ ▸ ⟨hty, hms⟩)

theorem local_fieldDecls : ∀ fs : List FieldDecl, (∀ id ∈ fs.flatMap FieldDecl.ids, R.own id) →
    R.Resolves s (fs.flatMap fun f => f.type.parts) →
    R.Local (fun ms => ms.settled = true) (fieldDecls s fs) (fieldDecls s' fs)
  | [], _, _ => .pure rfl
  | f :: rest, hn, hp => by
    rw [List.flatMap_cons, FieldDecl.ids_eq, List.cons_append, List.forall_mem_cons,
      List.forall_mem_append] at hn
    rw [List.flatMap_cons] at hp
    rw [fieldDecls, fieldDecls]
    exact (local_typeExpr hs f.type hn.2.1 (hp.mono (List.subset_append_left ..))).bind
      fun ty hty => (local_record (a := .field f.head.id.ir f.name ty) hn.1 (.inl hty)).bind
      fun _ _ => (local_fieldDecls rest hn.2.2 (hp.mono (List.subset_append_right ..))).bind
      fun ms hms => .pure (Bool.and_eq_true _ _ ▸ ⟨hty, hms⟩)

theorem local_functionType (id : IrId) {d : FunctionDecl}
    (hn : ∀ i ∈ d.params.flatMap Param.ids ++ TypeExpr.idsOf d.returns, R.own i)
    (hp : R.Resolves s (d.params.flatMap (fun p => p.type.parts) ++ TypeExpr.partsOf d.returns)) :
    R.Local (fun ty => ty.settled = true) (functionType s id d) (functionType s' id d) := by
  rw [List.forall_mem_append] at hn
  have hret := hp.mono (List.subset_append_right ..)
  refine (local_params hs d.params hn.1 (hp.mono (List.subset_append_left ..))).bind
    fun ps hps => ?_
  have hfn : ∀ {r : Ty}, r.settled = true → (Ty.fn id ps r).settled = true := fun hr =>
    Bool.and_eq_true _ _ ▸ ⟨hps, hr⟩
  cases hr : d.returns with
  | none => exact .pure (hfn rfl)
  | some a =>
    rw [hr] at hn hret
    exact (local_typeExpr hs a hn.2 hret).bind fun r hr => .pure (hfn hr)

/-- Recording the type of an item is local to its signature. -/
theorem local_signature {i : Item} (hn : ∀ id ∈ i.signatureIds, R.own id)
    (hp : R.Resolves s i.signatureParts) :
    R.Local (fun _ => True) (signature s i) (signature s' i) := by
  obtain ⟨hh, hn⟩ := List.forall_mem_cons.1 hn
  suffices htype : R.Local (fun ty => ty.settled = true) (signatureType s i) (signatureType s' i)
    from htype.bind fun ty hty => local_record hh (.inl hty)
  obtain ⟨h, k⟩ := i
  cases k with
  | function d => exact local_functionType hs h.id.ir hn hp
  | struct d => exact (local_fieldDecls hs d.fields hn hp).bind fun ms hms => .pure hms
  | constant d => exact local_typeExpr hs d.type hn hp
  | static d => exact local_typeExpr hs d.type hn hp

theorem local_functionBody {h : Head} {d : FunctionDecl} (hh : R.seen h.id.ir)
    (hl : ¬ R.loose h.id.ir) (hp : R.Holds s d.body.parts) :
    R.Local (fun _ => True) (functionBody s h.id.ir d) (functionBody s' h.id.ir d) := by
  refine (local_typeOf? hh).bind fun r hr => ?_
  cases r with
  | none => exact local_defect _
  | some ty =>
    cases ty with
    | fn r ps result =>
      have hty := (hr _ rfl).resolve_right fun h => hl h.2
      rw [Ty.settled, Bool.and_eq_true] at hty
      refine (local_note _).bind fun _ _ =>
        (local_inFunction hty.2 (local_expr hs d.body true hp)).bind fun bodyType hb => ?_
      cases d.body.tail? with
      | none => exact .pure trivial
      | some tail =>
        cases bodyType with
        | none => exact .pure trivial
        | some t => exact (local_reconcile (.inr hty.2) (hb t rfl) tail.locus).discard
    | _ => exact local_defect _

theorem local_initialValue {i : Item} {value : Expr} (hh : R.seen i.head.id.ir)
    (hl : ¬ R.loose i.head.id.ir) (hp : R.Holds s value.parts) :
    R.Local (fun _ => True) (initialValue s i value) (initialValue s' i value) := by
  refine (local_typeOf? hh).bind fun r hr => ?_
  cases r with
  | none => exact local_defect _
  | some declared =>
    have hty := (hr _ rfl).resolve_right fun h => hl h.2
    refine (local_expr hs value false hp).bind fun v hv => ?_
    cases v with
    | none => exact .pure trivial
    | some t => exact (local_reconcile (.inr hty) (hv t rfl) value.locus).discard

/-- Checking a body is local to its parts and the item's own type. -/
theorem local_body {i : Item} (hh : R.seen i.head.id.ir) (hl : ¬ R.loose i.head.id.ir)
    (hp : R.Holds s i.bodyParts) : R.Local (fun _ => True) (body s i) (body s' i) := by
  obtain ⟨h, k⟩ := i
  cases k with
  | function d => exact local_functionBody hs hh hl hp
  | struct d => exact .pure trivial
  | constant d => exact local_initialValue hs hh hl hp
  | static d => exact local_initialValue hs hh hl hp

end

/-! ## Regions of items -/

/-- All nodes, of which none may be unsettled. -/
def whole (start : TypeTable) : Region where
  start := start
  own _ := True
  seen _ := True
  loose _ := False
  own_of_loose h := h.elim

/-- What the signature of an item that is no struct may write and read. -/
def ofSignature (start : TypeTable) (p : Program) (i : Item) : Region where
  start := start
  own id := id ∈ i.signatureIds
  seen id := id ∈ i.signatureIds ∨ id ∈ p.structs ∨ id ∉ p.ids
  loose _ := False
  own_of_loose h := h.elim

/-- What the body of an item may write and read. -/
def ofBody (start : TypeTable) (p : Program) (i : Item) : Region where
  start := start
  own id := id ∈ i.ids ∧ id ≠ i.head.id.ir
  seen id := id ∈ i.ids ∨ id ∈ p.heads ∨ id ∉ p.ids
  loose id := id ∈ i.ids ∧ id ≠ i.head.id.ir
  own_of_loose h := h

variable {start : TypeTable} {p : Program} {i j : Item}

theorem apart_ofSignature (hn : p.ids.Nodup) (hi : i ∈ p.items) (hj : j ∈ p.items)
    (hsi : i.isStruct = false) (hsj : j.isStruct = false) (hij : i ≠ j) :
    Apart (ofSignature start p i) (ofSignature start p j) := by
  have hapart : ∀ {i j : Item}, i ∈ p.items → j ∈ p.items → i.isStruct = false → i ≠ j →
      ∀ id ∈ i.signatureIds, ¬ (id ∈ j.signatureIds ∨ id ∈ p.structs ∨ id ∉ p.ids) := by
    rintro i j hi hj hs hij id hid (hm | hm | hm)
    · rw [Program.ids_eq] at hn
      exact not_mem_of_nodup_flatMap hn hi hj hij (i.signatureIds_subset hid)
        (j.signatureIds_subset hm)
    · obtain ⟨k, hk, rfl⟩ := List.mem_map.1 hm
      obtain ⟨hk, hks⟩ := List.mem_filter.1 hk
      rw [← Program.item_eq_of_head hn hi hk (i.signatureIds_subset hid), hs] at hks
      cases hks
    · exact hm (Program.mem_ids_of_item hi (i.signatureIds_subset hid))
  exact ⟨hapart hi hj hsi hij, hapart hj hi hsj (Ne.symm hij)⟩

theorem apart_ofBody (hn : p.ids.Nodup) (hi : i ∈ p.items) (hj : j ∈ p.items) (hij : i ≠ j) :
    Apart (ofBody start p i) (ofBody start p j) := by
  have hapart : ∀ {i j : Item}, i ∈ p.items → j ∈ p.items → i ≠ j →
      ∀ id, id ∈ i.ids ∧ id ≠ i.head.id.ir → ¬ (id ∈ j.ids ∨ id ∈ p.heads ∨ id ∉ p.ids) := by
    rintro i j hi hj hij id ⟨hid, hne⟩ (hm | hm | hm)
    · rw [Program.ids_eq] at hn
      exact not_mem_of_nodup_flatMap hn hi hj hij hid hm
    · exact hne (Program.eq_head hn hi hm hid)
    · exact hm (Program.mem_ids_of_item hi hid)
  exact ⟨hapart hi hj hij, hapart hj hi (Ne.symm hij)⟩

/-- No two items of a program are one. -/
theorem pairwise_ne (hn : p.ids.Nodup) : p.items.Pairwise (· ≠ ·) := by
  rw [Program.ids_eq] at hn
  refine (List.nodup_flatMap.1 hn).2.imp ?_
  intro i j hdisjoint hij
  have hm : i.head.id.ir ∈ i.ids := List.mem_cons_self ..
  exact hdisjoint hm (hij ▸ hm)

/-- A row of steps that leaves settled what it writes leaves tables that agree as a whole. -/
theorem Agree.gathers {α : Type} {f : α → Check PUnit} {regions : α → Region} {l l' : List α}
    {q q' : Progress} {a a' : Progress} (h : (whole start).Agree a.types a'.types)
    (hself : ∀ x ∈ l, (regions x).Local (fun _ => True) (f x) (f x) ∧
      (regions x).Agree a.types a.types ∧ ∀ id, (regions x).own id → (regions x).seen id ∧
        ¬ (regions x).loose id)
    (hq : Gathers regions f a.types l a q) (hq' : Gathers regions f a.types l' a' q')
    (hsame : ∀ id, q'.types.get? id = q.types.get? id) :
    (whole start).Agree q.types q'.types where
  setting := ⟨hq'.setting.builtins.trans (h.setting.builtins.trans hq.setting.builtins.symm),
    hq'.setting.builtinIds.trans (h.setting.builtinIds.trans hq.setting.builtinIds.symm),
    hq'.setting.returns.trans (h.setting.returns.trans hq.setting.returns.symm)⟩
  builtinIds := hq.setting.builtinIds.trans h.builtinIds
  builtins hb := by
    unfold TypeTable.builtin? at hb
    rw [hq.setting.builtins] at hb
    exact h.builtins hb
  stack ty hty := by
    rw [hq.setting.returns] at hty
    exact h.stack ty hty
  entries _ := hsame _
  settled := by
    intro id ty _ hget
    refine .inl ?_
    by_cases hid : ∃ x ∈ l, (regions x).own id
    · obtain ⟨x, hx, hown⟩ := hid
      obtain ⟨hlocal, hagree, hall⟩ := hself x hx
      obtain ⟨hseen, hnot⟩ := hall id hown
      obtain ⟨_, _, u, _, hc, _, hu, _⟩ :=
        hlocal (p := ⟨a.types, [], []⟩) (q := ⟨a.types, [], []⟩) hagree
      have hu : (regions x).Agree (alone f a.types x).2.types _ := hc.types ▸ hu
      rw [hq.own x hx id hown] at hget
      exact (hu.settled hseen hget).resolve_right fun h => hnot h.2
    · rw [hq.others id fun x hx hown => hid ⟨x, hx, hown⟩] at hget
      exact (h.settled trivial hget).resolve_right fun h => h.2

end Region

/-! ## Programs -/

namespace Check

/-- A check ends well if its three rows of steps do. -/
theorem run_program {s : Scope} {p : Program} {a q : Progress} :
    (program s p).run.run a = (.ok (), q) ↔ ∃ b c,
      ((p.items.filter Item.isStruct).forM (signature s)).run.run
        (a.note [.checking p.items.length]) = (.ok (), b) ∧
      ((p.items.filter (!·.isStruct)).forM (signature s)).run.run b = (.ok (), c) ∧
      (p.items.forM (body s)).run.run c = (.ok (), q) := by
  rw [program_eq, run_bind_ok_iff]
  constructor
  · rintro ⟨_, _, h, h'⟩
    cases h
    obtain ⟨_, b, hb, h'⟩ := run_bind_ok_iff.1 h'
    obtain ⟨_, c, hc, h'⟩ := run_bind_ok_iff.1 h'
    exact ⟨b, c, hb, hc, h'⟩
  · rintro ⟨b, c, hb, hc, h⟩
    exact ⟨(), _, rfl, run_bind_ok_iff.2 ⟨_, b, hb, run_bind_ok_iff.2 ⟨_, c, hc, h⟩⟩⟩

end Check

namespace Session

/-- Names and callees mean something in the item they stand in, or an item; type names mean struct
items or primitive types. -/
structure ItemsBound (s : Session) : Prop where
  names : ∀ i ∈ s.program.items, ∀ e ∈ i.bodyParts.filterMap Part.name?,
    ∀ id ∈ (Check.declaration s.scope e).toOption, id ∈ i.ids ∨ id ∈ s.program.heads
  callees : ∀ i ∈ s.program.items, ∀ c ∈ i.bodyParts.filterMap Part.call?,
    ∀ decl ∈ s.scope.bindings.name? c.2.surface,
      ∀ id ∈ s.scope.registry.node? ⟨c.1.id.crate, decl⟩, id ∈ i.ids ∨ id ∈ s.program.heads
  types : s.TypesBound

instance (s : Session) : Decidable s.ItemsBound :=
  decidable_of_iff (_ ∧ _ ∧ _) ⟨fun h => ⟨h.1, h.2.1, h.2.2⟩, fun h => ⟨h.names, h.callees, h.types⟩⟩

namespace ItemsBound

variable {s : Session} {i : Item}

theorem resolves (hb : s.ItemsBound) (hi : i ∈ s.program.items) :
    (Region.ofSignature s.types s.program i).Resolves s.scope i.signatureParts := by
  intro g name id hm htarget
  have hpart : .ascription (.path g name) ∈ s.program.parts :=
    List.mem_flatMap.2 ⟨i, hi, List.mem_append_left _ hm⟩
  have hid := hb.types.typePaths g (List.mem_filterMap.2 ⟨_, hpart, rfl⟩) id htarget
  exact ⟨.inr hid, fun h => h⟩

theorem holds (hb : s.ItemsBound) (hn : s.program.ids.Nodup) (hi : i ∈ s.program.items) :
    (Region.ofBody s.types s.program i).Holds s.scope i.bodyParts where
  nodes a ha id hid := by
    have hbody : id ∈ i.bodyIds := by
      rw [← Item.irsAll_bodyParts]
      exact List.mem_flatMap.2 ⟨a, ha, hid⟩
    have hids : i.ids.Nodup := by
      rw [Program.ids_eq] at hn
      exact (List.nodup_flatMap.1 hn).1 i hi
    rw [Item.ids_eq] at hids
    refine ⟨by rw [Item.ids_eq]; exact List.mem_append_right _ hbody, ?_⟩
    rintro rfl
    exact (List.nodup_append.1 hids).2.2 _ i.head_mem_signatureIds _ hbody rfl
  names g x id he hd := by
    have hid := hb.names i hi _ (List.mem_filterMap.2 ⟨_, he, rfl⟩) id (by rw [hd]; rfl)
    exact hid.imp_right .inl
  callees h f args decl id he hname hnode := by
    have hid := hb.callees i hi _ (List.mem_filterMap.2 ⟨_, he, rfl⟩) decl hname id hnode
    exact hid.imp_right .inl
  paths g name id hm htarget := by
    have hpart : .ascription (.path g name) ∈ s.program.parts :=
      List.mem_flatMap.2 ⟨i, hi, List.mem_append_right _ hm⟩
    have hid := hb.types.typePaths g (List.mem_filterMap.2 ⟨_, hpart, rfl⟩) id htarget
    rcases hid with hid | hid
    · have hhead := Program.mem_heads_of_structs hid
      exact ⟨.inr (.inl hhead), fun h => h.2 (Program.eq_head hn hi hhead h.1)⟩
    · exact ⟨.inr (.inr hid), fun h => hid (Program.mem_ids_of_item hi h.1)⟩
  structs h path fs decl id he hname hnode := by
    have hpart : .expr (.struct h path fs) ∈ s.program.parts :=
      List.mem_flatMap.2 ⟨i, hi, List.mem_append_right _ he⟩
    have hid := hb.types.structPaths path (List.mem_filterMap.2 ⟨_, hpart, rfl⟩) decl hname id hnode
    exact .inr (.inl (Program.mem_heads_of_structs hid))

end ItemsBound

variable {u : CompilationUnit} {items : List Item}

/-- Before the first check tables that are the same agree as a whole. -/
theorem agree_start (u : CompilationUnit) :
    (Region.whole (ofUnit u).types).Agree (ofUnit u).types (ofUnit u).types where
  setting := .refl _
  builtinIds := rfl
  builtins hb := by
    obtain ⟨p, hp, rfl⟩ := Option.map_eq_some_iff.1 hb
    exact Ty.settled_of_complete ((known u).builtins p (List.mem_of_find?_eq_some hp))
  stack ty hty := by
    rw [(known u).returns] at hty
    exact absurd hty List.not_mem_nil
  entries _ := rfl
  settled _ hget := .inl (Ty.settled_of_complete ((known u).entries hget))

/-- Struct items get the same types in sessions that start alike. -/
theorem structs_alike {s s' : Scope} (h : s.Alike s') {start : TypeTable} {b c q : Progress}
    (hagree : (Region.whole start).Agree b.types c.types)
    (hdiag : c.diagnostics.Perm b.diagnostics) {l : List Item}
    (hrun : (l.forM (Check.signature s)).run.run b = (.ok (), q)) :
    ∃ q', (l.forM (Check.signature s')).run.run c = (.ok (), q') ∧
      (Region.whole start).Agree q.types q'.types ∧ q'.diagnostics.Perm q.diagnostics := by
  have hlocal : (Region.whole start).Local (fun _ => True) (l.forM (Check.signature s))
      (l.forM (Check.signature s')) := Region.Local.forM fun i _ =>
    Region.local_signature h (fun _ _ => trivial) fun _ _ _ _ _ => ⟨trivial, fun h => h⟩
  obtain ⟨r, ds, t, t', hc, hc', ht, -⟩ := hlocal hagree
  rcases hrun' : (l.forM (Check.signature s')).run.run c with ⟨r', q'⟩
  obtain ⟨hr, hd, ht₁, -, -⟩ := hc
  obtain ⟨hr', hd', ht₂, -, -⟩ := hc'
  rw [hrun] at hr hd ht₁
  rw [hrun'] at hr' hd' ht₂
  cases hr
  cases hr'
  cases ht₁
  cases ht₂
  refine ⟨q', rfl, ht, ?_⟩
  rw [hd, hd']
  exact hdiag.append_right ds

variable {b : Progress}

/-- Other items get the same types in any order. -/
theorem signatures_alike (hb : (ofUnit u).ItemsBound) (hn : u.program.ids.Nodup) {s' : Scope}
    (h : (ofUnit u).scope.Alike s') {p' q : Progress}
    (hagree : (Region.whole (ofUnit u).types).Agree b.types p'.types)
    (hdiag : p'.diagnostics.Perm b.diagnostics) {l : List Item}
    (hperm : l.Perm (u.program.items.filter (!·.isStruct)))
    (hrun : ((u.program.items.filter (!·.isStruct)).forM
      (Check.signature (ofUnit u).scope)).run.run b = (.ok (), q)) :
    ∃ q', (l.forM (Check.signature s')).run.run p' = (.ok (), q') ∧
      (Region.whole (ofUnit u).types).Agree q.types q'.types ∧
      q'.diagnostics.Perm q.diagnostics := by
  let region := Region.ofSignature (ofUnit u).types u.program
  have hitem : ∀ i ∈ u.program.items.filter (!·.isStruct),
      i ∈ u.program.items ∧ i.isStruct = false := by
    intro i hi
    obtain ⟨hi, hs⟩ := List.mem_filter.1 hi
    exact ⟨hi, by simpa using hs⟩
  have hlocal : ∀ {s₁ : Scope}, (ofUnit u).scope.Alike s₁ →
      ∀ i ∈ u.program.items.filter (!·.isStruct), (region i).Local (fun _ => True)
        (Check.signature (ofUnit u).scope i) (Check.signature s₁ i) := fun h₁ i hi =>
    Region.local_signature h₁ (fun _ hid => hid) (hb.resolves (hitem i hi).1)
  have happart : (u.program.items.filter (!·.isStruct)).Pairwise fun i j =>
      (region i).Apart (region j) :=
    ((Region.pairwise_ne hn).sublist List.filter_sublist).imp_of_mem fun hi hj hij =>
      Region.apart_ofSignature hn (hitem _ hi).1 (hitem _ hj).1 (hitem _ hi).2 (hitem _ hj).2 hij
  have hnarrow : ∀ {t : TypeTable}, (Region.whole (ofUnit u).types).Agree b.types t →
      ∀ i, (region i).Agree b.types t := fun ht i =>
    ht.narrow rfl (fun _ _ => trivial) fun _ h => h
  obtain ⟨q', hrun', hsame, hq, hq'⟩ := Region.perm_forM hperm (hlocal (.refl _)) (hlocal h)
    happart (fun _ _ _ hid => .inl hid)
    (fun i _ => ⟨hnarrow hagree.left i, hnarrow hagree i⟩) (fun _ => hagree.entries trivial) hrun
  refine ⟨q', hrun', hagree.gathers (fun i hi => ⟨hlocal (.refl _) i hi, hnarrow hagree.left i,
    fun _ hid => ⟨.inl hid, fun h => h⟩⟩) hq hq' hsame, ?_⟩
  rw [hq.diagnostics, hq'.diagnostics]
  exact hdiag.append (hperm.flatMap_right _)

/-- Bodies are checked the same in any order. -/
theorem bodies_alike (hb : (ofUnit u).ItemsBound) (hn : u.program.ids.Nodup) {s' : Scope}
    (h : (ofUnit u).scope.Alike s') {p' q : Progress}
    (hagree : (Region.whole (ofUnit u).types).Agree b.types p'.types)
    (hdiag : p'.diagnostics.Perm b.diagnostics) (hperm : items.Perm u.program.items)
    (hrun : (u.program.items.forM (Check.body (ofUnit u).scope)).run.run b = (.ok (), q)) :
    ∃ q', (items.forM (Check.body s')).run.run p' = (.ok (), q') ∧
      (∀ id, q'.types.get? id = q.types.get? id) ∧ q'.diagnostics.Perm q.diagnostics := by
  let region := Region.ofBody (ofUnit u).types u.program
  have hlocal : ∀ {s₁ : Scope}, (ofUnit u).scope.Alike s₁ → ∀ i ∈ u.program.items,
      (region i).Local (fun _ => True) (Check.body (ofUnit u).scope i) (Check.body s₁ i) :=
    fun h₁ i hi => Region.local_body h₁ (.inl (List.mem_cons_self ..)) (fun h => h.2 rfl)
      (hb.holds hn hi)
  have happart : u.program.items.Pairwise fun i j => (region i).Apart (region j) :=
    (Region.pairwise_ne hn).imp_of_mem fun hi hj hij => Region.apart_ofBody hn hi hj hij
  have hnarrow : ∀ {t : TypeTable}, (Region.whole (ofUnit u).types).Agree b.types t →
      ∀ i, (region i).Agree b.types t := fun ht i =>
    ht.narrow rfl (fun _ _ => trivial) fun _ h => h
  obtain ⟨q', hrun', hsame, hq, hq'⟩ := Region.perm_forM hperm (hlocal (.refl _)) (hlocal h)
    happart (fun _ _ _ hid => .inl hid.1)
    (fun i _ => ⟨hnarrow hagree.left i, hnarrow hagree i⟩) (fun _ => hagree.entries trivial) hrun
  refine ⟨q', hrun', hsame, ?_⟩
  rw [hq.diagnostics, hq'.diagnostics]
  exact hdiag.append (hperm.flatMap_right _)

/-- Where a check ends well, it does so for every order of the items that keeps the one of the
struct items. All nodes get the same types, and the same is reported. -/
theorem check_withItems (u : CompilationUnit) (hn : u.program.ids.Nodup)
    (hs : u.program.surfaces.Nodup) (hb : (ofUnit u).ItemsBound)
    (hok : (ofUnit u).check.1 = .ok ()) (hperm : items.Perm u.program.items)
    (hstructs : items.filter Item.isStruct = u.program.items.filter Item.isStruct) :
    (ofUnit (u.withItems items)).check.1 = .ok () ∧
      (∀ id, (ofUnit (u.withItems items)).check.2.types.get? id =
        (ofUnit u).check.2.types.get? id) ∧
      (ofUnit (u.withItems items)).check.2.diagnostics.Perm (ofUnit u).check.2.diagnostics := by
  obtain ⟨halike, htypes⟩ := alike_withItems hn hs hperm hstructs
  have hrun : (Check.program (ofUnit u).scope u.program).run.run (ofUnit u).progress =
      (.ok (), (ofUnit u).check.2.progress) := Prod.ext hok rfl
  obtain ⟨b, c, hstruct, hsigned, hchecked⟩ := Check.run_program.1 hrun
  have hstart : (Region.whole (ofUnit u).types).Agree (ofUnit u).types
      (ofUnit (u.withItems items)).types := by
    rw [htypes]
    exact agree_start u
  rw [← hstructs] at hstruct
  obtain ⟨b', hstruct', hb', hdb⟩ := structs_alike halike
    (b := (ofUnit u).progress.note [.checking u.program.items.length])
    (c := (ofUnit (u.withItems items)).progress.note [.checking items.length]) hstart .nil hstruct
  obtain ⟨c', hsigned', hc', hdc⟩ := signatures_alike hb hn halike hb' hdb
    (hperm.filter (!·.isStruct)) hsigned
  obtain ⟨q', hchecked', hsame, hdq⟩ := bodies_alike hb hn halike hc' hdc hperm hchecked
  have hrun' : (Check.program (ofUnit (u.withItems items)).scope
      (u.withItems items).program).run.run (ofUnit (u.withItems items)).progress = (.ok (), q') :=
    Check.run_program.2 ⟨b', c', hstruct', hsigned', hchecked'⟩
  rw [check_eq (ofUnit (u.withItems items)), ofUnit_program, hrun']
  exact ⟨rfl, hsame, hdq⟩

open Samples in
theorem check_withItems_building : building.program.ids.Nodup ∧ building.program.surfaces.Nodup ∧
    (ofUnit building).ItemsBound ∧ (ofUnit building).check.1 = .ok () ∧
    (ofUnit (building.withItems building.program.items.reverse)).check.1 = .ok () ∧
    (ofUnit (building.withItems building.program.items.reverse)).check.2.diagnostics.Perm
      (ofUnit building).check.2.diagnostics := by
  have hn : building.program.ids.Nodup := by decide +kernel
  have hs : building.program.surfaces.Nodup := by decide +kernel
  have hb : (ofUnit building).ItemsBound := by decide +kernel
  have hclean : (ofUnit building).Clean := by decide +kernel
  have hstructs : building.program.items.reverse.filter Item.isStruct =
      building.program.items.filter Item.isStruct := rfl
  obtain ⟨hok, -, hdiag⟩ :=
    check_withItems building hn hs hb hclean.1 (List.reverse_perm _) hstructs
  exact ⟨hn, hs, hb, hclean.1, hok, hdiag⟩

end Session

end MiddleEnd
