/-
  What a clean pass over a program leaves in the final table: function types for function items,
  types of struct items that only refer to struct items before them, types for all expressions of
  bodies and for the declarations that names in them stand for (`Passes.outcome`).
-/
import MiddleEnd.Proofs.Check.Plain
import MiddleEnd.Proofs.Check.Reached
import MiddleEnd.Proofs.Check.Whole

namespace MiddleEnd

/-- The initial value of a constant or static item. -/
def Item.initial? (i : Item) : Option Expr :=
  match i.kind with
  | .constant d => some d.value
  | .static d => some d.value
  | _ => none

/-- The identities of constants and statics. -/
def Program.globals (p : Program) : List IrId :=
  (p.items.filter (·.initial?.isSome)).map (·.head.id.ir)

namespace Check

variable {s : Scope} {b T : TypeTable} {V F K : IrId → Prop} {p : Program}

/-! ## Signatures -/

/-- A function item has a function type, with as many parameters as it declares. -/
def FunctionTyped (T : TypeTable) (i : Item) : Prop :=
  ∀ d, i.kind = .function d → ∃ r ps result, T.get? i.head.id.ir = some (.fn r ps result) ∧
    ps.length = d.params.length

theorem HasParams.length_eq {t u : TypeTable} {ps : List Param} {ms : Members}
    (h : HasParams s t ps ms u) : ms.length = ps.length := by
  induction h with
  | nil t => rfl
  | cons _ _ ih => exact congrArg (· + 1) ih

/-- Recording a signature, with knowledge of the final table handed back. -/
theorem ItemsPlaced.signKeeps (hp : ItemsPlaced s b V F p) {t u : TypeTable} {i : Item}
    {l : List Item} (hi : Signing b F p (i :: l) t) (h : Signs s t i u) :
    Signing b F p l u ∧ Keeps V t u := by
  refine ⟨(hp.sign (T := u) hi h).1, .of_exact h.setting.builtins ?_⟩
  intro id ty hget _
  have hid : id ∉ i.signatureIds := by
    intro hm
    have hall := hi.unrecorded.left
    rw [List.flatMap_cons] at hall
    rw [hall.left.fresh id hm] at hget
    cases hget
  exact (h.frame (P := (· ∈ i.signatureIds)) (fun _ hm => hm) id hid).trans hget

theorem ItemsPlaced.signFunction (hp : ItemsPlaced s b V F p) {t u : TypeTable} {i : Item}
    (hm : i ∈ p.items) (hg : Good b F u) (h : Signs s t i u) (hk : Keeps V u T) :
    FunctionTyped T i := by
  intro d hd
  obtain ⟨ty, v, h, rfl⟩ := h
  have hF := hp.firm i hm _ i.head_mem_firm
  have hT := hk.exact get?_record_self (hg.firm get?_record_self hF) (hp.separate _ hF)
  cases h with
  | function h d' hps _ =>
    cases hd
    exact ⟨_, _, _, hT, hps.length_eq⟩
  | struct => cases hd
  | constant => cases hd
  | static => cases hd

/-- Every struct item of the list has a struct type that only refers to what is in `E`, which the
struct items before it have joined. -/
def Layered (T : TypeTable) : (IrId → Prop) → List Item → Prop
  | _, [] => True
  | E, i :: rest =>
    (∃ name fields, T.get? i.head.id.ir = some (.struct i.head.id.ir name fields) ∧
      fields.Plain E) ∧
    Layered T (fun r => E r ∨ r = i.head.id.ir) rest

theorem layered_of_chain {t u : TypeTable} {l : List Item}
    (h : Chain (fun t i u => Signs s t i u ∧ Good b F u ∧ Keeps V u T) t l u)
    (hF : ∀ i ∈ l, F i.head.id.ir ∧ ¬ V i.head.id.ir) (hs : ∀ i ∈ l, i.isStruct = true)
    (hv : ∀ i ∈ l, Valued s b K i) : ∀ {E : IrId → Prop}, Plainly b E K t → Layered T E l := by
  induction h with
  | nil t => exact fun _ => trivial
  | @cons t u w i l hi _ ih =>
    intro E ht
    obtain ⟨⟨ty, v, h, rfl⟩, hg, hk⟩ := hi
    obtain ⟨hFi, hFl⟩ := List.forall_mem_cons.1 hF
    obtain ⟨hvi, hvl⟩ := List.forall_mem_cons.1 hv
    obtain ⟨hsi, hsl⟩ := List.forall_mem_cons.1 hs
    have hT := hk.exact get?_record_self (hg.firm get?_record_self hFi.1) hFi.2
    cases h with
    | struct g d hf =>
      obtain ⟨hfields, hn⟩ := hvi.fields d rfl
      obtain ⟨hplain, hms⟩ := hf.plain hfields hvi.parts.left ht
      refine ⟨⟨_, _, hT, hms⟩, ih hFl hsl hvl ?_⟩
      exact (hplain.mono fun r => Or.inl).record g.id.ir
        ⟨.inr rfl, hf.names_eq ▸ hn, hms.mono fun r => Or.inl⟩
    | function => cases hsi
    | constant => cases hsi
    | static => cases hsi

/-! ## Bodies -/

/-- The declared type of a constant or static item is unit only if that of its initial value is. -/
def Initialized (T : TypeTable) (i : Item) : Prop :=
  ∀ e, i.initial? = some e → ∃ declared ty, T.get? i.head.id.ir = some declared ∧
    T.get? e.ir = some ty ∧ declared.isUnit = ty.isUnit

/-- The initial value of an item, outside all functions. -/
theorem initialized_of_derives {t u : TypeTable} {i : Item} {e : Expr} {declared ty both : Ty}
    (hi : i.initial? = some e) (hid : i.head.id.ir ∉ e.ids) (hF : F i.head.id.ir)
    (hV : ¬ V i.head.id.ir) (hget : t.get? i.head.id.ir = some declared)
    (h : Derives s t (.expr e false ty) u) (hr : Ready s b V F none e.ids e.parts t)
    (hc : declared.combine? ty = some both) (hk : Keeps V u T) : Initialized T i := by
  intro e' he
  cases hi.symm.trans he
  have hev := h.evolved trivial hr
  have hdc := hr.good.firm hget hF
  have hu := hev.evolves.keeps hid hget hdc
  refine ⟨declared, ty, hk.exact hu hdc hV, ?_, ?_⟩
  · exact hk.exact h.get?_self hev.found (hr.placed.expr e.self_mem_parts)
  · exact (Ty.combine?_complete hdc hev.found hc).2.isUnit_eq

/-- Checking a body, with knowledge of the final table handed back. -/
theorem ItemsPlaced.fitKeeps (hp : ItemsPlaced s b V F p) {t u : TypeTable} {i : Item}
    {l : List Item} (hi : Fitting b F p (i :: l) t) (h : Fits s t i u) :
    Fitting b F p l u ∧
      (Keeps V u T → Keeps V t T ∧ Reached s V T i.bodyParts ∧ Initialized T i) := by
  have hm := hi.items i (List.mem_cons_self ..)
  have hF := hp.firm i hm _ i.head_mem_firm
  have hV := hp.separate _ hF
  have hall := hi.unrecorded
  rw [List.flatMap_cons] at hall
  have hplaced := (hp.bodies i hm).of_irsAll i.irsAll_bodyParts
  have hid : i.head.id.ir ∉ i.bodyIds := fun hm => hplaced.loose _ hm hF
  refine ⟨(hp.fit (T := u) hi h).1, ?_⟩
  intro hk
  cases h with
  | @function v r ps result ty g d hget hb _ =>
    have hfn := hi.good.firm hget hF
    have hresult : result.complete = true := (Bool.and_eq_true _ _ ▸ hfn).2
    have hready : Ready s b V F (some result) d.body.ids d.body.parts (t.pushReturn result) :=
      ⟨hplaced, hi.good.pushReturn hresult, hall.left.fresh, rfl⟩
    have hpush : Keeps V t (t.pushReturn result) := .of_exact rfl fun hg _ => hg
    have hpop : Keeps V v v.popReturn.2 := .of_exact rfl fun hg _ => hg
    have hkv := hpop.trans hk
    refine ⟨hpush.trans ((hb.keeps trivial hready).trans hkv), (hb.reached trivial hready).keep hkv,
      ?_⟩
    intro e he
    cases he
  | struct g d =>
    refine ⟨hk, .quiet fun _ => List.not_mem_nil, ?_⟩
    intro e he
    cases he
  | constant g d hget hv hc =>
    have hready : Ready s b V F none d.value.ids d.value.parts t :=
      ⟨hplaced, hi.good, hall.left.fresh, by unfold TypeTable.return?; rw [hi.outside]; rfl⟩
    exact ⟨(hv.keeps trivial hready).trans hk, (hv.reached trivial hready).keep hk,
      initialized_of_derives rfl hid hF hV hget hv hready hc hk⟩
  | static g d hget hv hc =>
    have hready : Ready s b V F none d.value.ids d.value.parts t :=
      ⟨hplaced, hi.good, hall.left.fresh, by unfold TypeTable.return?; rw [hi.outside]; rfl⟩
    exact ⟨(hv.keeps trivial hready).trans hk, (hv.reached trivial hready).keep hk,
      initialized_of_derives rfl hid hF hV hget hv hready hc hk⟩

/-! ## Programs -/

/-- What a pass over a program leaves in the final table `T`. -/
structure Outcome (s : Scope) (b : TypeTable) (V F E : IrId → Prop) (T : TypeTable) (p : Program) :
    Prop where
  good : Good b F T
  keeps : Keeps V b T
  functions : ∀ i ∈ p.items, FunctionTyped T i
  structs : Layered T E (p.items.filter Item.isStruct)
  bodies : ∀ i ∈ p.items, Reached s V T i.bodyParts
  initials : ∀ i ∈ p.items, Initialized T i

theorem Passes.outcome {E : IrId → Prop} (h : Passes s p b T) (hp : ItemsPlaced s b V F p)
    (hg : Good b F b) (hr : b.returns = []) (hn : p.ids.Nodup)
    (hfresh : ∀ id ∈ p.ids, b.get? id = none) (hv : ∀ i ∈ p.items, Valued s b K i)
    (hb : Plainly b E K b) : Outcome s b V F E T p := by
  obtain ⟨v, hsigns, hfits⟩ := h
  have horder := ids_perm_of_order p
  have hsigning : Signing b F p (signatureOrder p.items) b :=
    ⟨hg, hr, fun i hi => mem_signatureOrder.1 hi, horder.nodup_iff.1 hn,
      fun id hid => hfresh id (horder.mem_iff.2 hid)⟩
  obtain ⟨hend, hsigned⟩ := hsigns.each (K := fun t => Good b F t ∧ Keeps V t T)
    (Q := FunctionTyped T) (fun hi h => ⟨(hp.signKeeps hi h).1, fun hk =>
      ⟨⟨hi.good, (hp.signKeeps hi h).2.trans hk.2⟩,
        hp.signFunction (hi.items _ (List.mem_cons_self ..)) hk.1 h hk.2⟩⟩) hsigning
  have hfitting : Fitting b F p p.items v :=
    ⟨hend.good, hend.outside, fun i hi => hi, hend.unrecorded⟩
  obtain ⟨hT, hall⟩ := hfits.each (hp.fitKeeps (T := T)) hfitting
  obtain ⟨hk, hbodies⟩ := hall (.refl T)
  obtain ⟨⟨_, hkeeps⟩, hfunctions⟩ := hsigned ⟨hend.good, hk⟩
  obtain ⟨_, hknown⟩ := hsigns.known (K := fun t => Good b F t ∧ Keeps V t T)
    (fun hi h => ⟨(hp.signKeeps hi h).1,
      fun hk => ⟨hi.good, (hp.signKeeps hi h).2.trans hk.2⟩⟩) hsigning ⟨hend.good, hk⟩
  have hF : ∀ i ∈ p.items, F i.head.id.ir ∧ ¬ V i.head.id.ir := fun i hi =>
    have hFi := hp.firm i hi _ i.head_mem_firm
    ⟨hFi, hp.separate _ hFi⟩
  refine ⟨hT.good, hkeeps, fun i hi => hfunctions i (mem_signatureOrder.2 hi), ?_,
    fun i hi => (hbodies i hi).1, fun i hi => (hbodies i hi).2⟩
  · obtain ⟨w, hstructs, _⟩ := hknown.split
    exact layered_of_chain hstructs (fun i hi => hF i (List.mem_filter.1 hi).1)
      (fun i hi => (List.mem_filter.1 hi).2) (fun i hi => hv i (List.mem_filter.1 hi).1) hb

end Check

end MiddleEnd
