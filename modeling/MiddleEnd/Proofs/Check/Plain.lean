/-
  The types in the course of a check are plain. Where names stand for values and type names for
  primitive types and struct items, a derivation finds plain types only, and nothing else is
  recorded but the types of function items and field declarations (`Derives.plain`, `Signs.plain`).

  Which identities the types carry is left open (`E`): in the end those of all primitive types and
  struct items, and between two struct items those of the ones before.
-/
import MiddleEnd.Proofs.Check.Evolution
import MiddleEnd.Proofs.Ty.Stored

namespace MiddleEnd.Check

variable {s : Scope} {b : TypeTable} {E E' K : IrId → Prop}

/-! ## Tables -/

/-- A table in the course of a check that started from table `b`, where only nodes of `K` may have
a type that is no type of values. -/
structure Plainly (b : TypeTable) (E K : IrId → Prop) (t : TypeTable) : Prop where
  builtinIds : t.builtinIds = b.builtinIds
  builtins : ∀ {name ty}, t.builtin? name = some ty → ty.Plain E
  stack : ∀ ty ∈ t.returns, ty.Plain E
  entries : ∀ {id ty}, t.get? id = some ty → ty.Plain E ∨ K id ∧ ty.Declares E

namespace Plainly

variable {t : TypeTable} {id : IrId} {ty : Ty}

theorem mono (h : Plainly b E K t) (hE : ∀ r, E r → E' r) : Plainly b E' K t where
  builtinIds := h.builtinIds
  builtins hb := (h.builtins hb).mono hE
  stack ty hty := (h.stack ty hty).mono hE
  entries hg := (h.entries hg).imp (·.mono hE) (.imp_right (·.mono hE))

theorem put (h : Plainly b E K t) (hty : ty.Plain E ∨ K id ∧ ty.Declares E) :
    Plainly b E K (t.record id ty) where
  builtinIds := h.builtinIds
  builtins := h.builtins
  stack := h.stack
  entries := by
    intro other ty' hg
    rw [TypeTable.get?_record] at hg
    split at hg
    · rename_i he
      cases hg
      rw [he]
      exact hty
    · exact h.entries hg

theorem record (h : Plainly b E K t) (id : IrId) (hty : ty.Plain E) :
    Plainly b E K (t.record id ty) :=
  h.put (.inl hty)

theorem settled (h : Plainly b E K t) (target : Expr) (before : Ty) (hty : ty.Plain E) :
    Plainly b E K (settled s t target before ty) := by
  unfold Check.settled
  split
  · cases declaration s target with
    | ok id => exact h.record id hty
    | error p => exact h
  · exact h

theorem value (h : Plainly b E K t) (hid : ¬ K id) (hg : t.get? id = some ty) : ty.Plain E :=
  (h.entries hg).resolve_right fun hk => hid hk.1

theorem result (h : Plainly b E K t) (hr : t.return? = some ty) : ty.Plain E :=
  h.stack ty (List.mem_of_head? hr)

theorem pushReturn (h : Plainly b E K t) (hty : ty.Plain E) : Plainly b E K (t.pushReturn ty) where
  builtinIds := h.builtinIds
  builtins := h.builtins
  stack := List.forall_mem_cons.2 ⟨hty, h.stack⟩
  entries := h.entries

theorem popReturn (h : Plainly b E K t) : Plainly b E K t.popReturn.2 where
  builtinIds := h.builtinIds
  builtins := h.builtins
  stack ty hm := h.stack ty (List.mem_of_mem_tail hm)
  entries := h.entries

end Plainly

/-! ## Parts -/

/-- Names, type names and struct literals among the parts stand for other nodes than those of
`K`. -/
structure Valuable (s : Scope) (b : TypeTable) (K : IrId → Prop) (parts : List Part) : Prop where
  names : ∀ {g x id}, .expr (.identifier g x) ∈ parts →
    declaration s (.identifier g x) = .ok id → ¬ K id
  paths : ∀ {g name id}, .ascription (.path g name) ∈ parts → pathTarget? s b g = some id → ¬ K id
  structs : ∀ {h path fs decl id}, .expr (.struct h path fs) ∈ parts →
    s.bindings.type? path.id.surface = some decl →
    s.registry.node? ⟨path.id.crate, decl⟩ = some id → ¬ K id

namespace Valuable

variable {p : Part} {parts parts' : List Part}

theorem mono (h : Valuable s b K parts) (hp : ∀ p ∈ parts', p ∈ parts) : Valuable s b K parts' where
  names hm := h.names (hp _ hm)
  paths hm := h.paths (hp _ hm)
  structs hm := h.structs (hp _ hm)

theorem tail (h : Valuable s b K (p :: parts)) : Valuable s b K parts :=
  h.mono fun _ hm => List.mem_cons_of_mem _ hm

theorem left (h : Valuable s b K (parts ++ parts')) : Valuable s b K parts :=
  h.mono fun _ hm => List.mem_append_left _ hm

theorem right (h : Valuable s b K (parts ++ parts')) : Valuable s b K parts' :=
  h.mono fun _ hm => List.mem_append_right _ hm

end Valuable

/-! ## Bodies -/

theorem Annotates.plain {t u : TypeTable} {a : TypeExpr} {ty : Ty} (h : Annotates s t a ty u) :
    Valuable s b K a.parts → Plainly b E K t → Plainly b E K u ∧ ty.Plain E := by
  induction h with
  | unit h => exact fun _ ht => ⟨ht.record h.id.ir trivial, trivial⟩
  | array h capacity _ ih =>
    intro hp ht
    obtain ⟨hu, he⟩ := ih hp.tail ht
    exact ⟨hu.record h.id.ir he, he⟩
  | path h name hpath =>
    intro hp ht
    obtain ⟨id, hid, hty⟩ := Option.bind_eq_some_iff.1 hpath
    rw [pathTarget?_congr ht.builtinIds] at hid
    have hplain := ht.value (hp.paths (List.mem_singleton_self _) hid) hty
    exact ⟨ht.record h.id.ir hplain, hplain⟩

theorem plain_of_annotates? {t u : TypeTable} {a : Option TypeExpr} {ty : Option Ty}
    (h : Annotates? s t a ty u) (hp : Valuable s b K (TypeExpr.partsOf a)) (ht : Plainly b E K t) :
    Plainly b E K u ∧ ∀ x, ty = some x → x.Plain E := by
  cases h with
  | none => exact ⟨ht, by simp⟩
  | some h =>
    obtain ⟨hu, hty⟩ := h.plain hp ht
    refine ⟨hu, ?_⟩
    rintro x ⟨⟩
    exact hty

/-- The types that a judgement finds are plain. -/
def Judgement.Plain (E : IrId → Prop) : Judgement → Prop
  | .expr _ _ ty => ty.Plain E
  | .exprs _ tys => ∀ ty ∈ tys, ty.Plain E
  | _ => True

/-- The types of fields that a judgement is given are plain. -/
def Judgement.GivenPlain (E : IrId → Prop) : Judgement → Prop
  | .fields decls _ => decls.Plain E
  | _ => True

theorem plain_of_bound {annotated : Option Ty} {vt ty : Ty}
    (ha : ∀ a, annotated = some a → a.Plain E) (hv : vt.Plain E)
    (h : boundType? annotated vt = some ty) : ty.Plain E := by
  cases annotated with
  | none =>
    cases h
    exact hv
  | some a => exact (ha a rfl).combine? hv h

/-- A derivation finds and records plain types. -/
theorem Derives.plain {t u : TypeTable} {j : Judgement} (h : Derives s t j u) :
    Valuable s b K j.parts → j.GivenPlain E → Plainly b E K t → Plainly b E K u ∧ j.Plain E := by
  induction h with
  | literal h lit final hl =>
    intro _ _ ht
    exact ⟨ht.record _ (ht.builtins hl), ht.builtins hl⟩
  | identifier h name final hd hget _ =>
    intro hp _ ht
    have hty := ht.value (hp.names (List.mem_singleton_self _) hd) hget
    exact ⟨ht.record _ hty, hty⟩
  | retUnit h final hr hc =>
    intro _ _ ht
    have hty := (ht.result hr).combine? (b := .unit h.id.ir) trivial hc
    exact ⟨ht.record _ hty, hty⟩
  | ret h value final hr _ hc ih =>
    intro hp _ ht
    obtain ⟨hu, hv⟩ := ih hp.tail trivial ht
    have hty := (ht.result hr).combine? hv hc
    exact ⟨hu.record _ hty, hty⟩
  | call h callee args final _ _ hget _ _ ih =>
    intro hp _ ht
    obtain ⟨hu, _⟩ := ih hp.tail.tail trivial ht
    have hty := ((ht.entries hget).resolve_left fun hf => hf.elim).2.2
    exact ⟨hu.record _ hty, hty⟩
  | callError h callee args final _ _ hget _ _ =>
    intro _ _ ht
    rcases ht.entries hget with hf | ⟨_, hf⟩
    · exact hf.elim
    · exact hf.elim
  | assignName h g name value final hd hget _ hc ih =>
    intro hp _ ht
    have htt := ht.value (hp.tail.left.names (List.mem_singleton_self _) hd) hget
    obtain ⟨hu, hv⟩ := ih hp.tail.right trivial (ht.record g.id.ir htt)
    have hty := htt.combine? hv hc
    exact ⟨((hu.record _ hty).settled _ _ hty).record _ hty, hty⟩
  | assign h target value final _ _ _ hc iht ihv =>
    intro hp _ ht
    obtain ⟨hu, htt⟩ := iht hp.tail.left trivial ht
    obtain ⟨hv, hvt⟩ := ihv hp.tail.right trivial hu
    have hty := htt.combine? hvt hc
    exact ⟨((hv.record _ hty).settled _ _ hty).record _ hty, hty⟩
  | binary h op lhs rhs final _ _ hc ihl ihr =>
    intro hp _ ht
    obtain ⟨hu, hl⟩ := ihl hp.tail.left trivial ht
    obtain ⟨hv, hr⟩ := ihr hp.tail.right trivial hu
    have hty := hl.combine? hr hc
    exact ⟨hv.record _ hty, hty⟩
  | ifOnly h condition body final _ _ ihc ihb =>
    intro hp _ ht
    obtain ⟨hu, _⟩ := ihc hp.tail.left trivial ht
    obtain ⟨hv, _⟩ := ihb hp.tail.right trivial hu
    exact ⟨hv.record _ trivial, trivial⟩
  | ifElse h condition thenBody elseBody _ _ _ ihc iht ihe =>
    intro hp _ ht
    obtain ⟨hu, _⟩ := ihc hp.tail.left trivial ht
    obtain ⟨hv, _⟩ := iht hp.tail.right.left trivial hu
    obtain ⟨hw, _⟩ := ihe hp.tail.right.right trivial hv
    exact ⟨hw.record _ trivial, trivial⟩
  | ifElseFinal h condition thenBody elseBody hr _ _ _ hb hty ihc iht ihe =>
    intro hp _ ht
    obtain ⟨hu, _⟩ := ihc hp.tail.left trivial ht
    obtain ⟨hv, hthen⟩ := iht hp.tail.right.left trivial hu
    obtain ⟨hw, helse⟩ := ihe hp.tail.right.right trivial hv
    have hplain := ((ht.result hr).combine? hthen hb).combine? helse hty
    exact ⟨hw.record _ hplain, hplain⟩
  | ifElseIf h condition thenBody elseIf final _ _ _ ihc iht ihe =>
    intro hp _ ht
    obtain ⟨hu, _⟩ := ihc hp.tail.left trivial ht
    obtain ⟨hv, _⟩ := iht hp.tail.right.left trivial hu
    obtain ⟨hw, _⟩ := ihe hp.tail.right.right trivial hv
    exact ⟨hw.record _ trivial, trivial⟩
  | blockUnit h body final _ ih =>
    intro hp _ ht
    obtain ⟨hu, _⟩ := ih hp.tail trivial ht
    exact ⟨hu.record _ trivial, trivial⟩
  | block h body tail final _ _ ihb iht =>
    intro hp _ ht
    obtain ⟨hu, _⟩ := ihb hp.tail.left trivial ht
    obtain ⟨hv, hty⟩ := iht hp.tail.right trivial hu
    exact ⟨hv.record _ hty, hty⟩
  | index h base position final _ _ _ ihp ihb =>
    intro hp _ ht
    obtain ⟨hu, _⟩ := ihp hp.tail.right trivial ht
    obtain ⟨hv, hty⟩ := ihb hp.tail.left trivial hu
    exact ⟨hv.record _ hty, hty⟩
  | indexError h base position final _ _ _ ihp ihb =>
    intro hp _ ht
    obtain ⟨hu, _⟩ := ihp hp.tail.right trivial ht
    exact (ihb hp.tail.left trivial hu).2.elim
  | array h first rest final _ _ he ihf ihr =>
    intro hp _ ht
    obtain ⟨hu, hf⟩ := ihf hp.tail.left trivial ht
    obtain ⟨hv, hr⟩ := ihr hp.tail.right trivial hu
    have hty := hf.combineAll? hr he
    exact ⟨hv.record _ hty, hty⟩
  | copies h element count final _ ih =>
    intro hp _ ht
    obtain ⟨hu, hty⟩ := ih hp.tail trivial ht
    exact ⟨hu.record _ hty, hty⟩
  | struct h path fields final hn hs hget _ _ ih =>
    intro hp _ ht
    have hty := ht.value (hp.structs (List.mem_cons_self ..) hn hs) hget
    obtain ⟨hu, _⟩ := ih hp.tail.tail hty.2.2 ht
    exact ⟨hu.record _ hty, hty⟩
  | exprsNil t => exact fun _ _ ht => ⟨ht, fun _ hm => absurd hm List.not_mem_nil⟩
  | exprsCons e es _ _ ihe ihr =>
    intro hp _ ht
    obtain ⟨hu, hty⟩ := ihe hp.left trivial ht
    obtain ⟨hv, htys⟩ := ihr hp.right trivial hu
    exact ⟨hv, List.forall_mem_cons.2 ⟨hty, htys⟩⟩
  | argumentsNil t => exact fun _ _ ht => ⟨ht, trivial⟩
  | argumentsCons name param params e es _ _ _ ihe ihr =>
    intro hp _ ht
    exact ihr hp.right trivial (ihe hp.left trivial ht).1
  | fieldsNil decls t => exact fun _ _ ht => ⟨ht, trivial⟩
  | fieldsCons decls h name value rest _ hf hc _ ihv ihr =>
    intro hp hgiven ht
    obtain ⟨hu, hv⟩ := ihv hp.tail.left trivial ht
    have hty := (Members.Plain.find? hgiven hf).combine? hv hc
    exact ihr hp.tail.right hgiven (hu.record _ hty)
  | effect e _ ih => exact fun hp _ ht => ⟨(ih hp trivial ht).1, trivial⟩
  | @declare t u annotated h pattern ascribed ha =>
    intro hp _ ht
    obtain ⟨hu, hx⟩ := plain_of_annotates? ha hp.tail ht
    have hty : (annotated.getD (.infer h.id.ir)).Plain E := by
      cases annotated with
      | none => trivial
      | some x => exact hx x rfl
    exact ⟨(hu.record _ hty).record _ hty, trivial⟩
  | bind h pattern ascribed init ha _ hb ih =>
    intro hp _ ht
    obtain ⟨hu, hx⟩ := plain_of_annotates? ha hp.tail.left ht
    obtain ⟨hv, hi⟩ := ih hp.tail.right trivial hu
    have hty := plain_of_bound hx hi hb
    exact ⟨(hv.record _ hty).record _ hty, trivial⟩
  | stmtsNil t => exact fun _ _ ht => ⟨ht, trivial⟩
  | stmtsCons st rest _ _ ihs ihr =>
    intro hp _ ht
    exact ihr hp.right trivial (ihs hp.left trivial ht).1

/-! ## Items -/

theorem HasParams.plain {t u : TypeTable} {ps : List Param} {ms : Members}
    (h : HasParams s t ps ms u) : Valuable s b K (ps.flatMap fun p => p.type.parts) →
    Plainly b E K t → Plainly b E K u ∧ ms.Plain E := by
  induction h with
  | nil t => exact fun _ ht => ⟨ht, trivial⟩
  | cons ha _ ih =>
    intro hp ht
    rw [List.flatMap_cons] at hp
    obtain ⟨hu, hty⟩ := ha.plain hp.left ht
    obtain ⟨hv, hms⟩ := ih hp.right ((hu.record _ hty).record _ hty)
    exact ⟨hv, hty, hms⟩

/-- Field declarations are no values. -/
theorem HasFields.plain {t u : TypeTable} {fs : List FieldDecl} {ms : Members}
    (h : HasFields s t fs ms u) : (∀ f ∈ fs, K f.head.id.ir) →
    Valuable s b K (fs.flatMap fun f => f.type.parts) → Plainly b E K t →
    Plainly b E K u ∧ ms.Plain E := by
  induction h with
  | nil t => exact fun _ _ ht => ⟨ht, trivial⟩
  | cons ha _ ih =>
    intro hk hp ht
    rw [List.flatMap_cons] at hp
    obtain ⟨hf, hrest⟩ := List.forall_mem_cons.1 hk
    obtain ⟨hu, hty⟩ := ha.plain hp.left ht
    obtain ⟨hv, hms⟩ := ih hrest hp.right (hu.put (.inr ⟨hf, trivial⟩))
    exact ⟨hv, hty, hms⟩

theorem HasFields.names_eq {t u : TypeTable} {fs : List FieldDecl} {ms : Members}
    (h : HasFields s t fs ms u) : ms.names = fs.map (·.name) := by
  induction h with
  | nil t => rfl
  | cons _ _ ih => exact congrArg (_ :: ·) ih

/-- What the item declares that is no value belongs to `K`, and its type names and names stand for
values. The fields of a struct have different names. -/
structure Valued (s : Scope) (b : TypeTable) (K : IrId → Prop) (i : Item) : Prop where
  parts : Valuable s b K i.parts
  function : ∀ d, i.kind = .function d → K i.head.id.ir
  fields : ∀ d, i.kind = .struct d → (∀ f ∈ d.fields, K f.head.id.ir) ∧
    (d.fields.map (·.name)).Nodup

/-- A signature finds a plain type for a struct item whose identity is in `E`, as for constants and
statics. -/
theorem HasSignature.plain {t u : TypeTable} {i : Item} {ty : Ty} (h : HasSignature s t i ty u)
    (hi : Valued s b K i) (hE : i.isStruct = true → E i.head.id.ir) (ht : Plainly b E K t) :
    Plainly b E K u ∧ (ty.Plain E ∨ K i.head.id.ir ∧ ty.Declares E) := by
  have hp : Valuable s b K i.signatureParts := hi.parts.left
  cases h with
  | @function _ _ ps result h d hps ha =>
    obtain ⟨hv, hms⟩ := hps.plain hp.left ht
    obtain ⟨hu, hx⟩ := plain_of_annotates? ha hp.right hv
    have hresult : (result.getD (.unit h.id.ir)).Plain E := by
      cases result with
      | none => trivial
      | some r => exact hx r rfl
    exact ⟨hu, .inr ⟨hi.function d rfl, hms, hresult⟩⟩
  | struct h d hf =>
    obtain ⟨hk, hn⟩ := hi.fields d rfl
    obtain ⟨hu, hms⟩ := hf.plain hk hp ht
    exact ⟨hu, .inl ⟨hE rfl, hf.names_eq ▸ hn, hms⟩⟩
  | constant h d ha =>
    obtain ⟨hu, hty⟩ := ha.plain hp ht
    exact ⟨hu, .inl hty⟩
  | static h d ha =>
    obtain ⟨hu, hty⟩ := ha.plain hp ht
    exact ⟨hu, .inl hty⟩

theorem Signs.plain {t u : TypeTable} {i : Item} (h : Signs s t i u) (hi : Valued s b K i)
    (hE : i.isStruct = true → E i.head.id.ir) (ht : Plainly b E K t) : Plainly b E K u := by
  obtain ⟨ty, v, h, rfl⟩ := h
  obtain ⟨hv, hty⟩ := h.plain hi hE ht
  exact hv.put hty

theorem Fits.plain {t u : TypeTable} {i : Item} (h : Fits s t i u) (hi : Valued s b K i)
    (ht : Plainly b E K t) : Plainly b E K u := by
  have hp : Valuable s b K i.bodyParts := hi.parts.right
  cases h with
  | function h d hget hb _ =>
    have hresult := ((ht.entries hget).resolve_left fun hf => hf.elim).2.2
    exact (hb.plain hp trivial (ht.pushReturn hresult)).1.popReturn
  | struct h d => exact ht
  | constant h d _ hv _ => exact (hv.plain hp trivial ht).1
  | static h d _ hv _ => exact (hv.plain hp trivial ht).1

/-- After a pass over a program all types are plain but those of what is no value. -/
theorem Passes.plain {p : Program} {t u : TypeTable} (h : Passes s p t u)
    (hp : ∀ i ∈ p.items, Valued s b K i) (hE : ∀ i ∈ p.items, i.isStruct = true → E i.head.id.ir)
    (ht : Plainly b E K t) : Plainly b E K u := by
  obtain ⟨v, hsigns, hfits⟩ := h
  have hv : Plainly b E K v := hsigns.mem.invariant (I := fun _ t => Plainly b E K t)
    (fun ht hs => hs.2.plain (hp _ (mem_signatureOrder.1 hs.1))
      (hE _ (mem_signatureOrder.1 hs.1)) ht) ht
  exact hfits.mem.invariant (I := fun _ t => Plainly b E K t)
    (fun ht hs => hs.2.plain (hp _ hs.1) ht) hv

end MiddleEnd.Check
