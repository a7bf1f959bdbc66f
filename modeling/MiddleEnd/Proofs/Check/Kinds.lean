/-
  The kinds of a program: its primitive types and the types of its struct items. Once the signatures
  are recorded, every type in the table is made of these (`Session.Signed.made`), and no two of them
  are alike (`Session.Signed.distinguished`).
-/
import MiddleEnd.Proofs.Check.Unresolved
import MiddleEnd.Proofs.Check.Whole
import MiddleEnd.Proofs.Tables.Primitives
import MiddleEnd.Proofs.Ty.Twin

namespace MiddleEnd

namespace Check

variable {s : Scope} {T : TypeTable} {E : Ty → Prop}

/-! ## Signatures -/

/-- The table has types for the nodes, and these are made of `E`. -/
def MadeOf (E : Ty → Prop) (T : TypeTable) (ids : List IrId) : Prop :=
  ∀ id ∈ ids, ∃ ty, T.get? id = some ty ∧ ty.MadeOf E

/-- What the named annotations stand for is made of `E`. -/
def PathsMadeOf (E : Ty → Prop) (s : Scope) (T : TypeTable) (parts : List Part) : Prop :=
  ∀ h name ty, .ascription (.path h name) ∈ parts → pathType? s T h = some ty → ty.MadeOf E

variable {parts parts' : List Part}

theorem PathsMadeOf.sub (h : PathsMadeOf E s T parts) (hsub : parts' ⊆ parts) :
    PathsMadeOf E s T parts' :=
  fun g name ty hm => h g name ty (hsub hm)

theorem MadeOf.cons {ids : List IrId} {id : IrId} {ty : Ty} (h : MadeOf E T ids)
    (hget : T.get? id = some ty) (hty : ty.MadeOf E) : MadeOf E T (id :: ids) :=
  List.forall_mem_cons.2 ⟨⟨ty, hget, hty⟩, h⟩

theorem MadeOf.append {ids ids' : List IrId} (h : MadeOf E T ids) (k : MadeOf E T ids') :
    MadeOf E T (ids ++ ids') :=
  List.forall_mem_append.2 ⟨h, k⟩

theorem MadeOf.nil : MadeOf E T [] := fun _ hm => absurd hm List.not_mem_nil

theorem Denotes.made {a : TypeExpr} {ty : Ty} (h : Denotes s T a ty) :
    PathsMadeOf E s T a.parts → ty.MadeOf E ∧ MadeOf E T a.ids := by
  induction h with
  | unit h hget =>
    intro _
    exact ⟨trivial, by simpa using MadeOf.nil.cons hget trivial⟩
  | @array element ty h capacity _ hget ih =>
    intro hp
    obtain ⟨hty, hids⟩ := ih (hp.sub (List.subset_cons_self ..))
    have hall := hids.cons hget (show (Ty.array h.id.ir ty capacity.toNat).MadeOf E from hty)
    exact ⟨hty, by simpa using hall⟩
  | path h name hpath hget =>
    intro hp
    have hty := hp h name _ (List.mem_singleton_self _) hpath
    exact ⟨hty, by simpa using MadeOf.nil.cons hget hty⟩

/-- What an annotation stands for that may be missing, where unit stands for none. -/
theorem made_of_denotes? {a : Option TypeExpr} {ty : Option Ty} (h : Denotes? s T a ty)
    (hp : PathsMadeOf E s T (TypeExpr.partsOf a)) (r : IrId) :
    (ty.getD (.unit r)).MadeOf E ∧ MadeOf E T (TypeExpr.idsOf a) := by
  cases h with
  | none => exact ⟨trivial, MadeOf.nil⟩
  | some h => exact h.made hp

theorem TypedParams.made {ps : List Param} {ms : Members} (h : TypedParams s T ps ms) :
    PathsMadeOf E s T (ps.flatMap fun p => p.type.parts) →
    ms.MadeOf E ∧ MadeOf E T (ps.flatMap Param.ids) := by
  induction h with
  | nil => exact fun _ => ⟨trivial, MadeOf.nil⟩
  | cons hd hget hget' _ ih =>
    intro hp
    rw [List.flatMap_cons] at hp
    obtain ⟨hty, hids⟩ := hd.made (hp.sub (List.subset_append_left ..))
    obtain ⟨hms, hrest⟩ := ih (hp.sub (List.subset_append_right ..))
    rw [List.flatMap_cons, Param.ids_eq]
    exact ⟨⟨hty, hms⟩, ((hids.append hrest).cons hget' hty).cons hget hty⟩

theorem TypedFields.made {fs : List FieldDecl} {ms : Members} (h : TypedFields s T fs ms) :
    PathsMadeOf E s T (fs.flatMap fun f => f.type.parts) →
    ms.MadeOf E ∧ MadeOf E T (fs.flatMap FieldDecl.ids) := by
  induction h with
  | nil => exact fun _ => ⟨trivial, MadeOf.nil⟩
  | cons hd hget _ ih =>
    intro hp
    rw [List.flatMap_cons] at hp
    obtain ⟨hty, hids⟩ := hd.made (hp.sub (List.subset_append_left ..))
    obtain ⟨hms, hrest⟩ := ih (hp.sub (List.subset_append_right ..))
    rw [List.flatMap_cons, FieldDecl.ids_eq]
    exact ⟨⟨hty, hms⟩, (hids.append hrest).cons hget hty⟩

theorem TypedSignature.made {i : Item} {ty : Ty} (h : TypedSignature s T i ty)
    (hget : T.get? i.head.id.ir = some ty) (hp : PathsMadeOf E s T i.signatureParts)
    (hstruct : i.isStruct = true → E ty) : MadeOf E T i.signatureIds := by
  cases h with
  | function h d hps hresult =>
    obtain ⟨hms, hids⟩ := hps.made (hp.sub (List.subset_append_left ..))
    obtain ⟨hty, hids'⟩ := made_of_denotes? hresult (hp.sub (List.subset_append_right ..)) h.id.ir
    exact (hids.append hids').cons hget ⟨hms, hty⟩
  | struct h d hf => exact (hf.made hp).2.cons hget (hstruct rfl)
  | constant h d hd => exact (hd.made hp).2.cons hget (hd.made hp).1
  | static h d hd => exact (hd.made hp).2.cons hget (hd.made hp).1

/-- The fields of a struct item are made of what its annotations stand for. -/
theorem TypedSignature.fields {i : Item} {ty : Ty} {r : IrId} {name : String} {ms : Members}
    (h : TypedSignature s T i ty) (hi : i.isStruct = true) (hty : ty = .struct r name ms)
    (hp : PathsMadeOf E s T i.signatureParts) : ms.MadeOf E := by
  cases h with
  | struct h d hf =>
    cases hty
    exact (hf.made hp).1
  | function | constant | static => cases hi

end Check

/-! ## Sessions -/

namespace Session

/-- A primitive type as it is declared, or the type that a struct item has in table `v`. -/
def IsKind (s : Session) (v : TypeTable) (a : Ty) : Prop :=
  (∃ b ∈ s.scope.bindings.builtins, s.types.builtinId? b.node = some a.ref ∧
    a = .ofPrimitive a.ref b.primitive) ∨
  a.ref ∈ s.program.structs ∧ v.get? a.ref = some a

/-- Signatures hold no names, so it is enough that type names mean struct items or primitive
types. -/
theorem TypesBound.signaturesPlaced {s : Session} (hb : s.TypesBound)
    (hn : s.program.ids.Nodup) : Check.SignaturesPlaced s.scope s.types (· ∈ s.program.lets)
      s.program.IsFirm s.program where
  separate _ hF := Program.not_mem_lets_of_isFirm hn hF
  firm _ hi _ hid := .inl (List.mem_flatMap.2 ⟨_, hi, hid⟩)
  signatures i hi := by
    have hparts : i.signatureParts.Sublist s.program.parts :=
      (List.sublist_append_left ..).trans (Program.parts_sublist hi)
    have hnone := Check.noExpr_signatureParts i
    constructor
    case nodup =>
      have hall := (List.nodup_append.1 (s.program.ids_perm.nodup_iff.1 hn)).2.1
      exact hall.sublist (hparts.flatMap Part.irs)
    case loose =>
      intro id hid
      obtain ⟨a, ha, hid⟩ := List.mem_flatMap.1 hid
      exact Program.not_isFirm_of_irs hn (hparts.mem ha) hid
    case nodes =>
      exact fun hp hbind id hid => Program.not_mem_lets_of_irs hn (hparts.mem hp) hbind hid
    case paths =>
      intro g name id hm hpath
      have hid := hb.typePaths g (List.mem_filterMap.2 ⟨_, hparts.mem hm, rfl⟩) id hpath
      exact hid.imp_left Program.mem_firm_of_structs
    case names => exact fun he => absurd he (hnone _)
    case callees => exact fun he => absurd he (hnone _)
    case structs => exact fun he => absurd he (hnone _)

/-- The first check of the unit has recorded all signatures without a report, and left table `v`. -/
structure Signed (u : CompilationUnit) (v : TypeTable) : Prop where
  room : (ofUnit u).HasRoom
  distinct : u.program.ids.Nodup
  bound : (ofUnit u).TypesBound
  signs : Chain (Check.Signs (ofUnit u).scope) (ofUnit u).types
    (Check.signatureOrder u.program.items) v

namespace Signed

open Check

variable {u : CompilationUnit} {v : TypeTable} (h : Signed u v)
include h

theorem fitting : Fitting (ofUnit u).types u.program.IsFirm u.program u.program.items v :=
  ((h.bound.signaturesPlaced h.distinct).signed (T := v) h.signs ((known u).good _) (known u).returns
    h.distinct fun _ => get?_eq_none_of_mem_ids h.room).1

theorem signature {i : Item} (hi : i ∈ u.program.items) :
    ∃ ty, TypedSignature (ofUnit u).scope v i ty ∧ v.get? i.head.id.ir = some ty :=
  ((h.bound.signaturesPlaced h.distinct).signed (T := v) h.signs ((known u).good _) (known u).returns
    h.distinct fun _ => get?_eq_none_of_mem_ids h.room).2 (.refl v) i hi

theorem setting : SameSetting (ofUnit u).types v := setting_of_chain (fun h => h.setting) h.signs

/-- Only nodes of the program have got types. -/
theorem outside {id : IrId} (hid : id ∉ u.program.ids) : v.get? id = (ofUnit u).types.get? id := by
  have hframe : SameBut (· ∈ u.program.ids) (ofUnit u).types v := by
    refine frame_of_chain h.signs fun hi hs => hs.frame fun other ho => ?_
    exact Program.mem_ids_of_item (mem_signatureOrder.1 hi) (Item.signatureIds_subset _ ho)
  exact hframe id hid

/-- A struct item has the type that it declares. -/
theorem struct {id : IrId} (hid : id ∈ u.program.structs) : ∃ name ms,
    v.get? id = some (.struct id name ms) ∧ ∃ i ∈ u.program.items, i.isStruct = true ∧
      TypedSignature (ofUnit u).scope v i (.struct id name ms) := by
  obtain ⟨i, hi, rfl⟩ := List.mem_map.1 hid
  obtain ⟨hi, his⟩ := List.mem_filter.1 hi
  obtain ⟨ty, hty, hget⟩ := h.signature hi
  cases hty with
  | struct g d hf => exact ⟨_, _, hget, _, hi, his, .struct g d hf⟩
  | function | constant | static => cases his

/-- What named annotations may mean has a type of data, and that is a kind. -/
theorem basic {id : IrId} {ty : Ty} (hid : id ∈ u.program.structs ∨ id ∉ u.program.ids)
    (hget : v.get? id = some ty) : ty.isData = true ∧ ty.MadeOf ((ofUnit u).IsKind v) := by
  rcases hid with hstruct | hout
  · obtain ⟨name, ms, hget', -⟩ := h.struct hstruct
    cases hget.symm.trans hget'
    exact ⟨rfl, .inr ⟨hstruct, hget⟩⟩
  · rw [h.outside hout] at hget
    rcases (based h.room).known hget with hunit | ⟨b, hb, hid, rfl⟩
    · cases ty with
      | unit r => exact ⟨rfl, trivial⟩
      | _ => cases hunit
    · refine Ty.isData_ofPrimitive (.inl ⟨b, hb, ?_, ?_⟩)
      · rwa [TypeTable.ref_ofPrimitive]
      · rw [TypeTable.ref_ofPrimitive]

theorem paths : PathsMadeOf ((ofUnit u).IsKind v) (ofUnit u).scope v u.program.parts := by
  intro g name ty hm hpath
  obtain ⟨id, htarget, hget⟩ := Option.bind_eq_some_iff.1 hpath
  rw [pathTarget?_congr h.setting.builtinIds] at htarget
  exact (h.basic (h.bound.typePaths g (List.mem_filterMap.2 ⟨_, hm, rfl⟩) id htarget) hget).2

/-- All types in the table are made of kinds. -/
theorem made {id : IrId} {ty : Ty} (hget : v.get? id = some ty) :
    ty.MadeOf ((ofUnit u).IsKind v) := by
  by_cases hid : id ∈ u.program.ids
  · rw [Program.ids_eq] at hid
    obtain ⟨i, hi, hid⟩ := List.mem_flatMap.1 hid
    rw [Item.ids_eq] at hid
    rcases List.mem_append.1 hid with hid | hid
    · obtain ⟨ty', hty', hget'⟩ := h.signature hi
      have hkind : i.isStruct = true → (ofUnit u).IsKind v ty' := by
        intro his
        have hstruct : i.head.id.ir ∈ u.program.structs :=
          List.mem_map_of_mem (List.mem_filter.2 ⟨hi, his⟩)
        obtain ⟨name, ms, hget'', -⟩ := h.struct hstruct
        cases hget'.symm.trans hget''
        exact .inr ⟨hstruct, hget'⟩
      have hsub := ((List.sublist_append_left ..).trans (Program.parts_sublist hi)).subset
      obtain ⟨x, hx, hmade⟩ := hty'.made hget' (h.paths.sub hsub) hkind id hid
      cases hget.symm.trans hx
      exact hmade
    · have hnone := h.fitting.unrecorded.fresh id (List.mem_flatMap.2 ⟨i, hi, hid⟩)
      cases hget.symm.trans hnone
  · exact (h.basic (.inr hid) hget).2

theorem complete {a : Ty} (ha : (ofUnit u).IsKind v a) : a.complete = true := by
  rcases ha with ⟨b, hb, -, he⟩ | ⟨hstruct, hget⟩
  · rw [he]
    exact Ty.complete_ofPrimitive _ _
  · exact h.fitting.good.firm hget (.inl (Program.mem_firm_of_structs hstruct))

/-- No two kinds are alike. -/
theorem distinguished : Distinguished ((ofUnit u).IsKind v) where
  complete := h.complete
  eq := by
    rintro a c (⟨b, hb, hnode, ha⟩ | ⟨hstruct, hget⟩) (⟨b', hb', hnode', hc⟩ | ⟨hstruct', hget'⟩) hac
    · rw [ha, hc] at hac
      have hprimitive := Ty.primitive_eq_of_alike hac
      have hnodup : ((bindings u).builtins.map (·.primitive)).Nodup := by
        rw [bindings_builtins, Bindings.declare_primitives]
        decide
      cases List.inj_on_of_nodup_map hnodup hb hb' hprimitive
      rw [ha, hc, Option.some.inj (hnode.symm.trans hnode')]
    · obtain ⟨name, ms, hget'', -⟩ := h.struct hstruct'
      rw [ha, Option.some.inj (hget'.symm.trans hget'')] at hac
      exact (Ty.not_alike_struct hac).elim
    · obtain ⟨name, ms, hget'', -⟩ := h.struct hstruct
      rw [hc, Option.some.inj (hget.symm.trans hget'')] at hac
      exact (Ty.not_alike_struct hac.symm).elim
    · obtain ⟨name, ms, hget₁, -⟩ := h.struct hstruct
      obtain ⟨name', ms', hget₂, -⟩ := h.struct hstruct'
      have ha := Option.some.inj (hget.symm.trans hget₁)
      have hc := Option.some.inj (hget'.symm.trans hget₂)
      have href : a.ref = c.ref := by
        rw [ha, hc] at hac
        exact ((Ty.struct.injEq ..).mp hac).1
      rw [href] at hget
      exact Option.some.inj (hget.symm.trans hget')
  fields := by
    rintro r name ms (⟨b, hb, -, he⟩ | ⟨hstruct, hget⟩)
    · exact (Ty.not_alike_struct (congrArg Ty.shape he.symm)).elim
    · obtain ⟨name', ms', hget', i, hi, his, hty⟩ := h.struct hstruct
      cases hget.symm.trans hget'
      have hsub := ((List.sublist_append_left ..).trans (Program.parts_sublist hi)).subset
      exact hty.fields his rfl (h.paths.sub hsub)

end Signed

end Session

end MiddleEnd
