/-
  Type names in the fields of structs. The signatures of struct items are recorded one after the
  other, and a type name is looked up in the table as it is by then. So the type name of a field
  stands for a struct only if that struct's item comes earlier: a name that means a later struct, or
  the struct itself, is reported to mean nothing. What is reported is exactly that, whatever the
  order of the struct items (`Session.fieldTypes_reported`).
-/
import Mathlib.Data.List.Nodup
import MiddleEnd.Proofs.Check.Binding
import MiddleEnd.Proofs.Check.Fade
import MiddleEnd.Proofs.Syntax.Samples
import MiddleEnd.Proofs.Tables.Primitives

namespace MiddleEnd

/-- The report that a named annotation of which `late` holds means nothing. -/
def Part.unresolved (late : Head → Bool) : Part → List Diagnostic
  | .ascription (.path g name) =>
    if late g then [⟨.error, .unresolvedType name, g.locus⟩] else []
  | _ => []

/-- The fields that mean a struct item of the program other than the declared ones. -/
def Item.lateFields (s : Session) (declared : List IrId) (i : Item) : List Diagnostic :=
  i.signatureParts.flatMap (Part.unresolved fun g =>
    (Check.pathTarget? s.scope s.types g).any fun id =>
      s.program.structs.contains id && !declared.contains id)

/-- The fields that mean struct items which do not come earlier; the items declared before those of
the list are given. -/
def Session.lateFields (s : Session) : List IrId → List Item → List Diagnostic
  | _, [] => []
  | declared, i :: rest =>
    i.lateFields s declared ++ s.lateFields (declared ++ [i.head.id.ir]) rest

/-- The type names of struct fields mean primitive types or struct items. -/
def Session.FieldsBound (s : Session) : Prop :=
  ∀ i ∈ s.program.items, i.isStruct = true → ∀ g ∈ i.signatureParts.filterMap Part.typePath?,
    ∃ id ∈ Check.pathTarget? s.scope s.types g, id ∈ s.program.structs ∨ id ∉ s.program.ids

instance (s : Session) : Decidable s.FieldsBound :=
  inferInstanceAs (Decidable (∀ i ∈ s.program.items, _))

namespace Check

variable {s : Scope} {b t u : TypeTable} {ids : List IrId} {late : Head → Bool}

/-! ## Annotations -/

/-- The named annotations are resolved except where `late` holds, and will be as long as only the
nodes `ids` get types. -/
def Anticipates (s : Scope) (late : Head → Bool) (ids : List IrId) (t : TypeTable)
    (parts : List Part) : Prop :=
  ∀ g name, .ascription (.path g name) ∈ parts →
    ∃ id, pathTarget? s t g = some id ∧ id ∉ ids ∧ late g = (t.get? id).isNone

theorem Anticipates.mono {ids' : List IrId} {parts parts' : List Part}
    (h : Anticipates s late ids t parts) (hids : ids' ⊆ ids) (hparts : parts' ⊆ parts) :
    Anticipates s late ids' t parts' := by
  intro g name hm
  obtain ⟨id, htarget, hid, hlate⟩ := h g name (hparts hm)
  exact ⟨id, htarget, fun hm => hid (hids hm), hlate⟩

theorem Anticipates.later {written : List IrId} {parts : List Part}
    (h : Anticipates s late ids t parts) (hsame : SameBut (· ∈ written) t u)
    (hset : SameSetting t u) (hw : written ⊆ ids) : Anticipates s late ids u parts := by
  intro g name hm
  obtain ⟨id, htarget, hid, hlate⟩ := h g name hm
  refine ⟨id, (pathTarget?_congr hset.builtinIds g).trans htarget, hid, ?_⟩
  rw [hsame id fun hm => hid (hw hm), hlate]

theorem yields_recorded (t : TypeTable) (id : IrId) (ty : Ty) :
    Yields (record id ty >>= fun _ => pure ty) t ty (t.record id ty) :=
  (yields_record t id ty).bind (yields_pure _ ty)

/-- An annotation is reported if it is late, and gets a type in any case. -/
theorem reports_typeExpr : ∀ (a : TypeExpr) {t : TypeTable}, Anticipates s late a.ids t a.parts →
    ∃ ty u, Reports (typeExpr s a) t ty (a.parts.flatMap (Part.unresolved late)) u ∧
      SameBut (· ∈ a.ids) t u ∧ SameSetting t u
  | .unit h, t, _ =>
    ⟨.unit h.id.ir, _, (yields_recorded t h.id.ir _).reports,
      (SameBut.refl t).record (List.mem_singleton_self _) _, .record t _ _⟩
  | .array h element capacity, t, ha => by
    obtain ⟨ty, u, hr, hsame, hset⟩ := reports_typeExpr element
      (ha.mono (List.subset_cons_self ..) (List.subset_cons_self ..))
    let array : Ty := .array h.id.ir ty capacity.toNat
    have hwritten : SameBut (· ∈ (TypeExpr.array h element capacity).ids) t u :=
      fun id hid => hsame id fun hm => hid (List.mem_cons_of_mem _ hm)
    refine ⟨array, u.record h.id.ir array, ?_, hwritten.record (List.mem_cons_self ..) _,
      hset.trans (.record u _ _)⟩
    have hall := hr.bind (f := fun ty => record h.id.ir (.array h.id.ir ty capacity.toNat) >>=
      fun _ => pure (Ty.array h.id.ir ty capacity.toNat)) (yields_recorded u h.id.ir array).reports
    rw [List.append_nil] at hall
    exact hall
  | .path h name, t, ha => by
    obtain ⟨id, htarget, -, hlate⟩ := ha h name (List.mem_singleton_self _)
    have hty : pathType? s t h = t.get? id := by rw [pathType?, htarget]; rfl
    have hwritten : ∀ ty, SameBut (· ∈ (TypeExpr.path h name).ids) t (t.record h.id.ir ty) :=
      fun ty => (SameBut.refl t).record (List.mem_singleton_self _) ty
    rw [TypeExpr.parts, List.flatMap_singleton, Part.unresolved, hlate]
    rcases hget : t.get? id with _ | ty
    · refine ⟨.error h.id.ir, t.record h.id.ir (.error h.id.ir), reports_get fun p hp => ?_,
        hwritten _, .record t _ _⟩
      rw [hp, hty, hget]
      exact (reports_report t h.locus (.unresolvedType name)).bind
        (yields_recorded t h.id.ir (.error h.id.ir)).reports
    · refine ⟨ty, t.record h.id.ir ty, reports_get fun p hp => ?_, hwritten _, .record t _ _⟩
      rw [hp, hty, hget]
      exact (yields_recorded t h.id.ir ty).reports

/-! ## Signatures of struct items -/

theorem reports_fieldDecls : ∀ (fs : List FieldDecl) {t : TypeTable},
    Anticipates s late (fs.flatMap FieldDecl.ids) t (fs.flatMap fun f => f.type.parts) →
    ∃ ms u, Reports (fieldDecls s fs) t ms
        ((fs.flatMap fun f => f.type.parts).flatMap (Part.unresolved late)) u ∧
      SameBut (· ∈ fs.flatMap FieldDecl.ids) t u ∧ SameSetting t u
  | [], t, _ => ⟨_, t, (yields_pure t Members.nil).reports, .refl t, .refl t⟩
  | f :: fs, t, ha => by
    rw [List.flatMap_cons, List.flatMap_cons, FieldDecl.ids_eq] at ha
    have hsub : f.type.ids ⊆ f.head.id.ir :: f.type.ids ++ fs.flatMap FieldDecl.ids :=
      fun _ hm => List.mem_cons_of_mem _ (List.mem_append_left _ hm)
    obtain ⟨ty, u, hr, hsame, hset⟩ :=
      reports_typeExpr f.type (ha.mono hsub (List.subset_append_left ..))
    let field : Ty := .field f.head.id.ir f.name ty
    have hwritten : SameBut (· ∈ f.ids) t (u.record f.head.id.ir field) := by
      have hu : SameBut (· ∈ f.ids) t u := fun id hid => hsame id fun hm =>
        hid (List.mem_cons_of_mem _ hm)
      exact hu.record (List.mem_cons_self ..) _
    have hset' := hset.trans (.record u f.head.id.ir field)
    obtain ⟨ms, v, hr', hsame', hset''⟩ := reports_fieldDecls fs
      ((ha.later hwritten hset' (List.subset_append_left ..)).mono
        (List.subset_append_right ..) (List.subset_append_right ..))
    refine ⟨.cons f.name ty ms, v, ?_, ?_, hset'.trans hset''⟩
    · have hrest := (yields_record u f.head.id.ir field).reports.bind
        (f := fun _ => fieldDecls s fs >>= fun ms => pure (Members.cons f.name ty ms))
        (hr'.bind (yields_pure v (Members.cons f.name ty ms)).reports)
      rw [List.append_nil, List.nil_append] at hrest
      rw [List.flatMap_cons, List.flatMap_append]
      exact hr.bind (f := fun ty => record f.head.id.ir (.field f.head.id.ir f.name ty) >>= fun _ =>
        fieldDecls s fs >>= fun ms => pure (Members.cons f.name ty ms)) hrest
    · intro id hid
      rw [List.flatMap_cons] at hid
      have hrest := hsame' id fun hm => hid (List.mem_append_right _ hm)
      exact hrest.trans (hwritten id fun hm => hid (List.mem_append_left _ hm))

theorem reports_structSignature {i : Item} (hs : i.isStruct = true)
    (ha : Anticipates s late i.signatureIds.tail t i.signatureParts) :
    ∃ u, Reports (signature s i) t () (i.signatureParts.flatMap (Part.unresolved late)) u ∧
      SameBut (· ∈ i.signatureIds) t u ∧ SameSetting t u ∧ u.get? i.head.id.ir ≠ none := by
  obtain ⟨h, k⟩ := i
  cases k with
  | struct d =>
    obtain ⟨ms, u, hr, hsame, hset⟩ := reports_fieldDecls d.fields ha
    let ty : Ty := .struct h.id.ir d.name ms
    have hwritten : SameBut (· ∈ Item.signatureIds ⟨h, .struct d⟩) t u :=
      fun id hid => hsame id fun hm => hid (List.mem_cons_of_mem _ hm)
    refine ⟨u.record h.id.ir ty, ?_, hwritten.record (List.mem_cons_self ..) _,
      hset.trans (.record u _ _), ?_⟩
    · have htype := hr.bind (f := fun ms => pure (Ty.struct h.id.ir d.name ms))
        (yields_pure u ty).reports
      have hall := htype.bind (f := fun ty => record h.id.ir ty)
        (yields_record u h.id.ir ty).reports
      rw [List.append_nil, List.append_nil] at hall
      exact hall
    · rw [get?_record_self]
      exact Option.some_ne_none _
  | function => cases hs
  | constant => cases hs
  | static => cases hs

/-- What is known of the table when the struct items `declared` have got their types. -/
structure Declared (p : Program) (b : TypeTable) (declared : List IrId) (t : TypeTable) : Prop where
  setting : SameSetting b t
  structs : ∀ id ∈ p.structs, (t.get? id).isNone = !declared.contains id
  others : ∀ id, id ∉ p.ids → t.get? id = b.get? id

end Check

namespace Check

variable {s : Session} {declared : List IrId} {t : TypeTable}

/-- The type names of the fields of a struct item are resolved where they mean primitive types or
struct items declared by then. -/
theorem Declared.anticipates (hd : Declared s.program s.types declared t)
    (hn : s.program.ids.Nodup) (hb : s.FieldsBound)
    (hknown : ∀ id, id ∉ s.program.ids → (∃ g, pathTarget? s.scope s.types g = some id) →
      s.types.get? id ≠ none)
    {i : Item} (hi : i ∈ s.program.items) (hs : i.isStruct = true) :
    Anticipates s.scope (fun g => (pathTarget? s.scope s.types g).any fun id =>
      s.program.structs.contains id && !declared.contains id) i.signatureIds.tail t
      i.signatureParts := by
  intro g name hm
  obtain ⟨id, htarget, hid⟩ := hb i hi hs g (List.mem_filterMap.2 ⟨_, hm, rfl⟩)
  have hself : i.head.id.ir ∉ i.signatureIds.tail := by
    have hids : i.ids.Nodup := by
      rw [Program.ids_eq] at hn
      exact (List.nodup_flatMap.1 hn).1 i hi
    rw [Item.ids_eq] at hids
    exact (List.nodup_cons.1 (List.nodup_append.1 hids).1).1
  refine ⟨id, (pathTarget?_congr hd.setting.builtinIds g).trans htarget, ?_, ?_⟩
  · intro hmem
    have hmi := i.signatureIds_subset (List.mem_of_mem_tail hmem)
    rcases hid with hstruct | hout
    · exact hself (Program.eq_head hn hi (Program.mem_heads_of_structs hstruct) hmi ▸ hmem)
    · exact hout (Program.mem_ids_of_item hi hmi)
  · show (pathTarget? s.scope s.types g).any _ = _
    rw [show pathTarget? s.scope s.types g = some id from htarget, Option.any_some]
    rcases hid with hstruct | hout
    · rw [List.contains_iff_mem.2 hstruct, Bool.true_and, hd.structs id hstruct]
    · have hstruct : s.program.structs.contains id = false := by
        rw [List.contains_eq_mem, decide_eq_false_iff_not]
        exact fun hm => hout (Program.mem_ids_of_heads (Program.mem_heads_of_structs hm))
      rw [hstruct, hd.others id hout, Bool.false_and]
      exact (Option.isNone_eq_false_iff.2 (Option.isSome_iff_ne_none.2
        (hknown id hout ⟨g, htarget⟩))).symm

/-- A struct item declares itself and changes nothing else that is known. -/
theorem Declared.cons (hd : Declared s.program s.types declared t) (hn : s.program.ids.Nodup)
    {u : TypeTable} {i : Item} (hi : i ∈ s.program.items) (hsame : SameBut (· ∈ i.signatureIds) t u)
    (hset : SameSetting t u) (hself : u.get? i.head.id.ir ≠ none) :
    Declared s.program s.types (declared ++ [i.head.id.ir]) u where
  setting := hd.setting.trans hset
  structs id hid := by
    by_cases he : id = i.head.id.ir
    · rw [he, Option.isNone_eq_false_iff.2 (Option.isSome_iff_ne_none.2 hself)]
      simp
    · have hout : id ∉ i.signatureIds := fun hm =>
        he (Program.eq_head hn hi (Program.mem_heads_of_structs hid) (i.signatureIds_subset hm))
      rw [hsame id hout, hd.structs id hid]
      simp [he]
  others id hid := by
    rw [hsame id fun hm => hid (Program.mem_ids_of_item hi (i.signatureIds_subset hm))]
    exact hd.others id hid

/-- Struct items get their types one after the other; what is reported are the fields that mean
later ones. -/
theorem reports_structSignatures (hn : s.program.ids.Nodup) (hb : s.FieldsBound)
    (hknown : ∀ id, id ∉ s.program.ids → (∃ g, pathTarget? s.scope s.types g = some id) →
      s.types.get? id ≠ none) :
    ∀ (items : List Item) {declared : List IrId} {t : TypeTable},
      (∀ i ∈ items, i ∈ s.program.items ∧ i.isStruct = true) →
      Declared s.program s.types declared t →
      ∃ u, Reports (items.forM (signature s.scope)) t PUnit.unit (s.lateFields declared items) u
  | [], _, t, _, _ => ⟨t, (yields_pure t PUnit.unit).reports⟩
  | i :: rest, declared, t, hitems, hd => by
    obtain ⟨hi, hs⟩ := hitems i (List.mem_cons_self ..)
    obtain ⟨u, hr, hsame, hset, hself⟩ :=
      reports_structSignature hs (hd.anticipates hn hb hknown hi hs)
    obtain ⟨v, hr'⟩ := reports_structSignatures hn hb hknown rest
      (fun j hj => hitems j (List.mem_cons_of_mem _ hj)) (hd.cons hn hi hsame hset hself)
    exact ⟨v, hr.bind (f := fun _ => rest.forM (signature s.scope)) hr'⟩

/-- What a step reports stays reported. -/
theorem Reports.prefix_bind {α β : Type} {m : Check α} {f : α → Check β} {S : Step β}
    {t u : TypeTable} {a : α} {ds : List Diagnostic} (h : Reports m t a ds u) (hf : Meets (f a) S)
    {p : Progress} (hp : p.types = t) :
    p.diagnostics ++ ds <+: ((m >>= f).run.run p).2.diagnostics := by
  obtain ⟨q, hq, hdiag, -⟩ := h p hp
  have hkeeps := hf.keeps q
  rw [hdiag] at hkeeps
  rw [run_bind, hq]
  exact hkeeps

/-- What the signatures of the struct items report is reported first by the whole check. -/
theorem prefix_program {s : Scope} {p : Program} {t u : TypeTable} {ds : List Diagnostic}
    (h : Reports ((p.items.filter Item.isStruct).forM (signature s)) t PUnit.unit ds u)
    (q : Progress) (hq : q.types = t) :
    q.diagnostics ++ ds <+: ((program s p).run.run q).2.diagnostics := by
  rw [program_eq, run_bind]
  exact h.prefix_bind ((meets_forM meets_signature _).bind fun _ => meets_forM meets_body p.items)
    (p := q.note [.checking p.items.length]) hq

end Check

/-! ## Sessions -/

namespace TypeTable

/-- Types declared at surface identities of their own are recorded. -/
def Listed (t : TypeTable) : Prop := ∀ node id, t.builtinId? node = some id → t.get? id ≠ none

theorem Listed.addBuiltin {t : TypeTable} (h : t.Listed) (node : SurfaceId) (name : String)
    (ty : Ty) : (t.addBuiltin node name ty).Listed := by
  intro other id hid
  rw [builtinId?_addBuiltin] at hid
  rw [get?_addBuiltin]
  split
  · exact Option.some_ne_none _
  · rename_i hne
    split at hid
    · exact absurd (Option.some.inj hid).symm hne
    · exact h other id hid

theorem listed_addBuiltins (bs : List Builtin) :
    ∀ {t : TypeTable}, t.Listed → ∀ r : Registry, (addBuiltins t r bs).1.Listed := by
  induction bs with
  | nil => exact fun h _ => h
  | cons b bs ih => exact fun h r => ih (h.addBuiltin b.node b.name _) _

theorem listed_withBuiltins (bs : List Builtin) (r : Registry) : (withBuiltins bs r).1.Listed :=
  (listed_addBuiltins bs (fun _ _ h => by cases h) r).addBuiltin _ _ _

end TypeTable

namespace Session

variable {u : CompilationUnit}

/-- What a type name means has a type from the start, unless it is a node of the program. -/
theorem known_of_pathTarget? {g : Head} {id : IrId} (hid : id ∉ u.program.ids)
    (h : Check.pathTarget? (ofUnit u).scope (ofUnit u).types g = some id) :
    (ofUnit u).types.get? id ≠ none := by
  obtain ⟨node, -, h⟩ := Option.bind_eq_some_iff.1 h
  split at h
  · rename_i hb
    cases h
    exact TypeTable.listed_withBuiltins _ _ node _ hb
  · exact absurd (mem_ids_of_node? h) hid

/-- Nothing is reported of the fields of an item if they mean no struct items but declared ones. -/
theorem lateFields_eq_nil_iff {s : Session} {declared : List IrId} {i : Item} :
    i.lateFields s declared = [] ↔ ∀ g ∈ i.signatureParts.filterMap Part.typePath?,
      ∀ id ∈ Check.pathTarget? s.scope s.types g, id ∈ s.program.structs → id ∈ declared := by
  rw [Item.lateFields, List.flatMap_eq_nil_iff]
  constructor
  · intro h g hg id hid hstruct
    obtain ⟨a, ha, hpath⟩ := List.mem_filterMap.1 hg
    have hnone := h a ha
    match a, hpath with
    | .ascription (.path h name), rfl =>
      simpa [Part.unresolved, Option.mem_def.1 hid, hstruct] using hnone
  · intro h a ha
    match a with
    | .ascription (.path g name) =>
      have hg : g ∈ i.signatureParts.filterMap Part.typePath? :=
        List.mem_filterMap.2 ⟨_, ha, rfl⟩
      have hall := h g hg
      cases htarget : Check.pathTarget? s.scope s.types g with
      | none => simp [Part.unresolved, htarget]
      | some id =>
        have hdecl := hall id (Option.mem_def.2 htarget)
        simp only [Part.unresolved, htarget, Option.any_some]
        simpa using hdecl
    | .ascription (.unit _) | .ascription (.array ..) | .expr _ | .path _ | .field _ | .bind _ _
    | .callee _ => rfl

theorem forall_lateFields_eq_nil_iff {s : Session} : ∀ (items : List Item) (declared : List IrId),
    s.lateFields declared items = [] ↔ ∀ pre i post, items = pre ++ i :: post →
      i.lateFields s (declared ++ pre.map (·.head.id.ir)) = []
  | [], _ => by simp [Session.lateFields]
  | i :: rest, declared => by
    rw [Session.lateFields, List.append_eq_nil_iff, forall_lateFields_eq_nil_iff rest]
    constructor
    · rintro ⟨hi, hrest⟩ pre j post he
      cases pre with
      | nil =>
        cases he
        rw [List.map_nil, List.append_nil]
        exact hi
      | cons k pre =>
        cases he
        have hj := hrest pre j post rfl
        rwa [List.append_assoc] at hj
    · intro h
      refine ⟨by simpa using h [] i rest rfl, fun pre j post he => ?_⟩
      have hj := h (i :: pre) j post (by rw [he]; rfl)
      rwa [List.append_assoc]

/-- Checking starts with the signatures of all struct items. They are recorded whatever they say;
reported are the fields that mean struct items which do not stand earlier, in whatever order the
struct items stand and whether or not some of them contain each other. -/
theorem fieldTypes_reported (u : CompilationUnit) (hroom : (ofUnit u).HasRoom)
    (hn : u.program.ids.Nodup) (hb : (ofUnit u).FieldsBound) :
    let structs := u.program.items.filter Item.isStruct
    let signed := (ofUnit u).run fun s => structs.forM (Check.signature s)
    signed.1 = .ok () ∧ signed.2.diagnostics = (ofUnit u).lateFields [] structs ∧
      signed.2.diagnostics <+: (ofUnit u).check.2.diagnostics ∧
      (signed.2.diagnostics = [] ↔ ∀ pre i post, structs = pre ++ i :: post →
        ∀ g ∈ i.signatureParts.filterMap Part.typePath?,
          ∀ id ∈ Check.pathTarget? (ofUnit u).scope (ofUnit u).types g,
            id ∈ u.program.structs → id ∈ pre.map (·.head.id.ir)) := by
  intro structs signed
  have hstart : Check.Declared u.program (ofUnit u).types [] (ofUnit u).types := by
    refine ⟨.refl _, fun id hid => ?_, fun _ _ => rfl⟩
    have hnone : (ofUnit u).types.get? id = none := by
      by_contra hne
      exact fresh_of_get? hroom hne (Program.mem_ids_of_heads (Program.mem_heads_of_structs hid))
    rw [hnone]
    rfl
  obtain ⟨v, hr⟩ := Check.reports_structSignatures (s := ofUnit u) hn hb
    (fun id hid ⟨g, hg⟩ => known_of_pathTarget? hid hg) structs (fun i hi => List.mem_filter.1 hi)
    hstart
  obtain ⟨q, hq, hdiag, -⟩ := hr (ofUnit u).progress rfl
  have hsigned : signed = (.ok (), { ofUnit u with progress := q }) :=
    congrArg (fun r => (r.1, { ofUnit u with progress := r.2 })) hq
  have hreport : signed.2.diagnostics = (ofUnit u).lateFields [] structs := by
    rw [hsigned]
    exact hdiag
  refine ⟨by rw [hsigned], hreport, ?_, ?_⟩
  · rw [hreport]
    exact Check.prefix_program hr (ofUnit u).progress rfl
  · rw [hreport, forall_lateFields_eq_nil_iff]
    simp only [List.nil_append, lateFields_eq_nil_iff]
    rfl

open Samples in
theorem fieldTypes_reported_mentioning : (ofUnit mentioning).HasRoom ∧
    mentioning.program.ids.Nodup ∧ (ofUnit mentioning).FieldsBound ∧
    [⟨.error, .unresolvedType "B", (head 3).locus⟩] <+: (ofUnit mentioning).check.2.diagnostics := by
  have hroom : (ofUnit mentioning).HasRoom := by decide +kernel
  have hn : mentioning.program.ids.Nodup := by decide +kernel
  have hb : (ofUnit mentioning).FieldsBound := by decide +kernel
  obtain ⟨-, hreport, hprefix, -⟩ := fieldTypes_reported mentioning hroom hn hb
  have hlate : (ofUnit mentioning).lateFields [] (mentioning.program.items.filter Item.isStruct) =
      [⟨.error, .unresolvedType "B", (head 3).locus⟩] := by rfl
  rw [hreport, hlate] at hprefix
  exact ⟨hroom, hn, hb, hprefix⟩

end Session

end MiddleEnd
