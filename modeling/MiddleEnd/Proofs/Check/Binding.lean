/-
  Units whose names, callees and type paths are bound to what they can mean: a name to a variable
  or to what an item declares, a callee to a function item, a type path to a struct item or a
  primitive type. For such a unit with distinct identities every part of the program is placed
  (`Session.Bound.placed`); all types known before the first check are complete (`Session.known`).
-/
import Mathlib.Data.List.Flatten
import MiddleEnd.Proofs.Check.Evolution
import MiddleEnd.Proofs.Tables.Fresh

namespace MiddleEnd

namespace Part

/-- The identities of the variable that a part introduces. -/
def lets : Part → List IrId
  | .bind h pattern => [h.id.ir, pattern.id.ir]
  | _ => []

def name? : Part → Option Expr
  | .expr (.identifier h name) => some (.identifier h name)
  | _ => none

def call? : Part → Option (Head × Expr)
  | .expr (.call h f _) => some (h, f)
  | _ => none

def structPath? : Part → Option StructPath
  | .expr (.struct _ q _) => some q
  | _ => none

def typePath? : Part → Option Head
  | .ascription (.path h _) => some h
  | _ => none

end Part

namespace Program

/-- The identities of all variables. -/
def lets (p : Program) : List IrId := p.parts.flatMap Part.lets

/-- The identities of function items. -/
def functions (p : Program) : List IrId :=
  p.items.filterMap fun i =>
    match i.kind with
    | .function _ => some i.head.id.ir
    | _ => none

/-- The identities of struct items. -/
def structs (p : Program) : List IrId := (p.items.filter Item.isStruct).map (·.head.id.ir)

/-- The identities of all items. -/
def heads (p : Program) : List IrId := p.items.map (·.head.id.ir)

/-- Nodes whose types are known from the start: what items declare, and the primitive types, which
are no nodes of the program. -/
def IsFirm (p : Program) (id : IrId) : Prop := id ∈ p.firm ∨ id ∉ p.ids

end Program

/-- All names of the program are bound to what they can mean, if they are bound at all. -/
structure Session.Bound (s : Session) : Prop where
  names : ∀ e ∈ s.program.parts.filterMap Part.name?,
    ∀ id ∈ (Check.declaration s.scope e).toOption, id ∈ s.program.lets ∨ id ∈ s.program.firm
  callees : ∀ c ∈ s.program.parts.filterMap Part.call?,
    ∀ decl ∈ s.scope.bindings.name? c.2.surface,
      ∀ id ∈ s.scope.registry.node? ⟨c.1.id.crate, decl⟩, id ∈ s.program.functions
  structPaths : ∀ q ∈ s.program.parts.filterMap Part.structPath?,
    ∀ decl ∈ s.scope.bindings.type? q.id.surface,
      ∀ id ∈ s.scope.registry.node? ⟨q.id.crate, decl⟩, id ∈ s.program.structs
  /-- Only the primitive types are no nodes of the program. -/
  typePaths : ∀ h ∈ s.program.parts.filterMap Part.typePath?,
    ∀ id ∈ Check.pathTarget? s.scope s.types h, id ∈ s.program.structs ∨ id ∉ s.program.ids

instance (s : Session) : Decidable s.Bound :=
  decidable_of_iff (_ ∧ _ ∧ _ ∧ _)
    ⟨fun h => ⟨h.1, h.2.1, h.2.2.1, h.2.2.2⟩, fun h => ⟨h.names, h.callees, h.structPaths,
      h.typePaths⟩⟩

/-! ## Roles of nodes -/

namespace Program

variable {p : Program} {id : IrId}

theorem head_mem_firm {i : Item} (h : i ∈ p.items) : i.head.id.ir ∈ p.firm :=
  List.mem_flatMap.2 ⟨i, h, i.head_mem_firm⟩

theorem mem_firm_of_functions (h : id ∈ p.functions) : id ∈ p.firm := by
  obtain ⟨i, hi, he⟩ := List.mem_filterMap.1 h
  have hid : i.head.id.ir = id := by
    cases hk : i.kind with
    | function d =>
      rw [hk] at he
      exact Option.some.inj he
    | struct d => rw [hk] at he; cases he
    | constant d => rw [hk] at he; cases he
    | static d => rw [hk] at he; cases he
  rw [← hid]
  exact head_mem_firm hi

theorem mem_firm_of_structs (h : id ∈ p.structs) : id ∈ p.firm := by
  obtain ⟨i, hi, rfl⟩ := List.mem_map.1 h
  exact head_mem_firm (List.mem_filter.1 hi).1

theorem mem_heads_of_structs (h : id ∈ p.structs) : id ∈ p.heads := by
  obtain ⟨i, hi, rfl⟩ := List.mem_map.1 h
  exact List.mem_map_of_mem (List.mem_filter.1 hi).1

theorem mem_ids_of_heads (h : id ∈ p.heads) : id ∈ p.ids := by
  obtain ⟨i, hi, rfl⟩ := List.mem_map.1 h
  exact mem_ids_of_item hi (List.mem_cons_self ..)

/-- No item holds the identity of an item but its own. -/
theorem eq_head (hn : p.ids.Nodup) {i : Item} (hi : i ∈ p.items) (hid : id ∈ p.heads)
    (hm : id ∈ i.ids) : id = i.head.id.ir := by
  obtain ⟨j, hj, rfl⟩ := List.mem_map.1 hid
  rw [item_eq_of_head hn hi hj hm]

theorem mem_irs_of_lets {a : Part} (h : id ∈ a.lets) : (∃ g q, a = .bind g q) ∧ id ∈ a.irs := by
  cases a with
  | bind g q => exact ⟨⟨g, q, rfl⟩, h⟩
  | _ => cases h

theorem mem_ids_of_irs {a : Part} (ha : a ∈ p.parts) (h : id ∈ a.irs) : id ∈ p.ids :=
  p.ids_perm.mem_iff.2 (List.mem_append_right _ (List.mem_flatMap.2 ⟨a, ha, h⟩))

/-- No variable is firm. -/
theorem not_mem_lets_of_isFirm (hn : p.ids.Nodup) (h : p.IsFirm id) : id ∉ p.lets := by
  intro hm
  obtain ⟨a, ha, hl⟩ := List.mem_flatMap.1 hm
  obtain ⟨_, hid⟩ := mem_irs_of_lets hl
  rcases h with hf | hout
  · exact p.not_mem_firm hn ha hid hf
  · exact hout (mem_ids_of_irs ha hid)

/-- Parts belong to nodes that are not firm, and only those of variables to variables. -/
theorem not_isFirm_of_irs (hn : p.ids.Nodup) {a : Part} (ha : a ∈ p.parts) (h : id ∈ a.irs) :
    ¬ p.IsFirm id := by
  rintro (hf | hout)
  · exact p.not_mem_firm hn ha h hf
  · exact hout (mem_ids_of_irs ha h)

theorem not_mem_lets_of_irs (hn : p.ids.Nodup) {a : Part} (ha : a ∈ p.parts)
    (hb : ∀ g q, a ≠ .bind g q) (h : id ∈ a.irs) : id ∉ p.lets := by
  intro hm
  obtain ⟨c, hc, hl⟩ := List.mem_flatMap.1 hm
  obtain ⟨⟨g, q, rfl⟩, hid⟩ := mem_irs_of_lets hl
  exact p.not_mem_irs hn ha hc (hb g q) h hid

end Program

/-! ## Sessions -/

namespace Session

variable {u : CompilationUnit}

theorem Bound.placed {s : Session} (hb : s.Bound) (hn : s.program.ids.Nodup) {parts : List Part}
    (hparts : parts.Sublist s.program.parts) :
    Check.Placed s.scope s.types (· ∈ s.program.lets) s.program.IsFirm (Part.irsAll parts)
      parts where
  nodup := by
    have hall := (List.nodup_append.1 (s.program.ids_perm.nodup_iff.1 hn)).2.1
    exact hall.sublist (hparts.flatMap Part.irs)
  loose id hid := by
    obtain ⟨a, ha, hid⟩ := List.mem_flatMap.1 hid
    exact Program.not_isFirm_of_irs hn (hparts.mem ha) hid
  nodes hp hbind id hid := Program.not_mem_lets_of_irs hn (hparts.mem hp) hbind hid
  names he hd := by
    have hm := hb.names _ (List.mem_filterMap.2 ⟨_, hparts.mem he, rfl⟩) _ (by rw [hd]; rfl)
    exact hm.imp_right .inl
  callees he hname hnode := by
    have hm := hb.callees _ (List.mem_filterMap.2 ⟨_, hparts.mem he, rfl⟩) _ hname _ hnode
    exact .inl (Program.mem_firm_of_functions hm)
  paths he hpath := by
    have hm := hb.typePaths _ (List.mem_filterMap.2 ⟨_, hparts.mem he, rfl⟩) _ hpath
    exact hm.imp_left Program.mem_firm_of_structs
  structs he htype hnode := by
    have hm := hb.structPaths _ (List.mem_filterMap.2 ⟨_, hparts.mem he, rfl⟩) _ htype _ hnode
    exact .inl (Program.mem_firm_of_structs hm)

end Session

/-! ## Tables before the first check -/

namespace TypeTable

/-- All types known so far are complete, and no function is being checked. -/
structure Known (t : TypeTable) : Prop where
  builtins : ∀ p ∈ t.builtins, p.2.complete = true
  entries : ∀ {id ty}, t.get? id = some ty → ty.complete = true
  returns : t.returns = []

theorem known_empty : empty.Known := ⟨nofun, nofun, rfl⟩

theorem Known.addBuiltin {t : TypeTable} (h : t.Known) (node : SurfaceId) (name : String) {ty : Ty}
    (hty : ty.complete = true) : (t.addBuiltin node name ty).Known where
  builtins p hp := by
    rcases List.mem_append.1 hp with hp | hp
    · exact h.builtins p hp
    · rw [List.mem_singleton.1 hp]
      exact hty
  entries hg := by
    rw [get?_addBuiltin] at hg
    split at hg
    · cases hg
      exact hty
    · exact h.entries hg
  returns := h.returns

theorem Known.addBuiltins (bs : List Builtin) :
    ∀ {t : TypeTable}, t.Known → ∀ r : Registry, (addBuiltins t r bs).1.Known := by
  induction bs with
  | nil => exact fun h _ => h
  | cons b bs ih =>
    intro t h r
    exact ih (h.addBuiltin b.node b.name (Ty.complete_ofPrimitive r.freshIr.1 b.primitive)) _

theorem known_withBuiltins (bs : List Builtin) (r : Registry) : (withBuiltins bs r).1.Known :=
  (known_empty.addBuiltins bs r).addBuiltin _ Ty.unitName rfl

theorem Known.good {t : TypeTable} (h : t.Known) (F : IrId → Prop) : Check.Good t F t where
  builtinIds := rfl
  builtins hb := by
    obtain ⟨p, hp, rfl⟩ := Option.map_eq_some_iff.1 hb
    exact h.builtins p (List.mem_of_find?_eq_some hp)
  stack ty hty := by
    rw [h.returns] at hty
    exact absurd hty List.not_mem_nil
  entries hg := .inl (h.entries hg)

end TypeTable

/-- Before the first check the types of all primitive types are there, and nothing else. -/
theorem Session.known (u : CompilationUnit) : (ofUnit u).types.Known :=
  TypeTable.known_withBuiltins _ _

end MiddleEnd
