/-
  Tables under other numbers. One table renumbers another if it answers every renumbered question
  with the renumbered answer. Sessions of a unit and of the renumbered unit start with such tables,
  provided that the renumbering keeps identities apart and maps the identities given out in the one
  session to those given out in the other (`Session.renumbers_ofUnit`).
-/
import MiddleEnd.Proofs.Tables.Primitives
import MiddleEnd.Proofs.Ty.Renumber

namespace MiddleEnd

open Std

variable {ρ : Renumbering}

/-- No two identities get one number. -/
structure Renumbering.Injective (ρ : Renumbering) : Prop where
  surface : Function.Injective ρ.surface
  ir : Function.Injective ρ.ir

/-! ## Registries -/

def Site.renumber (ρ : Renumbering) (x : Site) : Site := ⟨x.crate, ρ.surface x.surface⟩

theorem Site.renumber_injective (hρ : ρ.Injective) : Function.Injective (renumber ρ) := by
  rintro ⟨c, n⟩ ⟨d, m⟩ h
  obtain ⟨hc, hn⟩ := (mk.injEq ..).mp h
  rw [mk.injEq]
  exact ⟨hc, hρ.surface hn⟩

/-- The same nodes and positions under new numbers. -/
structure Registry.Renumbers (ρ : Renumbering) (r r' : Registry) : Prop where
  node? : ∀ x, r'.node? (x.renumber ρ) = (r.node? x).map ρ.ir
  location : ∀ id, r'.location (ρ.ir id) = r.location id

namespace Registry

variable {r r' : Registry}

theorem location_enter (r : Registry) (i : Identity) (l : Location) (id : IrId) :
    (r.enter i l).location id = if id = i.ir then l else r.location id := by
  simp only [location, enter, setLocation, setNode, TreeMap.getElem?_insert,
    Std.compare_eq_iff_eq, eq_comm (a := i.ir)]
  split <;> rfl

theorem renumbers_empty : Renumbers ρ empty empty := ⟨fun _ => rfl, fun _ => rfl⟩

theorem Renumbers.enter (h : Renumbers ρ r r') (hρ : ρ.Injective) (i : Identity) (l : Location) :
    Renumbers ρ (r.enter i l) (r'.enter (i.renumber ρ) l) where
  node? x := by
    have hsite : x.renumber ρ = (i.renumber ρ).site ↔ x = i.site :=
      (Site.renumber_injective hρ).eq_iff (b := i.site)
    rw [node?_enter, node?_enter, h.node?]
    simp only [hsite]
    split <;> rfl
  location id := by
    have hir : ρ.ir id = (i.renumber ρ).ir ↔ id = i.ir := hρ.ir.eq_iff
    rw [location_enter, location_enter, h.location]
    simp only [hir]

theorem Renumbers.enterAll (hρ : ρ.Injective) (ns : List (Identity × Location)) :
    ∀ {r r' : Registry}, Renumbers ρ r r' →
      Renumbers ρ (r.enterAll ns) (r'.enterAll (ns.map fun n => (n.1.renumber ρ, n.2))) := by
  induction ns with
  | nil => exact fun h => h
  | cons n ns ih => exact fun h => ih (h.enter hρ n.1 n.2)

/-- The next `m` surface identities and `n` identities of the checked tree given out correspond. -/
structure Follows (ρ : Renumbering) (m n : Nat) (r r' : Registry) : Prop
    extends Renumbers ρ r r' where
  surface : ∀ k < m, ρ.surface ⟨.ofNat (r.nextSurface + k)⟩ = ⟨.ofNat (r'.nextSurface + k)⟩
  ir : ∀ k < n, ρ.ir ⟨.ofNat (r.nextIr + k)⟩ = ⟨.ofNat (r'.nextIr + k)⟩

namespace Follows

variable {m n : Nat}

theorem freshSurface (h : Follows ρ (m + 1) n r r') :
    r'.freshSurface.1 = ρ.surface r.freshSurface.1 ∧
      Follows ρ m n r.freshSurface.2 r'.freshSurface.2 := by
  refine ⟨(h.surface 0 (Nat.succ_pos m)).symm, ⟨h.node?, h.location⟩, ?_, h.ir⟩
  intro k hk
  have hnext := h.surface (k + 1) (Nat.succ_lt_succ hk)
  rwa [← Nat.add_assoc, ← Nat.add_assoc, Nat.add_right_comm, Nat.add_right_comm _ k] at hnext

theorem freshIr (h : Follows ρ m (n + 1) r r') :
    r'.freshIr.1 = ρ.ir r.freshIr.1 ∧ Follows ρ m n r.freshIr.2 r'.freshIr.2 := by
  refine ⟨(h.ir 0 (Nat.succ_pos n)).symm, ⟨h.node?, h.location⟩, h.surface, ?_⟩
  intro k hk
  have hnext := h.ir (k + 1) (Nat.succ_lt_succ hk)
  rwa [← Nat.add_assoc, ← Nat.add_assoc, Nat.add_right_comm, Nat.add_right_comm _ k] at hnext

end Follows

end Registry

/-! ## Bindings -/

def Builtin.renumber (ρ : Renumbering) (b : Builtin) : Builtin :=
  { b with node := ρ.surface b.node }

/-- The same bindings under new numbers. -/
structure Bindings.Renumbers (ρ : Renumbering) (b b' : Bindings) : Prop where
  name? : ∀ n, b'.name? (ρ.surface n) = (b.name? n).map ρ.surface
  type? : ∀ n, b'.type? (ρ.surface n) = (b.type? n).map ρ.surface
  definition? : ∀ n, b'.definition? (ρ.surface n) = (b.definition? n).map (Definition.renumber ρ)
  builtins : b'.builtins = b.builtins.map (Builtin.renumber ρ)

namespace Bindings

variable {b b' : Bindings}

theorem name?_bindName (b : Bindings) (use decl n : SurfaceId) :
    (b.bindName use decl).name? n = if n = use then some decl else b.name? n := by
  simp only [name?, bindName, TreeMap.getElem?_insert, Std.compare_eq_iff_eq, eq_comm (a := use)]

theorem type?_bindType (b : Bindings) (use decl n : SurfaceId) :
    (b.bindType use decl).type? n = if n = use then some decl else b.type? n := by
  simp only [type?, bindType, TreeMap.getElem?_insert, Std.compare_eq_iff_eq, eq_comm (a := use)]

theorem definition?_define (b : Bindings) (d : Definition) (n : SurfaceId) :
    (b.define d).definition? n = if n = d.node then some d else b.definition? n := by
  simp only [definition?, define, TreeMap.getElem?_insert, Std.compare_eq_iff_eq,
    eq_comm (a := d.node)]

/-- A walk that builds bindings from renumbered parts. -/
theorem renumbers_foldl {α β : Type} {f : Bindings → α → Bindings} {g : Bindings → β → Bindings}
    {φ : α → β}
    (h : ∀ {b b' : Bindings} (a : α), Renumbers ρ b b' → Renumbers ρ (f b a) (g b' (φ a)))
    (l : List α) : ∀ {b b' : Bindings}, Renumbers ρ b b' →
      Renumbers ρ (l.foldl f b) ((l.map φ).foldl g b') := by
  induction l with
  | nil => exact fun hb => hb
  | cons a l ih => exact fun hb => ih (h a hb)

namespace Renumbers

theorem bindName (h : Renumbers ρ b b') (hρ : ρ.Injective) (use decl : SurfaceId) :
    Renumbers ρ (b.bindName use decl) (b'.bindName (ρ.surface use) (ρ.surface decl)) where
  name? n := by
    rw [name?_bindName, name?_bindName, h.name?]
    simp only [hρ.surface.eq_iff]
    split <;> rfl
  type? := h.type?
  definition? := h.definition?
  builtins := h.builtins

theorem bindType (h : Renumbers ρ b b') (hρ : ρ.Injective) (use decl : SurfaceId) :
    Renumbers ρ (b.bindType use decl) (b'.bindType (ρ.surface use) (ρ.surface decl)) where
  name? := h.name?
  type? n := by
    rw [type?_bindType, type?_bindType, h.type?]
    simp only [hρ.surface.eq_iff]
    split <;> rfl
  definition? := h.definition?
  builtins := h.builtins

theorem define (h : Renumbers ρ b b') (hρ : ρ.Injective) (d : Definition) :
    Renumbers ρ (b.define d) (b'.define (d.renumber ρ)) where
  name? := h.name?
  type? := h.type?
  definition? n := by
    rw [definition?_define, definition?_define, h.definition?]
    simp only [Definition.renumber, hρ.surface.eq_iff]
    split <;> rfl
  builtins := h.builtins

theorem builtin? (h : Renumbers ρ b b') (name : String) :
    b'.builtin? name = (b.builtin? name).map ρ.surface := by
  unfold Bindings.builtin?
  rw [h.builtins, List.find?_map, Option.map_map, Option.map_map]
  rfl

theorem addUnit (h : Renumbers ρ b b') (hρ : ρ.Injective) (u : CompilationUnit) :
    Renumbers ρ (b.addUnit u) (b'.addUnit (u.renumber ρ)) := by
  refine renumbers_foldl (fun d hb => hb.define hρ d) _ ?_
  refine renumbers_foldl (fun n hb => hb.bindType hρ n.use n.decl) _ ?_
  exact renumbers_foldl (fun n hb => hb.bindName hρ n.use n.decl) _ h

theorem addItems (h : Renumbers ρ b b') (hρ : ρ.Injective) (items : List Item) :
    Renumbers ρ (b.addItems items) (b'.addItems (items.map (Item.renumber ρ))) := by
  refine renumbers_foldl (fun i hb => ?_) items h
  have hnone := congrArg Option.isNone (hb.definition? i.head.id.surface)
  rw [Option.isNone_map] at hnone
  simp only [Item.renumber, Head.renumber_surface, hnone]
  split
  · exact hb.define hρ ⟨_, _⟩
  · exact hb

end Renumbers

end Bindings

theorem Program.struct?_translate (ν : String → String) (p : Program) (name : String) :
    (p.translate ρ ν).struct? name = (p.struct? name).map ρ.surface := by
  unfold struct? translate
  rw [← List.map_reverse, List.findSome?_map, List.map_findSome?]
  congr 1
  funext i
  obtain ⟨h, k⟩ := i
  cases k with
  | struct d =>
    simp only [Function.comp_apply, Item.translate, ItemKind.translate, StructDecl.renumber]
    split <;> rfl
  | _ => rfl

theorem Program.struct?_renumber (p : Program) (name : String) :
    (p.renumber ρ).struct? name = (p.struct? name).map ρ.surface := by
  rw [← p.translate_id, struct?_translate]

namespace Bindings

variable {b b' : Bindings}

theorem Renumbers.implied? (h : Renumbers ρ b b') (p : Program) (name : String) :
    b'.implied? (p.renumber ρ) name = (b.implied? p name).map ρ.surface := by
  unfold Bindings.implied?
  rw [h.builtin?, Program.struct?_renumber]
  cases b.builtin? name <;> rfl

theorem Renumbers.addTypePaths (h : Renumbers ρ b b') (hρ : ρ.Injective) (p : Program) :
    Renumbers ρ (b.addTypePaths p) (b'.addTypePaths (p.renumber ρ)) := by
  unfold Bindings.addTypePaths
  rw [Program.typePaths_renumber]
  refine renumbers_foldl (fun n hb => ?_) p.typePaths h
  dsimp only
  rw [hb.type?, Option.isSome_map, hb.implied?]
  split
  · exact hb
  · cases Bindings.implied? _ p n.2 with
    | none => exact hb
    | some decl => exact hb.bindType hρ n.1 decl

theorem Renumbers.ofUnit (h : Renumbers ρ b b') (hρ : ρ.Injective) (u : CompilationUnit) :
    Renumbers ρ (b.ofUnit u) (b'.ofUnit (u.renumber ρ)) :=
  ((h.addUnit hρ u).addItems hρ u.program.items).addTypePaths hρ u.program

/-- Primitive types are declared by corresponding identities. -/
theorem declare_renumbers {m n : Nat} (ps : List Primitive) : ∀ {k : Nat} {r r' : Registry},
    k = m + ps.length → r.Follows ρ k n r' →
    (declare r' ps).1 = (declare r ps).1.map (Builtin.renumber ρ) ∧
      (declare r ps).2.Follows ρ m n (declare r' ps).2 := by
  induction ps with
  | nil =>
    rintro k r r' rfl h
    exact ⟨rfl, h⟩
  | cons p ps ih =>
    rintro k r r' rfl h
    obtain ⟨hnode, hnext⟩ := h.freshSurface
    obtain ⟨hrest, hend⟩ := ih rfl hnext
    refine ⟨?_, hend⟩
    simp only [declare, List.map_cons, hnode, hrest]
    rfl

end Bindings

/-! ## Types -/

/-- The same types under new numbers. -/
structure TypeTable.Renumbers (ρ : Renumbering) (t t' : TypeTable) : Prop where
  builtins : t'.builtins = t.builtins.map fun x => (x.1, x.2.renumber ρ)
  builtinId? : ∀ n, t'.builtinId? (ρ.surface n) = (t.builtinId? n).map ρ.ir
  get? : ∀ id, t'.get? (ρ.ir id) = (t.get? id).map (Ty.renumber ρ)
  returns : t'.returns = t.returns.map (Ty.renumber ρ)

namespace TypeTable

variable {t t' : TypeTable}

theorem renumbers_empty : Renumbers ρ empty empty :=
  ⟨rfl, fun _ => rfl, fun _ => rfl, rfl⟩

namespace Renumbers

theorem addBuiltin (h : Renumbers ρ t t') (hρ : ρ.Injective) (node : SurfaceId) (name : String)
    (ty : Ty) : Renumbers ρ (t.addBuiltin node name ty)
      (t'.addBuiltin (ρ.surface node) name (ty.renumber ρ)) where
  builtins := by
    unfold TypeTable.addBuiltin
    rw [h.builtins, List.map_append]
    rfl
  builtinId? n := by
    rw [builtinId?_addBuiltin, builtinId?_addBuiltin, h.builtinId?, Ty.ref_renumber]
    simp only [hρ.surface.eq_iff]
    split <;> rfl
  get? id := by
    rw [get?_addBuiltin, get?_addBuiltin, h.get?, Ty.ref_renumber]
    simp only [hρ.ir.eq_iff]
    split <;> rfl
  returns := h.returns

end Renumbers

/-- Primitive types are recorded at corresponding identities. -/
theorem addBuiltins_renumbers (hρ : ρ.Injective) {m n : Nat} (bs : List Builtin) :
    ∀ {k : Nat} {t t' : TypeTable} {r r' : Registry}, k = n + bs.length →
    t.Renumbers ρ t' → r.Follows ρ m k r' →
    (addBuiltins t r bs).1.Renumbers ρ (addBuiltins t' r' (bs.map (Builtin.renumber ρ))).1 ∧
      (addBuiltins t r bs).2.Follows ρ m n
        (addBuiltins t' r' (bs.map (Builtin.renumber ρ))).2 := by
  induction bs with
  | nil =>
    rintro k t t' r r' rfl ht h
    exact ⟨ht, h⟩
  | cons b bs ih =>
    rintro k t t' r r' rfl ht h
    obtain ⟨hid, hnext⟩ := h.freshIr
    have hadd := ht.addBuiltin hρ b.node b.name (.ofPrimitive r.freshIr.1 b.primitive)
    rw [Ty.renumber_ofPrimitive, ← hid] at hadd
    exact ih rfl hadd hnext

theorem withBuiltins_renumbers (hρ : ρ.Injective) {bs : List Builtin} {r r' : Registry}
    (h : r.Follows ρ 1 (1 + bs.length) r') :
    (withBuiltins bs r).1.Renumbers ρ (withBuiltins (bs.map (Builtin.renumber ρ)) r').1 ∧
      (withBuiltins bs r).2.Renumbers ρ (withBuiltins (bs.map (Builtin.renumber ρ)) r').2 := by
  obtain ⟨hbuiltins, hrest⟩ := addBuiltins_renumbers hρ bs rfl renumbers_empty h
  obtain ⟨hnode, hsurface⟩ := hrest.freshSurface
  obtain ⟨hid, hir⟩ := hsurface.freshIr
  have hunit := hbuiltins.addBuiltin hρ (addBuiltins .empty r bs).2.freshSurface.1 Ty.unitName
    (.unit (addBuiltins .empty r bs).2.freshSurface.2.freshIr.1)
  rw [← hnode, Ty.renumber, ← hid] at hunit
  exact ⟨hunit, hir.toRenumbers⟩

end TypeTable

/-! ## Sessions -/

/-- The same tables under new numbers. -/
structure Scope.Renumbers (ρ : Renumbering) (s s' : Scope) : Prop where
  registry : s.registry.Renumbers ρ s'.registry
  bindings : s.bindings.Renumbers ρ s'.bindings

/-- The same progress under new numbers, whatever was logged. -/
structure Progress.Renumbers (ρ : Renumbering) (p p' : Progress) : Prop where
  types : p.types.Renumbers ρ p'.types
  diagnostics : p'.diagnostics = p.diagnostics.map (Diagnostic.renumber ρ)

/-- The same session under new numbers. -/
structure Session.Renumbers (ρ : Renumbering) (s s' : Session) : Prop where
  program : s'.program = s.program.renumber ρ
  scope : s.scope.Renumbers ρ s'.scope
  progress : s.progress.Renumbers ρ s'.progress

namespace Session

variable {u : CompilationUnit}

theorem entered_renumbers (hρ : ρ.Injective) :
    (entered u).Renumbers ρ (entered (u.renumber ρ)) := by
  show Registry.Renumbers ρ _ (Registry.empty.enterAll (u.program.renumber ρ).nodes)
  rw [Program.nodes_renumber]
  exact Registry.renumbers_empty.enterAll hρ u.program.nodes

/-- The session of a unit, with the nodes in the registry in place of its own. -/
def ofRegistry (r : Registry) (u : CompilationUnit) : Session :=
  let (bindings, registry) := Bindings.withBuiltins r
  let bindings := bindings.ofUnit u
  let (types, registry) := TypeTable.withBuiltins bindings.builtins registry
  { program := u.program
    scope := ⟨registry, bindings⟩
    progress := ⟨types, [], bindings.events ++ types.events ++
      [.sessionLoaded u.program.items.length u.names.length]⟩ }

theorem ofRegistry_builtins (r : Registry) (u : CompilationUnit) :
    (ofRegistry r u).scope.bindings.builtins = (Bindings.declare r Primitive.all).1 :=
  Bindings.builtins_ofUnit _ u

theorem length_declare (r : Registry) : (Bindings.declare r Primitive.all).1.length = 13 := by
  rw [← List.length_map (f := (·.primitive)), Bindings.declare_primitives]
  rfl

theorem length_builtins (u : CompilationUnit) : (bindings u).builtins.length = 13 := by
  rw [bindings_builtins]
  exact length_declare _

/-- Sessions start alike if the 13 primitive types and unit get corresponding identities. -/
theorem renumbers_ofRegistry (hρ : ρ.Injective) {r r' : Registry} (h : r.Follows ρ 14 14 r') :
    (ofRegistry r u).Renumbers ρ (ofRegistry r' (u.renumber ρ)) := by
  obtain ⟨hbuiltins, hdeclared⟩ := Bindings.declare_renumbers (m := 1) Primitive.all rfl h
  have hbindings : (ofRegistry r u).scope.bindings.Renumbers ρ
      (ofRegistry r' (u.renumber ρ)).scope.bindings := by
    refine Bindings.Renumbers.ofUnit ?_ hρ u
    exact ⟨fun _ => rfl, fun _ => rfl, fun _ => rfl, hbuiltins⟩
  have hstart : (Bindings.declare r Primitive.all).2.Follows ρ 1
      (1 + (ofRegistry r u).scope.bindings.builtins.length)
      (Bindings.declare r' Primitive.all).2 := by
    rw [ofRegistry_builtins, length_declare]
    exact hdeclared
  obtain ⟨htypes, hregistry⟩ := TypeTable.withBuiltins_renumbers hρ hstart
  rw [← hbindings.builtins] at htypes hregistry
  exact ⟨rfl, ⟨hregistry, hbindings⟩, ⟨htypes, rfl⟩⟩

theorem renumbers_ofUnit (hρ : ρ.Injective)
    (h : (entered u).Follows ρ 14 14 (entered (u.renumber ρ))) :
    (ofUnit u).Renumbers ρ (ofUnit (u.renumber ρ)) :=
  renumbers_ofRegistry hρ h

end Session

end MiddleEnd
