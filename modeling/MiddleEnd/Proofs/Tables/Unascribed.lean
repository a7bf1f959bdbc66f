/-
  The tables of a unit without some of its annotations. Their nodes are missing, so that primitive
  types may get other numbers. What the unit says about type names has to follow these
  (`CompilationUnit.spare`), and then names mean what they meant before (`Session.moved`).

  The session without the annotations has the same tables as one where all else keeps its numbers
  (`Session.Bare`), up to a renumbering.
-/
import MiddleEnd.Proofs.Syntax.Unascribed
import MiddleEnd.Proofs.Tables.Numbering
import MiddleEnd.Proofs.Tables.Reordered

namespace MiddleEnd

/-! ## Counters -/

namespace TypeTable

end TypeTable

namespace Session

end Session

/-! ## Primitive types -/

theorem TypeTable.builtinId?_addBuiltins {n : SurfaceId} {id : IrId} (bs : List Builtin) :
    ∀ {t : TypeTable} {r : Registry}, (addBuiltins t r bs).1.builtinId? n = some id →
      t.builtinId? n = some id ∨ ∃ b ∈ bs, b.node = n := by
  induction bs with
  | nil => exact fun h => .inl h
  | cons b bs ih =>
    intro t r h
    rcases ih h with h | ⟨c, hc, he⟩
    · rw [builtinId?_addBuiltin] at h
      split at h
      · exact .inr ⟨b, List.mem_cons_self .., Eq.symm (by assumption)⟩
      · exact .inl h
    · exact .inr ⟨c, List.mem_cons_of_mem _ hc, he⟩

/-! ## Moving declarations -/

/-- Where the numbers from `n` on are those from `n'` on now, primitive types and unit, which have
the first 14 of them, are found there. -/
def SurfaceId.follow (n n' : Nat) (d : SurfaceId) : SurfaceId :=
  if n ≤ d.val.toNat ∧ d.val.toNat < n + 14 then ⟨.ofNat (n' + (d.val.toNat - n))⟩ else d

namespace SurfaceId

variable {n n' k : Nat} {d : SurfaceId}

theorem follow_of_lt (h : d.val.toNat < n) : d.follow n n' = d :=
  if_neg fun hd => Nat.not_lt.2 hd.1 h

theorem follow_ofNat (hroom : n + 14 ≤ 2 ^ 32) (hk : k < 14) :
    follow n n' ⟨.ofNat (n + k)⟩ = ⟨.ofNat (n' + k)⟩ := by
  have hval := toNat_ofNat_of_room hroom hk
  unfold follow
  dsimp only
  rw [hval, if_pos (by omega), Nat.add_sub_cancel_left]

/-- A number that moves is one of the 14. -/
theorem eq_ofNat (hd : n ≤ d.val.toNat) : d = ⟨.ofNat (n + (d.val.toNat - n))⟩ := by
  rw [Nat.add_sub_cancel' hd, UInt32.ofNat_toNat]

end SurfaceId

namespace Bindings

/-- The same bindings, with type names at the uses in `K` moved by `φ`. -/
structure Moved (K : SurfaceId → Prop) (φ : SurfaceId → SurfaceId) (b b' : Bindings) : Prop where
  name? : ∀ n, b'.name? n = b.name? n
  type? : ∀ n, K n → b'.type? n = (b.type? n).map φ
  definition? : ∀ n, b'.definition? n = b.definition? n
  builtins : b'.builtins = b.builtins.map fun x => { x with node := φ x.node }

variable {K : SurfaceId → Prop} {φ : SurfaceId → SurfaceId} {b b' : Bindings}

/-- Primitive types move if their numbers do. -/
theorem declare_moved (ps : List Primitive) : ∀ r r' : Registry,
    (∀ k < ps.length, φ ⟨.ofNat (r.nextSurface + k)⟩ = ⟨.ofNat (r'.nextSurface + k)⟩) →
    (declare r' ps).1 = (declare r ps).1.map fun x => { x with node := φ x.node } := by
  induction ps with
  | nil => exact fun _ _ _ => rfl
  | cons p ps ih =>
    intro r r' h
    have hrest := ih r.freshSurface.2 r'.freshSurface.2 fun k hk => by
      have hnext := h (k + 1) (Nat.succ_lt_succ hk)
      rwa [← Nat.add_assoc, ← Nat.add_assoc, Nat.add_right_comm, Nat.add_right_comm _ k] at hnext
    have hnode : r'.freshSurface.1 = φ r.freshSurface.1 := (h 0 (Nat.succ_pos _)).symm
    simp only [declare, List.map_cons, hnode, hrest]

namespace Moved

theorem bindName (h : Moved K φ b b') (use decl : SurfaceId) :
    Moved K φ (b.bindName use decl) (b'.bindName use decl) where
  name? n := by rw [name?_bindName, name?_bindName, h.name?]
  type? := h.type?
  definition? := h.definition?
  builtins := h.builtins

theorem bindType (h : Moved K φ b b') (use decl : SurfaceId) :
    Moved K φ (b.bindType use decl) (b'.bindType use (φ decl)) where
  name? := h.name?
  type? n hn := by
    rw [type?_bindType, type?_bindType, h.type? n hn]
    split <;> rfl
  definition? := h.definition?
  builtins := h.builtins

theorem define (h : Moved K φ b b') (d : Definition) :
    Moved K φ (b.define d) (b'.define d) where
  name? := h.name?
  type? := h.type?
  definition? n := by rw [definition?_define, definition?_define, h.definition?]
  builtins := h.builtins

theorem addItem (h : Moved K φ b b') (i : Item) : Moved K φ (b.addItem i) (b'.addItem i) where
  name? n := by simp only [name?_addItem, h.name?]
  type? n hn := by simp only [type?_addItem, h.type? n hn]
  definition? n := by simp only [definition?_addItem, h.definition?]
  builtins := by simp only [builtins_addItem, h.builtins]

theorem implied? (h : Moved K φ b b') {p p' : Program} {name : String}
    (hstruct : p'.struct? name = (p.struct? name).map φ) :
    b'.implied? p' name = (b.implied? p name).map φ := by
  have hbuiltin : b'.builtin? name = (b.builtin? name).map φ := by
    unfold Bindings.builtin?
    rw [h.builtins, List.find?_map, Option.map_map, Option.map_map]
    rfl
  unfold Bindings.implied?
  rw [hbuiltin, hstruct]
  cases b.builtin? name <;> rfl

theorem addTypePath (h : Moved K φ b b') {p p' : Program}
    (hstruct : ∀ name, p'.struct? name = (p.struct? name).map φ) (n : SurfaceId × String) :
    Moved K φ (b.addTypePath p n) (b'.addTypePath p' n) where
  name? m := by simp only [name?_addTypePath, h.name?]
  type? m hm := by
    rw [type?_addTypePath, type?_addTypePath, h.type? m hm, h.implied? (hstruct n.2)]
    split
    · cases b.type? m <;> rfl
    · rfl
  definition? m := by simp only [definition?_addTypePath, h.definition?]
  builtins := by simp only [builtins_addTypePath, h.builtins]

/-- A name elsewhere may get a meaning first. -/
theorem skip (h : Moved K φ b b') (p : Program) {n : SurfaceId × String} (hn : ¬ K n.1) :
    Moved K φ (b.addTypePath p n) b' where
  name? m := by rw [name?_addTypePath, h.name?]
  type? m hm := by
    have hne : m ≠ n.1 := fun he => hn (he ▸ hm)
    rw [type?_addTypePath, if_neg hne, h.type? m hm]
  definition? m := by rw [definition?_addTypePath, h.definition?]
  builtins := by rw [builtins_addTypePath, h.builtins]

theorem skipAll (p : Program) (l : List (SurfaceId × String)) : ∀ {b : Bindings},
    Moved K φ b b' → (∀ n ∈ l, ¬ K n.1) → Moved K φ (l.foldl (Bindings.addTypePath p) b) b' := by
  induction l with
  | nil => exact fun h _ => h
  | cons n l ih =>
    intro b h hl
    obtain ⟨hn, hl⟩ := List.forall_mem_cons.1 hl
    exact ih (h.skip p hn) hl

theorem of_alike (h : Moved K φ b b') {c : Bindings} (hc : c.Alike b) : Moved K φ c b' where
  name? n := by rw [h.name?, hc.name?]
  type? n hn := by rw [h.type? n hn, hc.type?]
  definition? n := by rw [h.definition?, hc.definition?]
  builtins := by rw [h.builtins, hc.builtins]

end Moved

end Bindings

/-! ## Units -/

theorem Registry.node?_enterAll_of_ne {site : Site} (ns : List (Identity × Location)) :
    ∀ r : Registry, (∀ n ∈ ns, n.1.site ≠ site) → (r.enterAll ns).node? site = r.node? site := by
  induction ns with
  | nil => exact fun r _ => rfl
  | cons n ns ih =>
    intro r h
    obtain ⟨hn, hns⟩ := List.forall_mem_cons.1 h
    rw [enterAll_cons, ih _ hns, node?_enter, if_neg hn.symm]

namespace Program

variable (X : IrId → Bool) (p : Program)

theorem struct?_unascribe (name : String) : (p.unascribe X).struct? name = p.struct? name := by
  unfold struct? unascribe
  rw [← List.map_reverse, List.findSome?_map]
  congr 1
  funext i
  obtain ⟨h, k⟩ := i
  cases k <;> rfl

variable {X p}

/-- A struct item has its number from a node. -/
theorem mem_surfaces_of_struct? {name : String} {n : SurfaceId} (h : p.struct? name = some n) :
    n ∈ p.surfaces := by
  obtain ⟨i, hi, hn⟩ := List.exists_of_findSome?_eq_some h
  have hi := List.mem_reverse.1 hi
  split at hn
  · split at hn
    · cases hn
      exact mem_surfaces_of_visits (List.mem_flatMap.2 ⟨i, hi, List.mem_cons_self ..⟩)
    · cases hn
  · cases hn

theorem surfaces_unascribe (p : Program) : p.surfaces.Perm
    ((p.unascribe X).surfaces ++ (p.droppedNodes X).map (·.1.surface)) := by
  have h := (p.nodes_unascribe X).map (·.1.surface)
  rwa [List.map_append] at h

theorem mem_surfaces_of_unascribe {n : SurfaceId} (h : n ∈ (p.unascribe X).surfaces) :
    n ∈ p.surfaces :=
  p.surfaces_unascribe.mem_iff.2 (List.mem_append_left _ h)

theorem not_mem_droppedIds (hn : p.ids.Nodup) {id : IrId} (h : id ∈ (p.unascribe X).ids) :
    id ∉ p.droppedIds X := fun hd =>
  (List.nodup_append.1 ((p.ids_unascribe X).nodup_iff.1 hn)).2.2 id h id hd rfl

theorem mem_droppedIds {n : Identity × Location} (h : n ∈ p.droppedNodes X) :
    n.1.ir ∈ p.droppedIds X := by
  obtain ⟨v, hv, hn⟩ := List.mem_filterMap.1 h
  obtain ⟨a, ha, hv⟩ := List.mem_flatMap.1 hv
  refine List.mem_flatMap.2 ⟨a, ha, List.mem_filterMap.2 ⟨v, hv, ?_⟩⟩
  cases v with
  | node i l =>
    cases hn
    rfl
  | typePath => cases hn

/-- The uses of type names in dropped annotations. -/
theorem typePaths_dropped (hs : p.surfaces.Nodup) {n : SurfaceId × String}
    (h : n ∈ ((p.dropped X).flatMap TypeExpr.visits).filterMap Visit.typePath?) :
    n.1 ∉ (p.unascribe X).surfaces := by
  have hpaired := Visit.Paired.flatMap TypeExpr.paired (p.dropped X)
  have hdropped : n.1 ∈ (p.droppedNodes X).map (·.1.surface) :=
    hpaired.subset (List.mem_map_of_mem h)
  intro hkept
  have hall := List.nodup_append.1 ((p.surfaces_unascribe (X := X)).nodup_iff.1 hs)
  exact hall.2.2 n.1 hkept n.1 hdropped rfl

end Program

namespace CompilationUnit

variable (X : IrId → Bool) (u : CompilationUnit)

/-- The unit without the annotations of `X`. Where it says that a type name means a primitive type,
it gives the number that this type has without them. -/
def spare : CompilationUnit :=
  { u with
    program := u.program.unascribe X
    types := u.types.map fun b =>
      ⟨b.use, b.decl.follow (Session.entered u).nextSurface
        (Session.entered (u.unascribe X)).nextSurface⟩ }

variable {X u}

end CompilationUnit

namespace Session

variable {X : IrId → Bool} {u : CompilationUnit}

/-- The nodes of the dropped annotations are entered last. -/
theorem entered_alike (hn : u.program.ids.Nodup) (hs : u.program.surfaces.Nodup) :
    (entered u).Alike ((entered (u.spare X)).enterAll (u.program.droppedNodes X)) := by
  have h := Registry.alike_enterAll (u.program.nodes_unascribe X)
    (Program.nodes_pairwise hn hs) .empty
  rw [Registry.enterAll, Registry.enterAll, List.foldl_append] at h
  exact h

/-- Where a node is left, the same nodes are found as before. -/
theorem node?_spare (hn : u.program.ids.Nodup) (hs : u.program.surfaces.Nodup) {site : Site}
    (h : site.surface ∈ (u.program.unascribe X).surfaces) :
    (ofUnit (u.spare X)).scope.registry.node? site = (ofUnit u).scope.registry.node? site := by
  rw [node?_ofUnit, node?_ofUnit, ← (entered_alike (X := X) hn hs).node?,
    Registry.node?_enterAll_of_ne]
  rintro n hm rfl
  have hall := List.nodup_append.1 ((u.program.surfaces_unascribe (X := X)).nodup_iff.1 hs)
  exact hall.2.2 _ h _ (List.mem_map_of_mem hm) rfl

/-- Where a node stands that is left, a node is left. -/
theorem mem_surfaces_of_node? {crate : CrateNumber} {d : SurfaceId}
    {id : IrId} (hid : (ofUnit u).scope.registry.node? ⟨crate, d⟩ = some id)
    (hd : id ∉ u.program.droppedIds X) : d ∈ (u.program.unascribe X).surfaces := by
  obtain ⟨n, hn, hsite, rfl⟩ := mem_nodes_of_node? hid
  rcases List.mem_append.1 ((u.program.nodes_unascribe X).mem_iff.1 hn) with hn | hn
  · exact List.mem_map.2 ⟨n, hn, congrArg Site.surface hsite⟩
  · exact absurd (Program.mem_droppedIds hn) hd

/-- What a type name means moves with the numbers of the primitive types. -/
theorem moved (hroom : (ofUnit u).HasRoom) (hs : u.program.surfaces.Nodup) :
    (bindings u).Moved (· ∈ (u.program.unascribe X).surfaces)
      (SurfaceId.follow (entered u).nextSurface (entered (u.unascribe X)).nextSurface)
      (bindings (u.spare X)) := by
  have hstruct : ∀ name, (u.program.unascribe X).struct? name = (u.program.struct? name).map
      (SurfaceId.follow (entered u).nextSurface (entered (u.unascribe X)).nextSurface) := by
    intro name
    rw [u.program.struct?_unascribe X name]
    cases hname : u.program.struct? name with
    | none => rfl
    | some n =>
      rw [Option.map_some, SurfaceId.follow_of_lt]
      exact lt_nextSurface (Program.mem_surfaces_of_struct? hname)
  unfold bindings Bindings.ofUnit
  rw [Bindings.addTypePaths_eq, Bindings.addTypePaths_eq, Bindings.addItems_eq,
    Bindings.addItems_eq]
  have hpaths := foldl_perm Bindings.alike_equivalence (f := Bindings.addTypePath u.program)
    (fun n hb => hb.addTypePath u.program n) Ne.symm
    (fun b _ _ hnm => Bindings.alike_addTypePath_comm u.program b hnm)
    (u.program.typePaths_unascribe X) (Program.typePaths_pairwise hs)
  refine Bindings.Moved.of_alike ?_ (hpaths _ _ (Bindings.alike_equivalence.refl _))
  rw [List.foldl_append]
  refine Bindings.Moved.skipAll _ _ ?_ fun n hm => Program.typePaths_dropped hs hm
  refine List.foldl_rel ?_ fun n _ b b' hb => hb.addTypePath hstruct n
  show Bindings.Moved _ _ _ ((u.program.items.map (Item.unascribe X)).foldl _ _)
  rw [List.foldl_map]
  refine List.foldl_rel ?_ fun i _ b b' hb => hb.addItem i
  refine List.foldl_rel ?_ fun d _ b b' hb => hb.define d
  show Bindings.Moved _ _ _ ((u.types.map _).foldl _ _)
  rw [List.foldl_map]
  refine List.foldl_rel ?_ fun n _ b b' hb => hb.bindType n.use n.decl
  refine List.foldl_rel ?_ fun n _ b b' hb => hb.bindName n.use n.decl
  refine ⟨fun _ => rfl, fun _ _ => rfl, fun _ => rfl, ?_⟩
  refine Bindings.declare_moved Primitive.all _ _ fun k hk => ?_
  exact SurfaceId.follow_ofNat (room_of_hasRoom hroom).1 (Nat.lt_succ_of_lt hk)

/-- Primitive types and unit have the first 14 numbers after the nodes. -/
theorem given_of_builtinId? (hroom : (ofUnit u).HasRoom) {d : SurfaceId} {id : IrId}
    (h : (ofUnit u).types.builtinId? d = some id) :
    ∃ k < 14, d = ⟨.ofNat ((entered u).nextSurface + k)⟩ := by
  have hnext : (declared u).nextSurface = (entered u).nextSurface + 13 :=
    Bindings.nextSurface_declare Primitive.all (entered u)
  rw [ofUnit_types, TypeTable.withBuiltins, TypeTable.builtinId?_addBuiltin] at h
  split at h
  · rename_i hd
    refine ⟨13, by decide, hd.trans ?_⟩
    rw [Registry.freshSurface, TypeTable.nextSurface_addBuiltins, hnext]
  · rcases TypeTable.builtinId?_addBuiltins _ h with h | ⟨b, hb, rfl⟩
    · cases h
    · rw [bindings_builtins] at hb
      have hsroom := (room_of_hasRoom hroom).1
      obtain ⟨hlow, hhigh⟩ := Bindings.declare_node Primitive.all (entered u)
        (show (declared u).nextSurface < 2 ^ 32 by omega) hb
      have hlt : b.node.val.toNat < (declared u).nextSurface := hhigh
      exact ⟨_, by omega, SurfaceId.eq_ofNat hlow⟩

/-! ## Sessions with the numbers of the unit -/

/-- A session that has the tables of the unit without the annotations of `X`, but with the numbers
of the unit. What `ρ` renumbers is given out after the nodes. -/
structure Bare (X : IrId → Bool) (u : CompilationUnit) (ρ : Renumbering) (m : Session) : Prop where
  injective : ρ.Injective
  renumbers : m.Renumbers ρ (ofUnit (u.spare X))
  program : m.program = u.program.unascribe X
  types : m.types = (ofUnit u).types
  builtins : m.scope.bindings.builtins = (ofUnit u).scope.bindings.builtins
  diagnostics : m.diagnostics = []
  surface : ∀ n ∈ (u.program.unascribe X).surfaces, ρ.surface n = n
  ir : ∀ id ∈ (u.program.unascribe X).ids, ρ.ir id = id
  given : ∀ k < 14, ρ.surface ⟨.ofNat ((entered u).nextSurface + k)⟩ =
    ⟨.ofNat ((entered (u.unascribe X)).nextSurface + k)⟩

namespace Bare

variable {ρ : Renumbering} {m : Session}

variable (h : Bare X u ρ m) (hs : u.program.surfaces.Nodup)
  {n d d' : SurfaceId} {id : IrId} {crate : CrateNumber}
include h hs

theorem name? (hroom : (ofUnit u).HasRoom) (hm : n ∈ (u.program.unascribe X).surfaces)
    (hd : (ofUnit u).scope.bindings.name? n = some d) :
    ∃ d', m.scope.bindings.name? n = some d' ∧ ρ.surface d' = d := by
  have hname := h.renumbers.scope.bindings.name? n
  rw [h.surface n hm] at hname
  have hsame : (ofUnit (u.spare X)).scope.bindings.name? n = _ := (moved hroom hs).name? n
  exact Option.map_eq_some_iff.1 (hname.symm.trans (hsame.trans hd))

theorem definition? (hroom : (ofUnit u).HasRoom) {x : Definition}
    (hx : (ofUnit u).scope.bindings.definition? (ρ.surface d) = some x) :
    ∃ x', m.scope.bindings.definition? d = some x' ∧ ρ.surface x'.parent = x.parent := by
  have hdef := h.renumbers.scope.bindings.definition? d
  have hsame : (ofUnit (u.spare X)).scope.bindings.definition? (ρ.surface d) = _ :=
    (moved hroom hs).definition? (ρ.surface d)
  obtain ⟨x', hx', he⟩ := Option.map_eq_some_iff.1 (hdef.symm.trans (hsame.trans hx))
  exact ⟨x', hx', congrArg Definition.parent he⟩

omit hs in
theorem eq_of_surface (hd : d ∈ (u.program.unascribe X).surfaces) (he : ρ.surface d' = d) :
    d' = d :=
  h.injective.surface (he.trans (h.surface d hd).symm)

/-- Where a node is left, both sessions find the same nodes. -/
theorem node? (hn : u.program.ids.Nodup) (hd : d ∈ (u.program.unascribe X).surfaces)
    (crate : CrateNumber) :
    m.scope.registry.node? ⟨crate, d⟩ = (ofUnit u).scope.registry.node? ⟨crate, d⟩ := by
  have hnode := h.renumbers.scope.registry.node? ⟨crate, d⟩
  rw [Site.renumber, h.surface d hd] at hnode
  rw [← node?_spare hn hs (X := X) hd, hnode]
  cases hm : m.scope.registry.node? ⟨crate, d⟩ with
  | none => rfl
  | some id =>
    rw [hm] at hnode
    have hid := h.ir _ (mem_ids_of_node? (u := u.spare X) hnode)
    rw [Option.map_some, h.injective.ir hid]

/-- What a type name means has the same number in both sessions, if it is a node that is left or
the declaration of a primitive type. -/
theorem type? (hroom : (ofUnit u).HasRoom) (hm : n ∈ (u.program.unascribe X).surfaces)
    (hd : (ofUnit u).scope.bindings.type? n = some d)
    (hknown : d ∈ (u.program.unascribe X).surfaces ∨
      ∃ id, (ofUnit u).types.builtinId? d = some id) : m.scope.bindings.type? n = some d := by
  have hfollow : ρ.surface d =
      d.follow (entered u).nextSurface (entered (u.unascribe X)).nextSurface := by
    rcases hknown with hkept | ⟨id, hid⟩
    · rw [h.surface d hkept,
        SurfaceId.follow_of_lt (lt_nextSurface (Program.mem_surfaces_of_unascribe hkept))]
    · obtain ⟨k, hk, rfl⟩ := given_of_builtinId? hroom hid
      rw [h.given k hk, SurfaceId.follow_ofNat (room_of_hasRoom hroom).1 hk]
  have htype := h.renumbers.scope.bindings.type? n
  rw [h.surface n hm] at htype
  have hmoved : (ofUnit (u.spare X)).scope.bindings.type? n =
      ((ofUnit u).scope.bindings.type? n).map _ := (moved hroom hs).type? n hm
  rw [hd, Option.map_some, ← hfollow] at hmoved
  obtain ⟨d', hd', he⟩ := Option.map_eq_some_iff.1 (htype.symm.trans hmoved)
  rw [hd', h.injective.surface he]

end Bare

end Session

end MiddleEnd
