/-
  The definitions of struct types and of wrappers of arrays. A program under construction is well
  defined if every definition mentions only scalar types and types that are defined before it, and
  if wrappers have the names `arrayName 0`, `arrayName 1` and so on (`Program.WellDefined`). Making
  wrappers and struct types of such types keeps a program well defined; different definitions then
  have different names, if struct types have and none of these is the name of a wrapper.
-/
import Mathlib.Data.List.Nodup
import MiddleEnd.Proofs.C.Layout

namespace MiddleEnd.C

/-- The spellings of scalar types. -/
def scalars : List String :=
  ["bool", "int8_t", "int16_t", "int32_t", "int64_t", "__int128", "uint8_t", "uint16_t", "uint32_t",
    "uint64_t", "unsigned __int128", "float", "double"]

/-- The type is scalar or defined by one of these. -/
def Ty.KnownIn (defs : List TypeDef) (t : Ty) : Prop :=
  ∃ s, t = .named s ∧ (s ∈ scalars ∨ s ∈ defs.map TypeDef.name)

theorem Ty.KnownIn.mono {defs more : List TypeDef} {t : Ty} (h : t.KnownIn defs)
    (hsub : defs ⊆ more) : t.KnownIn more := by
  obtain ⟨s, rfl, hs⟩ := h
  exact ⟨s, rfl, hs.imp_right fun hs => List.map_subset _ hsub hs⟩

/-- Where an element stands in a list with one more at the end. -/
theorem split_snoc {α : Type} {xs before after : List α} {x y : α}
    (h : xs ++ [y] = before ++ x :: after) :
    (before = xs ∧ x = y) ∨ ∃ rest, after = rest ++ [y] ∧ xs = before ++ x :: rest := by
  rcases List.eq_nil_or_concat after with rfl | ⟨rest, z, rfl⟩
  · obtain ⟨rfl, he⟩ := List.append_inj' h rfl
    cases he
    exact .inl ⟨rfl, rfl⟩
  · rw [List.concat_eq_append, ← List.cons_append, ← List.append_assoc] at h
    obtain ⟨rfl, he⟩ := List.append_inj' h rfl
    cases he
    exact .inr ⟨rest, List.concat_eq_append .., rfl⟩

namespace TypeDef

def struct? : TypeDef → Option String
  | struct name _ => some name
  | array .. => none

/-- The name of the wrapper that is defined. -/
def wrapper? : TypeDef → Option String
  | struct .. => none
  | array name _ _ => some name

end TypeDef

namespace Program

variable {p : Program}

/-- Wrappers are numbered. -/
theorem arrayName_injective : Function.Injective arrayName := by
  intro m n h
  have h : "__array_" ++ m.repr = "__array_" ++ n.repr := h
  exact repr_inj.1 ((String.append_right_inj _).1 h)

theorem take_arrayName (n : Nat) : (arrayName n).toList.take 3 = ['_', '_', 'a'] := by
  show ("__array_" ++ n.repr).toList.take 3 = _
  rw [String.toList_append]
  rfl

/-- No scalar type is a wrapper. -/
theorem arrayName_notMem_scalars (n : Nat) : arrayName n ∉ scalars := by
  have hscalars : ∀ s ∈ scalars, s.toList.take 3 ≠ ['_', '_', 'a'] := by decide
  exact fun h => hscalars _ h (take_arrayName n)

/-- Definitions mention scalar types and types that are defined before, and nothing else. -/
def Ordered (defs : List TypeDef) : Prop :=
  ∀ before d after, defs = before ++ d :: after → ∀ m ∈ d.mentions,
    ∃ t, m = .type t ∧ t.KnownIn before

theorem Ordered.snoc {defs : List TypeDef} (h : Ordered defs) {d : TypeDef}
    (hd : ∀ m ∈ d.mentions, ∃ t, m = .type t ∧ t.KnownIn defs) : Ordered (defs ++ [d]) := by
  intro before e after he
  rcases split_snoc he with ⟨rfl, rfl⟩ | ⟨rest, -, hdefs⟩
  · exact hd
  · exact h before e rest hdefs

structure WellDefined (p : Program) : Prop where
  ordered : Ordered p.typeDefs
  structs : p.typeDefs.filterMap TypeDef.struct? = p.structNames
  wrappers : p.typeDefs.filterMap TypeDef.wrapper? = (List.range p.arrays.length).map arrayName
  arrays : p.arrays.map (·.2) = (List.range p.arrays.length).map fun n => .named (arrayName n)

namespace WellDefined

theorem congr (h : p.WellDefined) {q : Program} (ht : q.typeDefs = p.typeDefs)
    (hs : q.structNames = p.structNames) (ha : q.arrays = p.arrays) : q.WellDefined := by
  refine ⟨?_, ?_, ?_, ?_⟩
  · rw [ht]
    exact h.ordered
  · rw [ht, hs]
    exact h.structs
  · rw [ht, ha]
    exact h.wrappers
  · rw [ha]
    exact h.arrays

theorem known_of_lookup (h : p.WellDefined) {key : String × String} {t : Ty}
    (ht : p.arrays.lookup key = some t) : t.KnownIn p.typeDefs := by
  obtain ⟨a, b, hsplit, _⟩ := List.lookup_eq_some_iff.1 ht
  have hin : t ∈ p.arrays.map (·.2) := by
    rw [hsplit]
    simp
  rw [h.arrays] at hin
  obtain ⟨n, hn, rfl⟩ := List.mem_map.1 hin
  refine ⟨_, rfl, .inr ?_⟩
  have hname : arrayName n ∈ p.typeDefs.filterMap TypeDef.wrapper? := by
    rw [h.wrappers]
    exact List.mem_map_of_mem hn
  obtain ⟨d, hd, hdn⟩ := List.mem_filterMap.1 hname
  refine List.mem_map.2 ⟨d, hd, ?_⟩
  cases d with
  | struct name fields => cases hdn
  | array name element length => exact Option.some.inj hdn

/-- The wrapper of an array, where the type of the elements is known. -/
theorem arrayType (h : p.WellDefined) {element : Ty} {length : Expr}
    (he : element.KnownIn p.typeDefs)
    (hl : ∀ m ∈ length.mentions, ∃ t, m = .type t ∧ t.KnownIn p.typeDefs) :
    (p.arrayType element length).2.WellDefined ∧
      (p.arrayType element length).1.KnownIn (p.arrayType element length).2.typeDefs := by
  unfold Program.arrayType
  dsimp only
  cases hlook : p.arrays.lookup (element.spelling, length.text) with
  | some t => exact ⟨h, h.known_of_lookup hlook⟩
  | none =>
    refine ⟨⟨h.ordered.snoc ?_, ?_, ?_, ?_⟩, ?_⟩
    · intro m hm
      rcases List.mem_cons.1 hm with rfl | hm
      · exact ⟨element, rfl, he⟩
      · exact hl m hm
    · simp [TypeDef.struct?, h.structs]
    · simp [TypeDef.wrapper?, h.wrappers, List.range_succ]
    · simp [h.arrays, List.range_succ]
    · exact ⟨_, rfl, .inr (by simp [TypeDef.name])⟩

/-- A struct type, where the types of the fields are known. -/
theorem structType (h : p.WellDefined) (name : String) {fields : List (String × Ty)}
    (hf : ∀ f ∈ fields, f.2.KnownIn p.typeDefs) :
    (p.structType name fields).2.WellDefined ∧
      (p.structType name fields).1.KnownIn (p.structType name fields).2.typeDefs := by
  unfold Program.structType
  refine ⟨⟨h.ordered.snoc ?_, ?_, ?_, h.arrays⟩, ?_⟩
  · intro m hm
    obtain ⟨f, hf', rfl⟩ := List.mem_map.1 hm
    exact ⟨f.2, rfl, hf f hf'⟩
  · simp [TypeDef.struct?, h.structs]
  · simp [TypeDef.wrapper?, h.wrappers]
  · exact ⟨_, rfl, .inr (by simp [TypeDef.name])⟩

/-- Struct types and wrappers are all there is. -/
theorem names_perm : ∀ defs : List TypeDef, (defs.map TypeDef.name).Perm
    (defs.filterMap TypeDef.struct? ++ defs.filterMap TypeDef.wrapper?)
  | [] => .refl _
  | .struct name _ :: rest => (names_perm rest).cons name
  | .array name _ _ :: rest => ((names_perm rest).cons name).trans List.perm_middle.symm

/-- Every type is defined once. -/
theorem nodup_names (h : p.WellDefined) (hn : p.structNames.Nodup)
    (hw : ∀ name ∈ p.structNames, ∀ n, name ≠ arrayName n) :
    (p.typeDefs.map TypeDef.name).Nodup := by
  rw [(names_perm p.typeDefs).nodup_iff, h.structs, h.wrappers]
  refine List.nodup_append.2 ⟨hn, List.nodup_range.map arrayName_injective, ?_⟩
  intro name hname wrapper hwrapper
  obtain ⟨n, _, rfl⟩ := List.mem_map.1 hwrapper
  exact hw name hname n

/-- No type that is defined is scalar. -/
theorem names_notMem_scalars (h : p.WellDefined) (hs : ∀ name ∈ p.structNames, name ∉ scalars) :
    ∀ name ∈ p.typeDefs.map TypeDef.name, name ∉ scalars := by
  intro name hname
  rcases List.mem_append.1 ((names_perm p.typeDefs).mem_iff.1 hname) with hm | hm
  · rw [h.structs] at hm
    exact hs name hm
  · rw [h.wrappers] at hm
    obtain ⟨n, _, rfl⟩ := List.mem_map.1 hm
    exact arrayName_notMem_scalars n

end WellDefined

end Program

end MiddleEnd.C
