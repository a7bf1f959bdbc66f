/-
  Types that are rooted: their primitive types have identities at which these are known from the
  start, and their struct types those of struct items (`Roots`). Unlike types that are made of given
  ones, rooted types may be errors, or not known yet, in any part.

  Combining rooted types gives rooted types (`Ty.Rooted.combine?`), and so does taking them apart
  (`TypeTable.Holds.rooted`).
-/
import MiddleEnd.Tables.TypeTable
import MiddleEnd.Ty.Combine

namespace MiddleEnd

/-- Where primitive types and struct types come from; a struct type by its name and fields too. -/
structure Roots where
  primitive : IrId → Primitive → Prop
  struct : IrId → String → Members → Prop

variable {R : Roots}

mutual

/-- Every primitive type and every struct type in the type comes from a root. -/
def Ty.Rooted (R : Roots) : Ty → Prop
  | .error _ | .unit _ | .infer _ | .generic _ _ => True
  | .bool r => R.primitive r .bool
  | .int r w => R.primitive r (.int w)
  | .uint r w => R.primitive r (.uint w)
  | .float r w => R.primitive r (.float w)
  | .array _ element _ => element.Rooted R
  | .struct r name fields => R.struct r name fields ∧ fields.Rooted R
  | .fn _ params result => params.Rooted R ∧ result.Rooted R
  | .field _ _ type => type.Rooted R

/-- All members are rooted. -/
def Members.Rooted (R : Roots) : Members → Prop
  | .nil => True
  | .cons _ type rest => type.Rooted R ∧ rest.Rooted R

end

theorem Ty.rooted_ofPrimitive {r : IrId} {q : Primitive} :
    (ofPrimitive r q).Rooted R ↔ R.primitive r q := by
  cases q <;> exact Iff.rfl

theorem Ty.rooted_unit (r : IrId) : (unit r).Rooted R := trivial

theorem Ty.rooted_error (r : IrId) : (error r).Rooted R := trivial

mutual

/-- Where everything is a root every type is rooted. -/
theorem Ty.rooted_of_all (hp : ∀ r q, R.primitive r q)
    (hs : ∀ r name fields, R.struct r name fields) : ∀ t : Ty, t.Rooted R
  | .error _ | .unit _ | .infer _ | .generic _ _ => trivial
  | .bool _ | .int _ _ | .uint _ _ | .float _ _ => hp _ _
  | .array _ element _ => element.rooted_of_all hp hs
  | .struct _ _ fields => ⟨hs _ _ _, fields.rooted_of_all hp hs⟩
  | .fn _ params result => ⟨params.rooted_of_all hp hs, result.rooted_of_all hp hs⟩
  | .field _ _ type => type.rooted_of_all hp hs

theorem Members.rooted_of_all (hp : ∀ r q, R.primitive r q)
    (hs : ∀ r name fields, R.struct r name fields) (ms : Members) : ms.Rooted R := by
  cases ms with
  | nil => trivial
  | cons name type rest => exact ⟨type.rooted_of_all hp hs, rest.rooted_of_all hp hs⟩

end

theorem Ty.rooted_of_isUnit {t : Ty} (h : t.isUnit = true) : t.Rooted R := by
  cases t with
  | unit r => trivial
  | _ => cases h

theorem Members.Rooted.of_mem {m : String × Ty} {ms : Members} (hms : ms.Rooted R)
    (h : m ∈ ms.toList) : m.2.Rooted R :=
  Members.of_mem (P := Members.Rooted R) id hms h

theorem Members.Rooted.find? {name : String} {ty : Ty} {ms : Members} (hms : ms.Rooted R)
    (h : ms.find? name = some ty) : ty.Rooted R :=
  Members.of_find? (P := Members.Rooted R) id hms h

mutual

theorem Ty.Settles.rooted : ∀ {a b c : Ty}, a.Settles b c → a.Rooted R → b.Rooted R →
    c.Rooted R := by
  intro a b c h ha hb
  cases h with
  | errorRight | inferLeft => exact hb
  | array r s n hxy => exact hxy.rooted ha hb
  | field r s name hxy => exact hxy.rooted ha hb
  | fn r s hps hxy => exact ⟨hps.rooted ha.1 hb.1, hxy.rooted ha.2 hb.2⟩
  | _ => exact ha

theorem Members.Settles.rooted : ∀ {a b c : Members}, a.Settles b c → a.Rooted R →
    b.Rooted R → c.Rooted R := by
  intro a b c h ha hb
  cases h with
  | nil => trivial
  | cons m n hxy hps => exact ⟨hxy.rooted ha.1 hb.1, hps.rooted ha.2 hb.2⟩

end

/-- What two rooted types combine to is rooted. -/
theorem Ty.Rooted.combine? {a b c : Ty} (ha : a.Rooted R) (hb : b.Rooted R)
    (h : a.combine? b = some c) : c.Rooted R :=
  (settles_of_combine? h).rooted ha hb

/-! ## Types in a table -/

/-- The type stands in the table, by itself or as a part of another type. -/
inductive TypeTable.Holds (t : TypeTable) : Ty → Prop
  | recorded {id : IrId} {ty : Ty} : t.get? id = some ty → t.Holds ty
  | element {r : IrId} {element : Ty} {n : Nat} : t.Holds (.array r element n) → t.Holds element
  | field {r : IrId} {name : String} {fields : Members} {m : String × Ty} :
    t.Holds (.struct r name fields) → m ∈ fields.toList → t.Holds m.2
  | parameter {r : IrId} {params : Members} {result : Ty} {m : String × Ty} :
    t.Holds (.fn r params result) → m ∈ params.toList → t.Holds m.2
  | result {r : IrId} {params : Members} {result : Ty} :
    t.Holds (.fn r params result) → t.Holds result
  | declared {r : IrId} {name : String} {type : Ty} : t.Holds (.field r name type) → t.Holds type

theorem TypeTable.Holds.rooted {t : TypeTable}
    (ht : ∀ id ty, t.get? id = some ty → ty.Rooted R) {ty : Ty} (h : t.Holds ty) :
    ty.Rooted R := by
  induction h with
  | recorded h => exact ht _ _ h
  | element _ ih => exact ih
  | field _ hm ih => exact Members.Rooted.of_mem ih.2 hm
  | parameter _ hm ih => exact Members.Rooted.of_mem ih.1 hm
  | result _ ih => exact ih.2
  | declared _ ih => exact ih

end MiddleEnd
