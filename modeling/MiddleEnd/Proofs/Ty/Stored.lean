/-
  Types that have C types. A variable of a stored type needs storage: a primitive type, a struct
  type, or an array of such. The types that a check finds for values are plain (`Ty.Plain`): beside
  stored types there are unit, which needs no storage, and types that are not known yet.

  A plain type that is known is stored unless it is unit or has unit inside (`Ty.Plain.stored`).
-/
import MiddleEnd.Proofs.Check.Judgement
import MiddleEnd.Proofs.Ty.Alike

namespace MiddleEnd

variable {E E' : IrId → Prop}

mutual

/-- A type of values, whose primitive and struct types have their identities in `E`. It need not be
known yet. -/
def Ty.Plain (E : IrId → Prop) : Ty → Prop
  | .unit _ => True
  | .infer _ => True
  | .bool r => E r
  | .int r _ => E r
  | .uint r _ => E r
  | .float r _ => E r
  | .struct r _ fields => E r ∧ fields.names.Nodup ∧ fields.Plain E
  | .array _ element _ => element.Plain E
  | _ => False

/-- All members are plain. -/
def Members.Plain (E : IrId → Prop) : Members → Prop
  | .nil => True
  | .cons _ type rest => type.Plain E ∧ rest.Plain E

end

/-- A type of values that need storage. -/
def Ty.Stored (E : IrId → Prop) : Ty → Prop
  | .bool r => E r
  | .int r _ => E r
  | .uint r _ => E r
  | .float r _ => E r
  | .struct r _ _ => E r
  | .array _ element _ => element.Stored E
  | _ => False

mutual

/-- No part of the type is unit: no element of an array, no field of a struct and no parameter of a
function. -/
def Ty.solid : Ty → Bool
  | .array _ element _ => !element.isUnit && element.solid
  | .struct _ _ fields => fields.solid
  | .fn _ params result => params.solid && result.solid
  | _ => true

def Members.solid : Members → Bool
  | .nil => true
  | .cons _ type rest => !type.isUnit && type.solid && rest.solid

end

/-- All members are stored. -/
def Members.Stored (E : IrId → Prop) : Members → Prop
  | .nil => True
  | .cons _ type rest => type.Stored E ∧ rest.Stored E

/-- The type of what is no value: of a function item, whose parameters and result are values, or of
a field declaration. -/
def Ty.Declares (E : IrId → Prop) : Ty → Prop
  | .fn _ params result => params.Plain E ∧ result.Plain E
  | .field _ _ _ => True
  | _ => False

mutual

theorem Ty.Plain.mono (h : ∀ r, E r → E' r) : ∀ {t : Ty}, t.Plain E → t.Plain E'
  | .unit _, _ => trivial
  | .infer _, _ => trivial
  | .bool r, hr => h r hr
  | .int r _, hr => h r hr
  | .uint r _, hr => h r hr
  | .float r _, hr => h r hr
  | .struct r _ fields, hr => ⟨h r hr.1, hr.2.1, Members.Plain.mono (m := fields) h hr.2.2⟩
  | .array _ element _, he => Ty.Plain.mono (t := element) h he

theorem Members.Plain.mono (h : ∀ r, E r → E' r) : ∀ {m : Members}, m.Plain E → m.Plain E'
  | .nil, _ => trivial
  | .cons _ type rest, hms =>
    ⟨Ty.Plain.mono (t := type) h hms.1, Members.Plain.mono (m := rest) h hms.2⟩

end

theorem Ty.Declares.mono (h : ∀ r, E r → E' r) {t : Ty} (ht : t.Declares E) : t.Declares E' := by
  cases t with
  | fn r params result => exact ⟨ht.1.mono h, ht.2.mono h⟩
  | field r name type => trivial
  | _ => exact ht.elim

theorem Ty.plain_ofPrimitive {r : IrId} (h : E r) (q : Primitive) : (ofPrimitive r q).Plain E := by
  cases q <;> exact h

theorem Ty.isUnit_ofPrimitive (r : IrId) (q : Primitive) : (ofPrimitive r q).isUnit = false := by
  cases q <;> rfl

theorem Members.Plain.find? {name : String} {ty : Ty} {ms : Members} (hms : ms.Plain E)
    (h : ms.find? name = some ty) : ty.Plain E :=
  Members.of_find? (P := Members.Plain E) id hms h

theorem Ty.Plain.isError_eq_false {t : Ty} (h : t.Plain E) : t.isError = false := by
  cases t with
  | error r => exact h.elim
  | _ => rfl

/-- What two plain types combine to is plain. -/
theorem Ty.Plain.combine? : ∀ {a b c : Ty}, a.Plain E → b.Plain E → a.combine? b = some c →
    c.Plain E := by
  intro a b c ha hb h
  cases settles_of_combine? h with
  | errorRight | inferLeft => exact hb
  | @array x y z r s n hxy =>
    have hz : z.Plain E := Ty.Plain.combine? (a := x) (b := y) ha hb hxy.combine?_eq
    exact hz
  | fn | field => exact ha.elim
  | _ => exact ha

/-- What plain types combine to from the left is plain. -/
theorem Ty.Plain.combineAll? : ∀ {ts : List Ty} {a c : Ty}, a.Plain E → (∀ t ∈ ts, t.Plain E) →
    a.combineAll? ts = some c → c.Plain E
  | [], _, _, ha, _, h => Option.some.inj h ▸ ha
  | t :: ts, a, c, ha, hts, h => by
    obtain ⟨b, hb, hc⟩ := Option.bind_eq_some_iff.1 h
    exact (ha.combine? (hts t (List.mem_cons_self ..)) hb).combineAll?
      (fun x hx => hts x (List.mem_cons_of_mem _ hx)) hc

/-! ## Stored types -/

theorem Ty.Stored.isUnit_eq_false {t : Ty} (h : t.Stored E) : t.isUnit = false := by
  cases t with
  | unit r => exact h.elim
  | _ => rfl

theorem Ty.Plain.stored : ∀ {t : Ty}, t.Plain E → t.complete = true → t.solid = true →
    t.isUnit = false → t.Stored E
  | .unit _, _, _, _, hu => Bool.noConfusion hu
  | .infer _, _, hc, _, _ => Bool.noConfusion hc
  | .bool _, h, _, _, _ => h
  | .int _ _, h, _, _, _ => h
  | .uint _ _, h, _, _, _ => h
  | .float _ _, h, _, _, _ => h
  | .struct _ _ _, h, _, _, _ => h.1
  | .array _ element _, h, hc, hs, _ => by
    rw [Ty.solid, Bool.and_eq_true, Bool.not_eq_true'] at hs
    exact Ty.Plain.stored (t := element) h hc hs.2 hs.1

theorem Members.Plain.stored : ∀ {ms : Members}, ms.Plain E → ms.complete = true →
    ms.solid = true → ms.Stored E
  | .nil, _, _, _ => trivial
  | .cons _ type rest, h, hc, hs => by
    rw [Members.complete, Bool.and_eq_true] at hc
    rw [Members.solid, Bool.and_eq_true, Bool.and_eq_true, Bool.not_eq_true'] at hs
    exact ⟨h.1.stored hc.1 hs.1.2 hs.1.1, Members.Plain.stored h.2 hc.2 hs.2⟩

end MiddleEnd
