/-
  Types up to what they carry along. The shape of a type forgets the identities it carries, except
  where the identity is the type (struct types and generic parameters), and the names of function
  parameters; types of one shape are alike. A type is complete if every part of it is known.

  Combining complete types changes nothing: it succeeds on types that are alike only, and yields
  the left one (`Ty.combine?_complete`).

  Other than in a complete type, parts of a settled one may be errors, but nothing is unsettled.
  Combining two settled types leaves nothing unsettled, and neither does giving the unsettled type
  such a side (`Ty.settled_combine?`).
-/
import MiddleEnd.Ty.Combine

namespace MiddleEnd

/-- The identity that shapes carry. -/
def noId : IrId := ⟨0⟩

mutual

/-- The type without the identities that do not matter. -/
def Ty.shape : Ty → Ty
  | .error _ => .error noId
  | .unit _ => .unit noId
  | .infer _ => .infer noId
  | .bool _ => .bool noId
  | .int _ w => .int noId w
  | .uint _ w => .uint noId w
  | .float _ w => .float noId w
  | .array _ element capacity => .array noId element.shape capacity
  | .struct r _ _ => .struct r "" .nil
  | .fn _ params result => .fn noId params.shape result.shape
  | .field _ name type => .field noId name type.shape
  | .generic r _ => .generic r ""

/-- The shapes of members, without their names. -/
def Members.shape : Members → Members
  | .nil => .nil
  | .cons _ type rest => .cons "" type.shape rest.shape

end

/-- Equality of types, whatever identities they carry. -/
def Ty.Alike (a b : Ty) : Prop := a.shape = b.shape

instance (a b : Ty) : Decidable (a.Alike b) := inferInstanceAs (Decidable (a.shape = b.shape))

theorem Ty.Alike.refl (a : Ty) : a.Alike a := rfl

theorem Ty.Alike.symm {a b : Ty} (h : a.Alike b) : b.Alike a := Eq.symm h

theorem Ty.Alike.trans {a b c : Ty} (h : a.Alike b) (k : b.Alike c) : a.Alike c := Eq.trans h k

theorem Ty.Alike.array {x y : Ty} (h : x.Alike y) (r s : IrId) (n : Nat) :
    (Ty.array r x n).Alike (.array s y n) :=
  congrArg (Ty.array noId · n) h

theorem Ty.Alike.field {x y : Ty} (h : x.Alike y) (r s : IrId) (name : String) :
    (Ty.field r name x).Alike (.field s name y) :=
  congrArg (Ty.field noId name) h

theorem Ty.Alike.fn {ps qs : Members} {x y : Ty} (hps : ps.shape = qs.shape) (h : x.Alike y)
    (r s : IrId) : (Ty.fn r ps x).Alike (.fn s qs y) := by
  have hxy : x.shape = y.shape := h
  rw [Ty.Alike, Ty.shape, Ty.shape, hps, hxy]

theorem Members.shape_cons_eq {x y : Ty} {ps qs : Members} (h : x.Alike y)
    (hps : ps.shape = qs.shape) (m n : String) :
    (Members.cons m x ps).shape = (Members.cons n y qs).shape := by
  have hxy : x.shape = y.shape := h
  rw [Members.shape, Members.shape, hps, hxy]

theorem Ty.Alike.isUnit_eq {a b : Ty} (h : a.Alike b) : a.isUnit = b.isUnit := by
  have hs : ∀ t : Ty, t.shape.isUnit = t.isUnit := fun t => by cases t <;> rfl
  rw [← hs a, ← hs b, show a.shape = b.shape from h]

/-! ## Complete types -/

mutual

/-- Every part of the type is known. -/
def Ty.complete : Ty → Bool
  | .error _ | .infer _ => false
  | .unit _ | .bool _ | .int _ _ | .uint _ _ | .float _ _ | .generic _ _ => true
  | .array _ element _ => element.complete
  | .struct _ _ fields => fields.complete
  | .fn _ params result => params.complete && result.complete
  | .field _ _ type => type.complete

def Members.complete : Members → Bool
  | .nil => true
  | .cons _ type rest => type.complete && rest.complete

end

theorem Ty.complete_ofPrimitive (id : IrId) (p : Primitive) : (ofPrimitive id p).complete = true := by
  cases p <;> rfl

theorem Ty.isInfer_eq_false {a : Ty} (h : a.complete = true) : a.isInfer = false := by
  cases a <;> first | rfl | exact absurd h nofun

theorem Ty.isError_eq_false {a : Ty} (h : a.complete = true) : a.isError = false := by
  cases a <;> first | rfl | exact absurd h nofun

theorem Members.complete_find? {name : String} {ty : Ty} {m : Members} (hm : m.complete = true)
    (h : m.find? name = some ty) : ty.complete = true :=
  Members.of_find? (P := fun m => m.complete = true) (Bool.and_eq_true ..).mp hm h

/-- The unsettled type takes the other side. -/
theorem Ty.combine?_infer {r : IrId} {b c : Ty} (hb : b.isError = false)
    (h : (Ty.infer r).combine? b = some c) : c = b :=
  (settles_of_combine? h).unique (.inferLeft r hb)

mutual

theorem Ty.Settles.complete : ∀ {a b c : Ty}, a.Settles b c → a.complete = true →
    b.complete = true → c = a ∧ a.Alike b := by
  intro a b c h ha hb
  cases h with
  | errorLeft | inferLeft => cases ha
  | errorRight | inferRight => cases hb
  | array r s n hxy =>
    obtain ⟨rfl, halike⟩ := hxy.complete ha hb
    exact ⟨rfl, halike.array r s n⟩
  | field r s name hxy =>
    obtain ⟨rfl, halike⟩ := hxy.complete ha hb
    exact ⟨rfl, halike.field r s name⟩
  | fn r s hps hxy =>
    unfold Ty.complete at ha hb
    rw [Bool.and_eq_true] at ha hb
    obtain ⟨rfl, hshape⟩ := hps.complete ha.1 hb.1
    obtain ⟨rfl, halike⟩ := hxy.complete ha.2 hb.2
    exact ⟨rfl, .fn hshape halike r s⟩
  | _ => exact ⟨rfl, rfl⟩

theorem Members.Settles.complete : ∀ {a b c : Members}, a.Settles b c → a.complete = true →
    b.complete = true → c = a ∧ a.shape = b.shape := by
  intro a b c h ha hb
  cases h with
  | nil => exact ⟨rfl, rfl⟩
  | cons m n hxy hps =>
    unfold Members.complete at ha hb
    rw [Bool.and_eq_true] at ha hb
    obtain ⟨rfl, halike⟩ := hxy.complete ha.1 hb.1
    obtain ⟨rfl, hshape⟩ := hps.complete ha.2 hb.2
    exact ⟨rfl, Members.shape_cons_eq halike hshape m n⟩

end

/-- Complete types that combine are alike, and the left one is the result. -/
theorem Ty.combine?_complete {a b c : Ty} (ha : a.complete = true) (hb : b.complete = true)
    (h : a.combine? b = some c) : c = a ∧ a.Alike b :=
  (settles_of_combine? h).complete ha hb

/-! ## Settled types -/

mutual

/-- No part of the type is unsettled. -/
def Ty.settled : Ty → Bool
  | .infer _ => false
  | .array _ element _ => element.settled
  | .struct _ _ fields => fields.settled
  | .fn _ params result => params.settled && result.settled
  | .field _ _ type => type.settled
  | _ => true

def Members.settled : Members → Bool
  | .nil => true
  | .cons _ type rest => type.settled && rest.settled

end

theorem Ty.isInfer_of_settled {a : Ty} (h : a.settled = true) : a.isInfer = false := by
  cases a with
  | infer r => cases h
  | _ => rfl

mutual

/-- A complete type has no errors and is settled. -/
theorem Ty.settled_of_complete : ∀ {a : Ty}, a.complete = true → a.settled = true
  | .array _ element _, h => Ty.settled_of_complete (a := element) h
  | .struct _ _ _, h => Members.settled_of_complete h
  | .fn _ _ _, h => by
    rw [Ty.complete, Bool.and_eq_true] at h
    rw [Ty.settled, Bool.and_eq_true]
    exact ⟨Members.settled_of_complete h.1, Ty.settled_of_complete h.2⟩
  | .field _ _ type, h => Ty.settled_of_complete (a := type) h
  | .unit _, _ | .bool _, _ | .int _ _, _ | .uint _ _, _ | .float _ _, _ | .generic _ _, _ => rfl

theorem Members.settled_of_complete : ∀ {a : Members}, a.complete = true → a.settled = true
  | .nil, _ => rfl
  | .cons _ _ _, h => by
    rw [Members.complete, Bool.and_eq_true] at h
    rw [Members.settled, Bool.and_eq_true]
    exact ⟨Ty.settled_of_complete h.1, Members.settled_of_complete h.2⟩

end

theorem Members.settled_find? {name : String} {ty : Ty} {m : Members} (hm : m.settled = true)
    (h : m.find? name = some ty) : ty.settled = true :=
  Members.of_find? (P := fun m => m.settled = true) (Bool.and_eq_true ..).mp hm h

mutual

theorem Ty.Settles.settled : ∀ {a b c : Ty}, a.Settles b c → (a.isInfer = true ∨ a.settled = true) →
    b.settled = true → c.settled = true := by
  intro a b c h ha hb
  have ha : a.isInfer = false → a.settled = true := fun hi =>
    ha.resolve_left fun h => Bool.false_ne_true (hi.symm.trans h)
  cases h with
  | errorLeft => rfl
  | errorRight | inferLeft => exact hb
  | inferRight => cases hb
  | array r s n hxy => exact hxy.settled (.inr (ha rfl)) hb
  | field r s name hxy => exact hxy.settled (.inr (ha rfl)) hb
  | fn r s hps hxy =>
    have ha := ha rfl
    rw [Ty.settled, Bool.and_eq_true] at ha hb ⊢
    exact ⟨hps.settled ha.1 hb.1, hxy.settled (.inr ha.2) hb.2⟩
  -- the remaining forms are taken from the left as they are
  | _ => exact ha rfl

theorem Members.Settles.settled : ∀ {a b c : Members}, a.Settles b c → a.settled = true →
    b.settled = true → c.settled = true := by
  intro a b c h ha hb
  cases h with
  | nil => rfl
  | cons m n hxy hps =>
    rw [Members.settled, Bool.and_eq_true] at ha hb ⊢
    exact ⟨hxy.settled (.inr ha.1) hb.1, hps.settled ha.2 hb.2⟩

end

/-- The left side may be unsettled as a whole. -/
theorem Ty.settled_combine? {a b c : Ty} (ha : a.isInfer = true ∨ a.settled = true)
    (hb : b.settled = true) (h : a.combine? b = some c) : c.settled = true :=
  (settles_of_combine? h).settled ha hb

end MiddleEnd
