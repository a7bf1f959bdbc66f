/-
  Types that two checks of the same nodes find. Twins differ in the identities that their array and
  unit types carry and in nothing else (`Ty.Twin`), and they combine in the same way
  (`Ty.Twin.combine?`).

  A type is made of `E` if its primitive and struct types are among the types `E` (`Ty.MadeOf`).
  Where no two types in `E` are alike, types of data that are made of `E` are twins as soon as they
  are alike (`Ty.MadeOf.twin`).
-/
import MiddleEnd.Proofs.Check.Judgement
import MiddleEnd.Proofs.Ty.Order
import MiddleEnd.Proofs.Ty.Renumber

namespace MiddleEnd

/-! ## Twins -/

/-- The types are the same but for the identities of arrays and units. -/
def Ty.Twin : Ty → Ty → Prop
  | .unit _, .unit _ => True
  | .array _ x m, .array _ y n => x.Twin y ∧ m = n
  | a, b => a = b

/-- Whether the type may have a twin other than itself. -/
def Ty.isFree : Ty → Bool
  | .unit _ | .array .. => true
  | _ => false

namespace Ty

theorem isFree_shape (a : Ty) : a.shape.isFree = a.isFree := by
  cases a <;> rfl

theorem Alike.isFree {a b : Ty} (h : a.Alike b) : b.isFree = a.isFree := by
  rw [← isFree_shape a, ← isFree_shape b, show a.shape = b.shape from h]

namespace Twin

protected theorem refl : ∀ a : Ty, a.Twin a
  | .unit _ => trivial
  | .array _ x _ => ⟨Twin.refl x, rfl⟩
  | .error _ | .infer _ | .bool _ | .int _ _ | .uint _ _ | .float _ _ | .struct _ _ _
  | .fn _ _ _ | .field _ _ _ | .generic _ _ => rfl

theorem of_unit {r : IrId} {t : Ty} (h : (Ty.unit r).Twin t) : ∃ s, t = .unit s := by
  cases t with
  | unit s => exact ⟨s, rfl⟩
  | _ => cases h

theorem of_array {r : IrId} {x t : Ty} {n : Nat} (h : (Ty.array r x n).Twin t) :
    ∃ s y, t = .array s y n ∧ x.Twin y := by
  cases t with
  | array s y m =>
    obtain ⟨hxy, rfl⟩ := h
    exact ⟨s, y, rfl, hxy⟩
  | _ => cases h

theorem eq {a b : Ty} (ha : a.isFree = false) (h : a.Twin b) : b = a := by
  cases a with
  | unit | array => cases ha
  | _ => cases b <;> exact Eq.symm h

theorem trans : ∀ {a b c : Ty}, a.Twin b → b.Twin c → a.Twin c
  | .unit _, b, c, h, k => by
    obtain ⟨s, rfl⟩ := h.of_unit
    obtain ⟨r, rfl⟩ := k.of_unit
    trivial
  | .array _ x n, b, c, h, k => by
    obtain ⟨s, y, rfl, hxy⟩ := h.of_array
    obtain ⟨r, z, rfl, hyz⟩ := k.of_array
    exact ⟨hxy.trans hyz, rfl⟩
  | .error _, b, c, h, k | .infer _, b, c, h, k | .bool _, b, c, h, k | .int _ _, b, c, h, k
  | .uint _ _, b, c, h, k | .float _ _, b, c, h, k | .struct _ _ _, b, c, h, k
  | .fn _ _ _, b, c, h, k | .field _ _ _, b, c, h, k | .generic _ _, b, c, h, k => h.eq rfl ▸ k

theorem array {r s : IrId} {x y : Ty} (h : x.Twin y) (n : Nat) :
    (Ty.array r x n).Twin (.array s y n) :=
  ⟨h, rfl⟩

/-- What is the same for all units, and for all arrays, is the same for twins. -/
theorem congr {α : Type} {f : Ty → α} (hunit : ∀ r s, f (.unit s) = f (.unit r))
    (harray : ∀ r s x y n, f (.array s y n) = f (.array r x n)) {a b : Ty} (h : a.Twin b) :
    f b = f a := by
  cases a with
  | unit r =>
    obtain ⟨s, rfl⟩ := h.of_unit
    exact hunit r s
  | array r x n =>
    obtain ⟨s, y, rfl, -⟩ := h.of_array
    exact harray r s x y n
  | _ => rw [h.eq rfl]

theorem isInfer_eq {a b : Ty} (h : a.Twin b) : b.isInfer = a.isInfer :=
  h.congr (fun _ _ => rfl) fun _ _ _ _ _ => rfl

theorem isError_eq {a b : Ty} (h : a.Twin b) : b.isError = a.isError :=
  h.congr (fun _ _ => rfl) fun _ _ _ _ _ => rfl

theorem isUnit_eq {a b : Ty} (h : a.Twin b) : b.isUnit = a.isUnit :=
  h.congr (fun _ _ => rfl) fun _ _ _ _ _ => rfl

theorem struct?_eq {a b : Ty} (h : a.Twin b) : b.struct? = a.struct? :=
  h.congr (fun _ _ => rfl) fun _ _ _ _ _ => rfl

theorem fn?_eq {a b : Ty} (h : a.Twin b) : b.fn? = a.fn? :=
  h.congr (fun _ _ => rfl) fun _ _ _ _ _ => rfl

/-- Twins of complete types combine as these do. -/
theorem combine? : ∀ {a b a' b' c : Ty}, a.Twin a' → b.Twin b' → a.complete = true →
    b.complete = true → a.combine? b = some c → a'.combine? b' = some a'
  | .unit r, b, a', b', c, ha, hb, hca, hcb, h => by
    obtain ⟨s, rfl⟩ := ha.of_unit
    have halike := (Ty.combine?_complete hca hcb h).2
    cases b with
    | unit r' =>
      obtain ⟨s', rfl⟩ := hb.of_unit
      rfl
    | _ => cases halike
  | .array r x n, b, a', b', c, ha, hb, hca, hcb, h => by
    obtain ⟨s, y, rfl, hxy⟩ := ha.of_array
    cases settles_of_combine? h with
    | errorRight | inferRight => cases hcb
    | array _ r' _ hz =>
      obtain ⟨s', y', rfl, hxy'⟩ := hb.of_array
      have hy := hxy.combine? hxy' hca hcb hz.combine?_eq
      exact (Settles.array s s' n (settles_of_combine? hy)).combine?_eq
  | .bool _, b, a', b', c, ha, hb, hca, hcb, h | .int _ _, b, a', b', c, ha, hb, hca, hcb, h
  | .uint _ _, b, a', b', c, ha, hb, hca, hcb, h | .float _ _, b, a', b', c, ha, hb, hca, hcb, h
  | .struct _ _ _, b, a', b', c, ha, hb, hca, hcb, h | .fn _ _ _, b, a', b', c, ha, hb, hca, hcb, h
  | .field _ _ _, b, a', b', c, ha, hb, hca, hcb, h
  | .generic _ _, b, a', b', c, ha, hb, hca, hcb, h => by
    obtain ⟨rfl, halike⟩ := Ty.combine?_complete hca hcb h
    rw [ha.eq rfl, hb.eq (halike.isFree.trans rfl)]
    exact h

end Twin

end Ty

/-! ## What types are made of -/

mutual

/-- The type is complete as far as it is made of others, and the primitive and struct types in it
are among `E`. -/
def Ty.MadeOf (E : Ty → Prop) : Ty → Prop
  | .unit _ => True
  | .array _ element _ => element.MadeOf E
  | .fn _ params result => params.MadeOf E ∧ result.MadeOf E
  | .field _ _ type => type.MadeOf E
  | .error _ | .infer _ | .generic _ _ => False
  | .bool r => E (.bool r)
  | .int r w => E (.int r w)
  | .uint r w => E (.uint r w)
  | .float r w => E (.float r w)
  | .struct r name fields => E (.struct r name fields)

def Members.MadeOf (E : Ty → Prop) : Members → Prop
  | .nil => True
  | .cons _ type rest => type.MadeOf E ∧ rest.MadeOf E

end

/-- Complete types of which no two are alike, with all types that their fields are made of. -/
structure Distinguished (E : Ty → Prop) : Prop where
  complete : ∀ {a}, E a → a.complete = true
  eq : ∀ {a b}, E a → E b → a.Alike b → a = b
  fields : ∀ {r name ms}, E (.struct r name ms) → ms.MadeOf E

/-- Whether values of the type are data: scalars, structs and arrays of data. -/
def Ty.isData : Ty → Bool
  | .unit _ | .bool _ | .int .. | .uint .. | .float .. | .struct .. => true
  | .array _ element _ => element.isData
  | _ => false

theorem Ty.isInfer_of_isData {a : Ty} (h : a.isData = true) : a.isInfer = false := by
  cases a with
  | infer r => cases h
  | _ => rfl

variable {E : Ty → Prop}

theorem Members.MadeOf.find? {name : String} {ty : Ty} {ms : Members} (hms : ms.MadeOf E)
    (h : ms.find? name = some ty) : ty.MadeOf E :=
  Members.of_find? (P := Members.MadeOf E) id hms h

mutual

theorem Ty.MadeOf.complete (hE : Distinguished E) : ∀ {a : Ty}, a.MadeOf E → a.complete = true
  | .unit _, _ => rfl
  | .array _ x _, h => Ty.MadeOf.complete (a := x) hE h
  | .fn _ _ _, h =>
    (Bool.and_eq_true ..).symm ▸ ⟨Members.MadeOf.complete hE h.1, Ty.MadeOf.complete hE h.2⟩
  | .field _ _ x, h => Ty.MadeOf.complete (a := x) hE h
  | .bool r, h => hE.complete (a := .bool r) h
  | .int r w, h => hE.complete (a := .int r w) h
  | .uint r w, h => hE.complete (a := .uint r w) h
  | .float r w, h => hE.complete (a := .float r w) h
  | .struct r name fields, h => hE.complete (a := .struct r name fields) h

theorem Members.MadeOf.complete (hE : Distinguished E) :
    ∀ {ms : Members}, ms.MadeOf E → ms.complete = true
  | .nil, _ => rfl
  | .cons _ _ _, h =>
    (Bool.and_eq_true ..).symm ▸ ⟨Ty.MadeOf.complete hE h.1, Members.MadeOf.complete hE h.2⟩

end

/-- Alike types of data have the same primitive and struct types in the same places. -/
theorem Ty.MadeOf.twin (hE : Distinguished E) : ∀ {a b : Ty}, a.MadeOf E → b.MadeOf E →
    a.isData = true → a.Alike b → a.Twin b
  | .unit _, b, _, _, _, h => by
    cases b with
    | unit s => trivial
    | _ => cases h
  | .array _ x m, b, ha, hb, hd, h => by
    cases b with
    | array s y n =>
      obtain ⟨-, hxy, rfl⟩ := (Ty.array.injEq ..).mp h
      exact ⟨Ty.MadeOf.twin (a := x) (b := y) hE ha hb hd hxy, rfl⟩
    | _ => cases h
  | .bool _, b, ha, hb, _, h | .int _ _, b, ha, hb, _, h | .uint _ _, b, ha, hb, _, h
  | .float _ _, b, ha, hb, _, h | .struct _ _ _, b, ha, hb, _, h => by
    cases b with
    | bool | int | uint | float | struct => exact hE.eq ha hb h ▸ .refl _
    | _ => cases h

/-! ## Primitive types -/

theorem Ty.isData_ofPrimitive {r : IrId} {p : Primitive} (h : E (.ofPrimitive r p)) :
    (ofPrimitive r p).isData = true ∧ (ofPrimitive r p).MadeOf E := by
  cases p <;> exact ⟨rfl, h⟩

theorem Ty.primitive_eq_of_alike {r s : IrId} {p q : Primitive}
    (h : (ofPrimitive r p).Alike (.ofPrimitive s q)) : p = q := by
  cases p <;> cases q <;> cases h <;> rfl

theorem Ty.not_alike_struct {r s : IrId} {p : Primitive} {name : String} {ms : Members} :
    ¬ (ofPrimitive r p).Alike (.struct s name ms) := by
  cases p <;> exact nofun

/-! ## Types of one node -/

/-- The types of one node in two checks: twins, made of `E` as soon as they are known. -/
structure Ty.Matched (E : Ty → Prop) (a a' : Ty) : Prop where
  twin : a.Twin a'
  made : a.isInfer = true ∨ a.MadeOf E

theorem Ty.MadeOf.matched {a : Ty} (h : a.MadeOf E) : a.Matched E a := ⟨.refl a, .inr h⟩

/-- What a `let` is recorded with that may have an annotation. -/
theorem Ty.Matched.getD {a a' : Option Ty} (h : Option.Rel (Matched E) a a') (r : IrId) :
    (a.getD (.infer r)).Matched E (a'.getD (.infer r)) := by
  cases h with
  | none => exact ⟨.refl _, .inl rfl⟩
  | some h => exact h

/-- What combines does so in the place of twins. -/
theorem Ty.Matched.combine? (hE : Distinguished E) {a a' b b' c : Ty} (ha : a.Matched E a')
    (hb : b.Twin b') (hmb : b.MadeOf E) (h : a.combine? b = some c) :
    ∃ c', a'.combine? b' = some c' ∧ c.Twin c' ∧ c.MadeOf E := by
  have hcb := hmb.complete hE
  obtain ⟨htwin, hi | hma⟩ := ha
  · cases a with
    | infer r =>
      cases htwin.eq rfl
      cases Ty.combine?_infer (Ty.isError_eq_false hcb) h
      have herror : b'.isError = false := hb.isError_eq.trans (Ty.isError_eq_false hcb)
      exact ⟨b', (Ty.Settles.inferLeft r herror).combine?_eq, hb, hmb⟩
    | _ => cases hi
  · have hca := hma.complete hE
    cases (Ty.combine?_complete hca hcb h).1
    exact ⟨a', htwin.combine? hb hca hcb h, htwin, hma⟩

/-- The same for the types of a list, combined from the left. -/
theorem Ty.Twin.combineAll?_made (hE : Distinguished E) {a a' c : Ty} (ha : a.Twin a')
    (hma : a.MadeOf E) {bs bs' : List Ty} (hbs : List.Forall₂ Ty.Twin bs bs') :
    (∀ b ∈ bs, b.MadeOf E) → a.combineAll? bs = some c → a'.combineAll? bs' = some a' ∧ c = a := by
  induction hbs with
  | nil =>
    intro _ h
    cases h
    exact ⟨rfl, rfl⟩
  | @cons b b' bs bs' hb _ ih =>
    intro hmbs h
    obtain ⟨hmb, hmbs⟩ := List.forall_mem_cons.1 hmbs
    obtain ⟨x, hx, hrest⟩ := Option.bind_eq_some_iff.1 h
    have hca := hma.complete hE
    have hcb := hmb.complete hE
    cases (Ty.combine?_complete hca hcb hx).1
    obtain ⟨hall, hc⟩ := ih hmbs hrest
    refine ⟨?_, hc⟩
    show (a'.combine? b').bind _ = _
    rw [ha.combine? hb hca hcb hx]
    exact hall

/-! ## Equality after renumbering -/

section

variable {ρ : Renumbering}

mutual

/-- A renumbering that keeps the struct types keeps types equal. -/
theorem Ty.MadeOf.same_renumber (hρ : ∀ {r name fields}, E (.struct r name fields) → ρ.ir r = r) :
    ∀ {a : Ty}, a.MadeOf E → a.same (a.renumber ρ) = true
  | .unit _, _ | .bool _, _ => rfl
  | .int _ _, _ | .uint _ _, _ | .float _ _, _ => by
    simp only [Ty.renumber, Ty.same, beq_self_eq_true]
  | .array _ x _, h => by
    have hx := Ty.MadeOf.same_renumber hρ (a := x) h
    simp only [Ty.renumber, Ty.same, hx, beq_self_eq_true, Bool.and_self]
  | .struct r name fields, h => by
    simp only [Ty.renumber, Ty.same, hρ h, beq_self_eq_true]
  | .fn _ params result, h => by
    have hps := Members.MadeOf.same_renumber hρ h.1
    have hx := Ty.MadeOf.same_renumber hρ h.2
    simp only [Ty.renumber, Ty.same, hps, hx, Bool.and_self]
  | .field _ _ x, h => by
    have hx := Ty.MadeOf.same_renumber hρ (a := x) h
    simp only [Ty.renumber, Ty.same, hx, beq_self_eq_true, Bool.and_self]

theorem Members.MadeOf.same_renumber
    (hρ : ∀ {r name fields}, E (.struct r name fields) → ρ.ir r = r) :
    ∀ {ms : Members}, ms.MadeOf E → ms.same (ms.renumber ρ) = true
  | .nil, _ => rfl
  | .cons _ _ _, h => by
    have hx := Ty.MadeOf.same_renumber hρ h.1
    have hps := Members.MadeOf.same_renumber hρ h.2
    simp only [Members.renumber, Members.same, hx, hps, beq_self_eq_true, Bool.and_self]

end

/-- A type equals its twin under other numbers. -/
theorem Ty.Twin.same_renumber (hρ : ∀ {r name fields}, E (.struct r name fields) → ρ.ir r = r) :
    ∀ {a b : Ty}, a.Twin b → a.MadeOf E → a.same (b.renumber ρ) = true
  | .unit _, b, h, _ => by
    obtain ⟨s, rfl⟩ := h.of_unit
    rfl
  | .array _ x n, b, h, ha => by
    obtain ⟨s, y, rfl, hxy⟩ := h.of_array
    have hx := hxy.same_renumber hρ (a := x) ha
    simp only [Ty.renumber, Ty.same, hx, beq_self_eq_true, Bool.and_self]
  | .bool _, b, h, ha | .int _ _, b, h, ha | .uint _ _, b, h, ha | .float _ _, b, h, ha
  | .struct _ _ _, b, h, ha | .fn _ _ _, b, h, ha | .field _ _ _, b, h, ha => by
    rw [h.eq rfl]
    exact Ty.MadeOf.same_renumber hρ ha

end

end MiddleEnd
