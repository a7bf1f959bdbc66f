/-
  Types of which parts were lost. A type fades to one that has the error type in place of some of
  its complete parts, and is the same everywhere else.

  The error type goes with every other, so faded types combine wherever the types combine, to a
  faded result (`Ty.Fades.combine?`).
-/
import Mathlib.Data.List.Forall2
import MiddleEnd.Proofs.Check.Judgement
import MiddleEnd.Proofs.Ty.Alike

namespace MiddleEnd

/-- The type has no types as parts. -/
def Ty.isPlain : Ty → Bool
  | .array .. | .struct .. | .fn .. | .field .. => false
  | _ => true

mutual

/-- The second type is the first but for complete parts that were lost. -/
def Ty.Fades : Ty → Ty → Prop
  | a, .error _ => a.complete = true
  | .array r x m, .array s y n => r = s ∧ x.Fades y ∧ m = n
  | .struct r name fields, .struct s name' fields' => r = s ∧ name = name' ∧ fields.Fades fields'
  | .fn r params result, .fn s params' result' => r = s ∧ params.Fades params' ∧ result.Fades result'
  | .field r name x, .field s name' y => r = s ∧ name = name' ∧ x.Fades y
  | a, b => a = b

/-- Members of the same names whose types fade. -/
def Members.Fades : Members → Members → Prop
  | .nil, .nil => True
  | .cons name type rest, .cons name' type' rest' =>
    name = name' ∧ type.Fades type' ∧ rest.Fades rest'
  | _, _ => False

end

theorem Ty.fades_error_iff {a : Ty} {r : IrId} : a.Fades (.error r) ↔ a.complete = true := by
  cases a <;> exact Iff.rfl

theorem Ty.Fades.infer (r : IrId) : (Ty.infer r).Fades (.infer r) := rfl

mutual

theorem Ty.Fades.refl : ∀ {a : Ty}, a.complete = true → a.Fades a := by
  intro a h
  cases a with
  | error r => exact h
  | array r x m => exact ⟨rfl, Ty.Fades.refl (a := x) h, rfl⟩
  | struct r name fields => exact ⟨rfl, rfl, Members.Fades.refl (a := fields) h⟩
  | fn r params result =>
    unfold Ty.complete at h
    rw [Bool.and_eq_true] at h
    exact ⟨rfl, Members.Fades.refl h.1, Ty.Fades.refl h.2⟩
  | field r name x => exact ⟨rfl, rfl, Ty.Fades.refl (a := x) h⟩
  | _ => rfl

theorem Members.Fades.refl : ∀ {a : Members}, a.complete = true → a.Fades a := by
  intro a h
  cases a with
  | nil => trivial
  | cons name type rest =>
    unfold Members.complete at h
    rw [Bool.and_eq_true] at h
    exact ⟨rfl, Ty.Fades.refl h.1, Members.Fades.refl h.2⟩

end

theorem Ty.Fades.array {r : IrId} {a b : Ty} {n : Nat} (h : a.Fades b) :
    (Ty.array r a n).Fades (.array r b n) := ⟨rfl, h, rfl⟩

theorem Ty.Fades.field {r : IrId} {name : String} {a b : Ty} (h : a.Fades b) :
    (Ty.field r name a).Fades (.field r name b) := ⟨rfl, rfl, h⟩

/-! ## What a type fades to -/

section

variable {r : IrId} {t : Ty}

theorem Ty.Fades.infer_iff : (Ty.infer r).Fades t ↔ t = .infer r := by
  constructor
  · intro h
    cases t with
    | error s => cases h
    | _ => exact Eq.symm h
  · rintro rfl
    exact .infer r

theorem Ty.Fades.isInfer_eq {a : Ty} (h : a.Fades t) : t.isInfer = a.isInfer := by
  cases t with
  | error s => exact (Ty.isInfer_eq_false (Ty.fades_error_iff.1 h)).symm
  | infer s =>
    cases a with
    | infer r => rfl
    | _ => cases h
  | _ =>
    cases a with
    | infer r => cases h
    | _ => rfl

variable (he : t.isError = false)
include he

/-- A type without parts is lost as a whole or not at all. -/
theorem Ty.Fades.eq_of_plain {a : Ty} (hp : a.isPlain = true) (h : a.Fades t) : t = a := by
  cases a with
  | array | struct | fn | field => cases hp
  | _ =>
    cases t with
    | error s => cases he
    | _ => exact Eq.symm h

theorem Ty.Fades.of_array {x : Ty} {n : Nat} (h : (Ty.array r x n).Fades t) :
    ∃ y, t = .array r y n ∧ x.Fades y := by
  cases t with
  | error s => cases he
  | array s y m =>
    obtain ⟨rfl, hxy, rfl⟩ := h
    exact ⟨y, rfl, hxy⟩
  | _ => cases h

theorem Ty.Fades.of_struct {name : String} {fields : Members}
    (h : (Ty.struct r name fields).Fades t) :
    ∃ fields', t = .struct r name fields' ∧ fields.Fades fields' := by
  cases t with
  | error s => cases he
  | struct s name' fields' =>
    obtain ⟨rfl, rfl, hf⟩ := h
    exact ⟨fields', rfl, hf⟩
  | _ => cases h

theorem Ty.Fades.of_fn {params : Members} {result : Ty} (h : (Ty.fn r params result).Fades t) :
    ∃ params' result', t = .fn r params' result' ∧ params.Fades params' ∧ result.Fades result' := by
  cases t with
  | error s => cases he
  | fn s params' result' =>
    obtain ⟨rfl, hp, hr⟩ := h
    exact ⟨params', result', rfl, hp, hr⟩
  | _ => cases h

theorem Ty.Fades.of_field {name : String} {x : Ty} (h : (Ty.field r name x).Fades t) :
    ∃ y, t = .field r name y ∧ x.Fades y := by
  cases t with
  | error s => cases he
  | field s name' y =>
    obtain ⟨rfl, rfl, hxy⟩ := h
    exact ⟨y, rfl, hxy⟩
  | _ => cases h

end

/-! ## Members -/

namespace Members.Fades

variable {b : Members}

theorem of_nil (h : Members.nil.Fades b) : b = .nil := by
  cases b with
  | nil => rfl
  | cons => cases h

theorem of_cons {name : String} {x : Ty} {rest : Members}
    (h : (Members.cons name x rest).Fades b) :
    ∃ y rest', b = .cons name y rest' ∧ x.Fades y ∧ rest.Fades rest' := by
  cases b with
  | nil => cases h
  | cons name' y rest' =>
    obtain ⟨rfl, hxy, hr⟩ := h
    exact ⟨y, rest', rfl, hxy, hr⟩

theorem length_eq : ∀ {a b : Members}, a.Fades b → b.length = a.length
  | .nil, _, h => by rw [h.of_nil]
  | .cons name x rest, _, h => by
    obtain ⟨y, rest', rfl, _, hr⟩ := h.of_cons
    exact congrArg (· + 1) hr.length_eq

theorem names_eq : ∀ {a b : Members}, a.Fades b → b.names = a.names
  | .nil, _, h => by rw [h.of_nil]
  | .cons name x rest, _, h => by
    obtain ⟨y, rest', rfl, _, hr⟩ := h.of_cons
    exact congrArg (name :: ·) hr.names_eq

theorem find? {name : String} {ty : Ty} : ∀ {a b : Members}, a.Fades b →
    a.find? name = some ty → ∃ ty', b.find? name = some ty' ∧ ty.Fades ty'
  | .nil, _, _, h => by cases h
  | .cons n x rest, _, hf, h => by
    obtain ⟨y, rest', rfl, hxy, hr⟩ := hf.of_cons
    unfold Members.find? at h ⊢
    rw [toList, List.find?_cons] at h ⊢
    dsimp only at h ⊢
    split at h
    · cases h
      exact ⟨y, rfl, hxy⟩
    · exact hr.find? h

end Members.Fades

/-! ## Combining -/

theorem Ty.Settles.of_isError_left {a b : Ty} (h : a.isError = true) : a.Settles b a := by
  cases a with
  | error r => exact .errorLeft r b
  | _ => cases h

theorem Ty.Settles.of_isError_right {a b : Ty} (ha : a.isError = false) (h : b.isError = true) :
    a.Settles b b := by
  cases b with
  | error r => exact .errorRight r ha
  | _ => cases h

theorem Ty.Fades.of_isError {a t : Ty} (ha : a.complete = true) (ht : t.isError = true) :
    a.Fades t := by
  cases t with
  | error r => exact Ty.fades_error_iff.2 ha
  | _ => cases ht

/-- The unsettled type takes a faded type as it is. -/
theorem Ty.Fades.combine?_infer {r : IrId} {b b' c : Ty} (h : b.Fades b') (hb : b.complete = true)
    (hc : (Ty.infer r).combine? b = some c) :
    ∃ c', (Ty.infer r).combine? b' = some c' ∧ c.Fades c' := by
  cases Ty.combine?_infer (Ty.isError_eq_false hb) hc
  have hb' : (Ty.infer r).Settles b' b' := by
    rcases he : b'.isError with _ | _
    · exact .inferLeft r he
    · exact .of_isError_right rfl he
  exact ⟨b', hb'.combine?_eq, h⟩

mutual

theorem Ty.Settles.fade : ∀ {a b c : Ty}, a.Settles b c → ∀ ⦃a' b' : Ty⦄, a.complete = true →
    b.complete = true → a.Fades a' → b.Fades b' → ∃ c', a'.Settles b' c' ∧ c.Fades c' := by
  intro a b c h a' b' ha hb hfa hfb
  have hc : c = a := (h.complete ha hb).1
  rcases hea : a'.isError with _ | _
  case true => exact ⟨a', .of_isError_left hea, hc ▸ hfa⟩
  rcases heb : b'.isError with _ | _
  case true => exact ⟨b', .of_isError_right hea heb, .of_isError (hc ▸ ha) heb⟩
  -- neither side is lost as a whole, so both keep their form
  cases h with
  | errorLeft | inferLeft => cases ha
  | errorRight | inferRight => cases hb
  | array r s n hxy =>
    obtain ⟨x', rfl, hx⟩ := hfa.of_array hea
    obtain ⟨y', rfl, hy⟩ := hfb.of_array heb
    obtain ⟨z', hz', hz⟩ := hxy.fade ha hb hx hy
    exact ⟨_, .array r s n hz', hz.array⟩
  | struct r name name' fields fields' =>
    obtain ⟨gs, rfl, hg⟩ := hfa.of_struct hea
    obtain ⟨gs', rfl, hg'⟩ := hfb.of_struct heb
    exact ⟨_, .struct r name name' gs gs', hfa⟩
  | fn r s hps hxy =>
    unfold Ty.complete at ha hb
    rw [Bool.and_eq_true] at ha hb
    obtain ⟨ps', x', rfl, hp, hx⟩ := hfa.of_fn hea
    obtain ⟨qs', y', rfl, hq, hy⟩ := hfb.of_fn heb
    obtain ⟨ms', hms', hms⟩ := hps.fade ha.1 hb.1 hp hq
    obtain ⟨z', hz', hz⟩ := hxy.fade ha.2 hb.2 hx hy
    exact ⟨_, .fn r s hms' hz', rfl, hms, hz⟩
  | field r s name hxy =>
    obtain ⟨x', rfl, hx⟩ := hfa.of_field hea
    obtain ⟨y', rfl, hy⟩ := hfb.of_field heb
    obtain ⟨z', hz', hz⟩ := hxy.fade ha hb hx hy
    exact ⟨_, .field r s name hz', hz.field⟩
  | _ =>
    rw [hfa.eq_of_plain hea rfl, hfb.eq_of_plain heb rfl]
    exact ⟨_, by constructor, .refl ha⟩
termination_by structural a _ _ _ => a

theorem Members.Settles.fade : ∀ {a b c : Members}, a.Settles b c → ∀ ⦃a' b' : Members⦄,
    a.complete = true → b.complete = true → a.Fades a' → b.Fades b' →
    ∃ c', a'.Settles b' c' ∧ c.Fades c' := by
  intro a b c h a' b' ha hb hfa hfb
  cases h with
  | nil =>
    rw [hfa.of_nil, hfb.of_nil]
    exact ⟨_, .nil, trivial⟩
  | cons m n hxy hps =>
    obtain ⟨x', ps', rfl, hx, hp⟩ := hfa.of_cons
    obtain ⟨y', qs', rfl, hy, hq⟩ := hfb.of_cons
    unfold Members.complete at ha hb
    rw [Bool.and_eq_true] at ha hb
    obtain ⟨z', hz', hz⟩ := hxy.fade ha.1 hb.1 hx hy
    obtain ⟨ms', hms', hms⟩ := hps.fade ha.2 hb.2 hp hq
    exact ⟨_, .cons m n hz' hms', rfl, hz, hms⟩
termination_by structural a _ _ _ => a

end

/-- What combines still combines when parts are lost on either side. -/
theorem Ty.Fades.combine? {a b a' b' c : Ty} (hfa : a.Fades a') (ha : a.complete = true)
    (hb : b.complete = true) (hfb : b.Fades b') (h : a.combine? b = some c) :
    ∃ c', a'.combine? b' = some c' ∧ c.Fades c' := by
  simp only [combine?_eq_some_iff] at h ⊢
  exact h.fade ha hb hfa hfb

theorem Ty.Fades.combineAll? {tys tys' : List Ty} (h : List.Forall₂ Ty.Fades tys tys')
    (hall : ∀ ty ∈ tys, ty.complete = true) {a a' c : Ty} (ha : a.complete = true)
    (hf : a.Fades a') (hc : a.combineAll? tys = some c) :
    ∃ c', a'.combineAll? tys' = some c' ∧ c.Fades c' := by
  induction h generalizing a a' with
  | nil =>
    cases hc
    exact ⟨a', rfl, hf⟩
  | @cons ty ty' tys tys' hty _ ih =>
    obtain ⟨x, hx, hrest⟩ := Option.bind_eq_some_iff.1 hc
    have hty' := hall ty (List.mem_cons_self ..)
    obtain ⟨x', hx', hfx⟩ := hf.combine? ha hty' hty hx
    have hcx : x.complete = true := (Ty.combine?_complete ha hty' hx).1 ▸ ha
    obtain ⟨c', hc', hfc⟩ :=
      ih (fun t hm => hall t (List.mem_cons_of_mem _ hm)) hcx hfx hrest
    exact ⟨c', Option.bind_eq_some_iff.2 ⟨x', hx', hc'⟩, hfc⟩

end MiddleEnd
