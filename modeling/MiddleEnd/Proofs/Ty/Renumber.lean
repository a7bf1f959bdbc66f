/-
  Types under other numbers and names. The identities in a type decide nothing but whether struct
  types and generic parameters are the same, and the names of a function's parameters decide
  nothing. So under a renumbering that keeps identities apart types combine as before, whatever the
  parameters are called (`Ty.combine?_translate`). Messages show types as before if these names stay.
-/
import MiddleEnd.Diagnostic
import MiddleEnd.Proofs.Syntax.Translate

namespace MiddleEnd

variable (ρ : Renumbering)

mutual

def Ty.renumber : Ty → Ty
  | .error r => .error (ρ.ir r)
  | .unit r => .unit (ρ.ir r)
  | .infer r => .infer (ρ.ir r)
  | .bool r => .bool (ρ.ir r)
  | .int r w => .int (ρ.ir r) w
  | .uint r w => .uint (ρ.ir r) w
  | .float r w => .float (ρ.ir r) w
  | .array r element capacity => .array (ρ.ir r) element.renumber capacity
  | .struct r name fields => .struct (ρ.ir r) name fields.renumber
  | .fn r params result => .fn (ρ.ir r) params.renumber result.renumber
  | .field r name type => .field (ρ.ir r) name type.renumber
  | .generic r symbol => .generic (ρ.ir r) symbol

def Members.renumber : Members → Members
  | .nil => .nil
  | .cons name type rest => .cons name type.renumber rest.renumber

end

namespace Ty

@[simp] theorem ref_renumber (t : Ty) : (t.renumber ρ).ref = ρ.ir t.ref := by
  cases t <;> rfl

@[simp] theorem isUnit_renumber (t : Ty) : (t.renumber ρ).isUnit = t.isUnit := by
  cases t <;> rfl

@[simp] theorem isInfer_renumber (t : Ty) : (t.renumber ρ).isInfer = t.isInfer := by
  cases t <;> rfl

@[simp] theorem fn?_renumber (t : Ty) :
    (t.renumber ρ).fn? = t.fn?.map fun f => (f.1.renumber ρ, f.2.renumber ρ) := by
  cases t <;> rfl

@[simp] theorem struct?_renumber (t : Ty) :
    (t.renumber ρ).struct? = t.struct?.map fun s => (s.1, s.2.renumber ρ) := by
  cases t <;> rfl

@[simp] theorem renumber_ofPrimitive (r : IrId) (p : Primitive) :
    (ofPrimitive r p).renumber ρ = ofPrimitive (ρ.ir r) p := by
  cases p <;> rfl

end Ty

mutual

@[simp] theorem Ty.text_renumber : ∀ t : Ty, (t.renumber ρ).text = t.text
  | .error _ | .unit _ | .infer _ | .bool _ | .int _ _ | .uint _ _ | .float _ _
  | .struct _ _ _ | .generic _ _ => by simp only [Ty.renumber, Ty.text]
  | .array _ element _ => by simp only [Ty.renumber, Ty.text, element.text_renumber]
  | .fn _ params result => by
    simp only [Ty.renumber, Ty.text, params.text_renumber, result.text_renumber]
  | .field _ _ type => by simp only [Ty.renumber, Ty.text, type.text_renumber]

@[simp] theorem Members.text_renumber : ∀ m : Members, (m.renumber ρ).text = m.text
  | .nil => rfl
  | .cons _ type .nil => by simp only [Members.renumber, Members.text, type.text_renumber]
  | .cons _ type (.cons n t rest) => by
    have hrest := (Members.cons n t rest).text_renumber
    simp only [Members.renumber] at hrest
    simp only [Members.renumber, Members.text, type.text_renumber, hrest]

end

namespace Members

@[simp] theorem toList_renumber : ∀ m : Members,
    (m.renumber ρ).toList = m.toList.map fun x => (x.1, x.2.renumber ρ)
  | .nil => rfl
  | .cons name type rest => by simp only [renumber, toList, List.map_cons, toList_renumber rest]

end Members

/-! ## Other names for parameters -/

section

variable (ν : String → String)

mutual

/-- The type under other numbers, with other names for the parameters of functions. -/
def Ty.translate : Ty → Ty
  | .error r => .error (ρ.ir r)
  | .unit r => .unit (ρ.ir r)
  | .infer r => .infer (ρ.ir r)
  | .bool r => .bool (ρ.ir r)
  | .int r w => .int (ρ.ir r) w
  | .uint r w => .uint (ρ.ir r) w
  | .float r w => .float (ρ.ir r) w
  | .array r element capacity => .array (ρ.ir r) element.translate capacity
  | .struct r name fields => .struct (ρ.ir r) name (fields.translate id)
  | .fn r params result => .fn (ρ.ir r) (params.translate ν) result.translate
  | .field r name type => .field (ρ.ir r) name type.translate
  | .generic r symbol => .generic (ρ.ir r) symbol

/-- The members under other numbers, with `f` for their names. -/
def Members.translate (f : String → String) : Members → Members
  | .nil => .nil
  | .cons name type rest => .cons (f name) type.translate (rest.translate f)

end

@[simp] theorem Ty.isError_translate (t : Ty) : (t.translate ρ ν).isError = t.isError := by
  cases t <;> rfl

@[simp] theorem Ty.isInfer_translate (t : Ty) : (t.translate ρ ν).isInfer = t.isInfer := by
  cases t <;> rfl

namespace Members

@[simp] theorem toList_translate (f : String → String) : ∀ m : Members,
    (m.translate ρ ν f).toList = m.toList.map fun x => (f x.1, x.2.translate ρ ν)
  | .nil => rfl
  | .cons name type rest => by
    simp only [translate, toList, List.map_cons, toList_translate f rest]

@[simp] theorem length_translate (f : String → String) (m : Members) :
    (m.translate ρ ν f).length = m.length := by
  unfold length
  rw [toList_translate, List.length_map]

/-- The names of fields stay, so fields are found as before. -/
@[simp] theorem find?_translate (m : Members) (name : String) :
    (m.translate ρ ν id).find? name = (m.find? name).map (Ty.translate ρ ν) := by
  unfold find?
  rw [toList_translate, List.find?_map, Option.map_map, Option.map_map]
  rfl

end Members

mutual

theorem Ty.translate_id : ∀ t : Ty, t.translate ρ id = t.renumber ρ
  | .error _ | .unit _ | .infer _ | .bool _ | .int _ _ | .uint _ _ | .float _ _
  | .generic _ _ => rfl
  | .array _ element _ => by simp only [Ty.translate, Ty.renumber, element.translate_id]
  | .struct _ _ fields => by simp only [Ty.translate, Ty.renumber, fields.translate_id]
  | .fn _ params result => by
    simp only [Ty.translate, Ty.renumber, params.translate_id, result.translate_id]
  | .field _ _ type => by simp only [Ty.translate, Ty.renumber, type.translate_id]

theorem Members.translate_id (m : Members) : m.translate ρ id id = m.renumber ρ := by
  cases m with
  | nil => rfl
  | cons _ type rest =>
    simp only [Members.translate, Members.renumber, type.translate_id, rest.translate_id, id]

end

variable {ρ} {ν}

mutual

/-- Types combine as before, to the translated type. -/
theorem Ty.combine?_translate (hρ : Function.Injective ρ.ir) : ∀ a b : Ty,
    (a.translate ρ ν).combine? (b.translate ρ ν) = (a.combine? b).map (Ty.translate ρ ν) := by
  intro a b
  symm
  unfold Ty.combine?
  simp only [Ty.isError_translate, Ty.isInfer_translate]
  by_cases ha : a.isError = true
  · simp only [if_pos ha, Option.map_some]
  by_cases hb : b.isError = true
  · simp only [if_neg ha, if_pos hb, Option.map_some]
  by_cases ia : a.isInfer = true
  · simp only [if_neg ha, if_neg hb, if_pos ia, Option.map_some]
  by_cases ib : b.isInfer = true
  · simp only [if_neg ha, if_neg hb, if_neg ia, if_pos ib, Option.map_some]
  simp only [if_neg ha, if_neg hb, if_neg ia, if_neg ib]
  split
  case h_3 r v s w | h_4 r v s w | h_5 r v s w =>
    simp only [Ty.translate]
    split <;> rfl
  case h_6 r x m s y n =>
    simp only [Ty.translate, Ty.combine?_translate hρ x y]
    split
    · cases x.combine? y <;> rfl
    · rfl
  case h_7 r name fields s name' fields' =>
    simp only [Ty.translate, hρ.eq_iff]
    split <;> rfl
  case h_8 r symbol s symbol' =>
    simp only [Ty.translate, hρ.eq_iff]
    split <;> rfl
  case h_9 r ps x s qs y =>
    simp only [Ty.translate, Ty.combine?_translate hρ x y, Members.combine?_translate hρ ν ps qs]
    cases ps.combine? qs <;> cases x.combine? y <;> rfl
  case h_10 r m x s n y =>
    simp only [Ty.translate, Ty.combine?_translate hρ x y]
    split
    · cases x.combine? y <;> rfl
    · rfl
  case h_11 =>
    -- types of one form each have a case above, and no others combine
    cases a <;> cases b <;>
      first
        | rfl
        | exact absurd rfl ha
        | exact absurd rfl ia
        | exfalso
          solve_by_elim
  all_goals rfl

theorem Members.combine?_translate (hρ : Function.Injective ρ.ir) (f : String → String) :
    ∀ a b : Members, (a.translate ρ ν f).combine? (b.translate ρ ν f) =
      (a.combine? b).map (Members.translate ρ ν f) := by
  intro a b
  cases a with
  | nil => cases b <;> rfl
  | cons m x ps =>
    cases b with
    | nil => rfl
    | cons n y qs =>
      simp only [Members.translate, Members.combine?, Ty.combine?_translate hρ x y,
        Members.combine?_translate hρ f ps qs]
      cases x.combine? y <;> cases ps.combine? qs <;> rfl

end

end

/-! ## Causes -/

def Mismatch.renumber (m : Mismatch) : Mismatch := ⟨m.expected.renumber ρ, m.got.renumber ρ⟩

@[simp] theorem Mismatch.text_renumber (m : Mismatch) : (m.renumber ρ).text = m.text := by
  simp only [renumber, text, expectedText, gotText, Ty.text_renumber]

def Problem.renumber : Problem → Problem
  | .mismatch m => .mismatch (m.renumber ρ)
  | .notAFunction found => .notAFunction (found.renumber ρ)
  | .notAStruct found => .notAStruct (found.renumber ρ)
  | p => p

/-- Messages show no numbers of nodes. -/
@[simp] theorem Problem.message_renumber (p : Problem) : (p.renumber ρ).message = p.message := by
  cases p with
  | mismatch m => exact m.text_renumber ρ
  | notAFunction found =>
    exact congrArg (fun t => s!"expected a function type, found [{t}]") (found.text_renumber ρ)
  | notAStruct found =>
    exact congrArg (fun t => s!"expected a struct type, found [{t}]") (found.text_renumber ρ)
  | _ => rfl

def Diagnostic.renumber (d : Diagnostic) : Diagnostic := { d with problem := d.problem.renumber ρ }

def Defect.renumber : Defect → Defect
  | .indexType m => .indexType (m.renumber ρ)
  | .untypedNode id => .untypedNode (ρ.ir id)
  | .structLiteralType name found => .structLiteralType name (found.renumber ρ)
  | .structItemType name found => .structItemType name (found.renumber ρ)
  | .functionItemType name found => .functionItemType name (found.renumber ρ)
  | .notABuiltin found => .notABuiltin (found.renumber ρ)
  | .neverCompiled type => .neverCompiled (type.renumber ρ)
  | .notCompilable type => .notCompilable (type.renumber ρ)
  | d => d

def Fault.renumber : Fault → Fault
  | .fatal l p => .fatal l (p.renumber ρ)
  | .internal d => .internal (d.renumber ρ)
  | f => f

end MiddleEnd
