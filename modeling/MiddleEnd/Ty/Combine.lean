/-
  Reconciling two types. The error type absorbs every other, the unsettled type takes the other
  side, and all remaining types must agree in kind: scalars exactly, arrays at equal capacity with
  elements that combine, struct types and generic parameters by identity, functions of equal arity
  parameter by parameter. What both sides agree on is taken from the left.

  A failure says nothing about where inside the types it arose: it names the two whole types.

  The rules by which two types settle on a third say the same as a relation (`Ty.Settles`).
-/
import MiddleEnd.Ty.Basic

namespace MiddleEnd

mutual

/-- The type both sides settle on, if there is one. -/
def Ty.combine? (a b : Ty) : Option Ty :=
  if a.isError then some a
  else if b.isError then some b
  else if a.isInfer then some b
  else if b.isInfer then some a
  else
    match a, b with
    | .unit r, .unit _ => some (.unit r)
    | .bool r, .bool _ => some (.bool r)
    | .int r v, .int _ w => if v = w then some (.int r v) else none
    | .uint r v, .uint _ w => if v = w then some (.uint r v) else none
    | .float r v, .float _ w => if v = w then some (.float r v) else none
    | .array r x m, .array _ y n => if m = n then (x.combine? y).map (.array r · m) else none
    | .struct r name fields, .struct s _ _ => if r = s then some (.struct r name fields) else none
    | .generic r symbol, .generic s _ => if r = s then some (.generic r symbol) else none
    | .fn r ps x, .fn _ qs y =>
      match ps.combine? qs, x.combine? y with
      | some params, some result => some (.fn r params result)
      | _, _ => none
    | .field r m x, .field _ n y => if m = n then (x.combine? y).map (.field r m ·) else none
    | _, _ => none

/-- Members combined one by one, under the names of the left side; both sides must be equally
long. -/
def Members.combine? (a b : Members) : Option Members :=
  match a, b with
  | .nil, .nil => some .nil
  | .cons m x ps, .cons _ y qs =>
    match x.combine? y, ps.combine? qs with
    | some type, some rest => some (.cons m type rest)
    | _, _ => none
  | _, _ => none

end

/-! ## Rules

What combining does, as a relation with one rule for each way in which two types settle. Proofs
about types that combine go by these rules. -/

mutual

/-- The first two types settle on the third. -/
inductive Ty.Settles : Ty → Ty → Ty → Prop
  | errorLeft (r : IrId) (b : Ty) : Ty.Settles (.error r) b (.error r)
  | errorRight {a : Ty} (r : IrId) : a.isError = false → Ty.Settles a (.error r) (.error r)
  | inferLeft {b : Ty} (r : IrId) : b.isError = false → Ty.Settles (.infer r) b b
  | inferRight {a : Ty} (r : IrId) : a.isError = false → a.isInfer = false →
    Ty.Settles a (.infer r) a
  | unit (r s : IrId) : Ty.Settles (.unit r) (.unit s) (.unit r)
  | bool (r s : IrId) : Ty.Settles (.bool r) (.bool s) (.bool r)
  | int (r s : IrId) (w : IntWidth) : Ty.Settles (.int r w) (.int s w) (.int r w)
  | uint (r s : IrId) (w : IntWidth) : Ty.Settles (.uint r w) (.uint s w) (.uint r w)
  | float (r s : IrId) (w : FloatWidth) : Ty.Settles (.float r w) (.float s w) (.float r w)
  | struct (r : IrId) (name name' : String) (fields fields' : Members) :
    Ty.Settles (.struct r name fields) (.struct r name' fields') (.struct r name fields)
  | generic (r : IrId) (symbol symbol' : String) :
    Ty.Settles (.generic r symbol) (.generic r symbol') (.generic r symbol)
  | array {x y z : Ty} (r s : IrId) (n : Nat) :
    Ty.Settles x y z → Ty.Settles (.array r x n) (.array s y n) (.array r z n)
  | field {x y z : Ty} (r s : IrId) (name : String) :
    Ty.Settles x y z → Ty.Settles (.field r name x) (.field s name y) (.field r name z)
  | fn {ps qs ms : Members} {x y z : Ty} (r s : IrId) :
    Members.Settles ps qs ms → Ty.Settles x y z →
      Ty.Settles (.fn r ps x) (.fn s qs y) (.fn r ms z)

/-- Equally many members that settle one by one, under the names of the left side. -/
inductive Members.Settles : Members → Members → Members → Prop
  | nil : Members.Settles .nil .nil .nil
  | cons {x y z : Ty} {ps qs ms : Members} (m n : String) :
    Ty.Settles x y z → Members.Settles ps qs ms →
      Members.Settles (.cons m x ps) (.cons n y qs) (.cons m z ms)

end

mutual

theorem Ty.settles_of_combine? : ∀ {a b c : Ty}, a.combine? b = some c → a.Settles b c := by
  intro a b c h
  unfold Ty.combine? at h
  split at h
  case isTrue he =>
    cases h
    cases a with
    | error r => exact .errorLeft r b
    | _ => cases he
  case isFalse ha =>
  split at h
  case isTrue he =>
    cases h
    cases b with
    | error r => exact .errorRight r (eq_false_of_ne_true ha)
    | _ => cases he
  case isFalse hb =>
  split at h
  case isTrue hi =>
    cases h
    cases a with
    | infer r => exact .inferLeft r (eq_false_of_ne_true hb)
    | _ => cases hi
  case isFalse ia =>
  split at h
  case isTrue hi =>
    cases h
    cases b with
    | infer r => exact .inferRight r (eq_false_of_ne_true ha) (eq_false_of_ne_true ia)
    | _ => cases hi
  case isFalse ib =>
  split at h
  case h_1 | h_2 =>
    cases h
    constructor
  case h_3 | h_4 | h_5 | h_7 | h_8 =>
    split at h
    · rename_i he
      cases he
      cases h
      constructor
    · cases h
  case h_6 r x m s y n =>
    split at h
    · rename_i hm
      cases hm
      obtain ⟨z, hz, rfl⟩ := Option.map_eq_some_iff.1 h
      exact .array r s m (Ty.settles_of_combine? hz)
    · cases h
  case h_9 r ps x s qs y =>
    split at h
    · rename_i params result hps hx
      cases h
      exact .fn r s (Members.settles_of_combine? hps) (Ty.settles_of_combine? hx)
    · cases h
  case h_10 r m x s n y =>
    split at h
    · rename_i hm
      cases hm
      obtain ⟨z, hz, rfl⟩ := Option.map_eq_some_iff.1 h
      exact .field r s m (Ty.settles_of_combine? hz)
    · cases h
  case h_11 => cases h

theorem Members.settles_of_combine? : ∀ {a b c : Members}, a.combine? b = some c →
    a.Settles b c := by
  intro a b c h
  unfold Members.combine? at h
  split at h
  · cases h
    exact .nil
  · rename_i m x ps n y qs
    split at h
    · rename_i type rest hx hr
      cases h
      exact .cons m n (Ty.settles_of_combine? hx) (Members.settles_of_combine? hr)
    · cases h
  · cases h

end

mutual

theorem Ty.Settles.combine?_eq : ∀ {a b c : Ty}, a.Settles b c → a.combine? b = some c := by
  intro a b c h
  unfold Ty.combine?
  cases h with
  | errorLeft r b => rfl
  | errorRight r ha =>
    rw [ha]
    rfl
  | inferLeft r hb =>
    rw [hb]
    rfl
  | inferRight r ha hi =>
    rw [ha, hi]
    rfl
  | array r s n hx => simp [Ty.isError, Ty.isInfer, hx.combine?_eq]
  | field r s name hx => simp [Ty.isError, Ty.isInfer, hx.combine?_eq]
  | fn r s hps hx => simp [Ty.isError, Ty.isInfer, hps.combine?_eq, hx.combine?_eq]
  | _ => simp [Ty.isError, Ty.isInfer]

theorem Members.Settles.combine?_eq : ∀ {a b c : Members}, a.Settles b c →
    a.combine? b = some c := by
  intro a b c h
  cases h with
  | nil => rfl
  | cons m n hx hps => rw [Members.combine?, hx.combine?_eq, hps.combine?_eq]

end

theorem Ty.combine?_eq_some_iff {a b c : Ty} : a.combine? b = some c ↔ a.Settles b c :=
  ⟨settles_of_combine?, Settles.combine?_eq⟩

theorem Ty.Settles.unique {a b c d : Ty} (h : a.Settles b c) (k : a.Settles b d) : c = d :=
  Option.some.inj (h.combine?_eq.symm.trans k.combine?_eq)

/-- Two types that do not combine. -/
structure Mismatch where
  expected : Ty
  got : Ty
  deriving DecidableEq, Repr

namespace Mismatch

def expectedText (m : Mismatch) : String := m.expected.text

def gotText (m : Mismatch) : String := m.got.text

def text (m : Mismatch) : String := s!"expected [{m.expectedText}] got [{m.gotText}]"

end Mismatch

/-- The type both sides settle on, or the two types if there is none. -/
def Ty.combine (a b : Ty) : Except Mismatch Ty :=
  match a.combine? b with
  | some t => .ok t
  | none => .error ⟨a, b⟩

/-! ## Steps

Combining two types combines their parts first. The steps list every combination that succeeded on
the way, innermost first, also those inside a combination that fails in the end. -/

/-- Two types and what they were combined to. -/
structure CombineStep where
  left : Ty
  right : Ty
  result : Ty
  deriving DecidableEq, Repr

mutual

/-- The successful combinations within `a` and `b`, that of `a` and `b` themselves last. -/
def Ty.combineSteps (a b : Ty) : List CombineStep :=
  let inner :=
    if a.isError || b.isError || a.isInfer || b.isInfer then []
    else
      match a, b with
      | .array _ x m, .array _ y n => if m = n then x.combineSteps y else []
      | .fn _ ps x, .fn _ qs y =>
        if ps.length = qs.length then
          ps.combineSteps qs ++ (if (ps.combine? qs).isSome then x.combineSteps y else [])
        else []
      | .field _ m x, .field _ n y => if m = n then x.combineSteps y else []
      | _, _ => []
  match a.combine? b with
  | some t => inner ++ [⟨a, b, t⟩]
  | none => inner

/-- The successful combinations of members, up to the first pair that does not combine. -/
def Members.combineSteps (a b : Members) : List CombineStep :=
  match a, b with
  | .cons _ x ps, .cons _ y qs =>
    x.combineSteps y ++ (if (x.combine? y).isSome then ps.combineSteps qs else [])
  | _, _ => []

end

/-! ## Folding -/

/-- What combining a list of types from the left gives after each of them, starting from `acc`, up
to the first failure. -/
def Ty.combineScan (acc : Ty) : List Ty → List (Except Mismatch Ty)
  | [] => []
  | t :: rest =>
    match acc.combine t with
    | .ok next => .ok next :: next.combineScan rest
    | .error m => [.error m]

end MiddleEnd
