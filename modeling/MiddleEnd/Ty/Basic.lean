/-
  Types as the checker knows them. A type carries the identity of the node that defines it; the
  identity decides equality of struct types and generic parameters, and for all others it only
  says where a compiled counterpart is found.

  `Ty.same` is the equality the checker works with: structural, by identity for struct types and
  generic parameters, and with the names of function parameters and fields counting.
-/
import MiddleEnd.Identity

namespace MiddleEnd

inductive IntWidth
  | w8 | w16 | w32 | w64 | w128
  deriving DecidableEq, Repr

inductive FloatWidth
  | w32 | w64
  deriving DecidableEq, Repr

def IntWidth.bits : IntWidth → Nat
  | .w8 => 8
  | .w16 => 16
  | .w32 => 32
  | .w64 => 64
  | .w128 => 128

def FloatWidth.bits : FloatWidth → Nat
  | .w32 => 32
  | .w64 => 64

mutual

inductive Ty
  /-- The type of what could not be typed; it goes with every other type. -/
  | error (ref : IrId)
  | unit (ref : IrId)
  /-- Not known yet; combining it with another type settles it. -/
  | infer (ref : IrId)
  | bool (ref : IrId)
  | int (ref : IrId) (width : IntWidth)
  | uint (ref : IrId) (width : IntWidth)
  | float (ref : IrId) (width : FloatWidth)
  | array (ref : IrId) (element : Ty) (capacity : Nat)
  | struct (ref : IrId) (name : String) (fields : Members)
  | fn (ref : IrId) (params : Members) (result : Ty)
  /-- The type of a field declaration. -/
  | field (ref : IrId) (name : String) (type : Ty)
  | generic (ref : IrId) (symbol : String)
  deriving DecidableEq, Repr

/-- Types with names, in order: the fields of a struct, the parameters of a function. -/
inductive Members
  | nil
  | cons (name : String) (type : Ty) (rest : Members)
  deriving DecidableEq, Repr

end

namespace Members

def toList : Members → List (String × Ty)
  | nil => []
  | cons name type rest => (name, type) :: rest.toList

def ofList : List (String × Ty) → Members
  | [] => nil
  | (name, type) :: rest => cons name type (ofList rest)

@[simp] theorem toList_ofList (l : List (String × Ty)) : (ofList l).toList = l := by
  induction l with
  | nil => rfl
  | cons m l ih => simp [ofList, toList, ih]

@[simp] theorem ofList_toList : ∀ m : Members, ofList m.toList = m
  | nil => rfl
  | cons name type rest => by simp [ofList, toList, ofList_toList rest]

def length (m : Members) : Nat := m.toList.length

/-- The type of the first member of that name. -/
def find? (m : Members) (name : String) : Option Ty :=
  (m.toList.find? (·.1 == name)).map (·.2)

theorem mem_of_find? {ms : Members} {name : String} {ty : Ty} (h : ms.find? name = some ty) :
    (name, ty) ∈ ms.toList := by
  obtain ⟨m, hm, rfl⟩ := Option.map_eq_some_iff.1 h
  have hname : m.1 = name := by simpa using List.find?_some hm
  exact hname ▸ List.mem_of_find?_eq_some hm

section

variable {P : Members → Prop} {Q : Ty → Prop}

/-- What members have only if their first type has `Q` and the others have it as well gives every
type of theirs `Q`. -/
theorem of_mem (hcons : ∀ {name type rest}, P (cons name type rest) → Q type ∧ P rest)
    {m : String × Ty} : ∀ {ms : Members}, P ms → m ∈ ms.toList → Q m.2
  | nil, _, h => absurd h List.not_mem_nil
  | cons name type rest, hms, h => by
    obtain ⟨htype, hrest⟩ := hcons hms
    rcases List.mem_cons.1 h with rfl | h
    · exact htype
    · exact of_mem hcons hrest h

theorem of_find? (hcons : ∀ {name type rest}, P (cons name type rest) → Q type ∧ P rest)
    {ms : Members} {name : String} {ty : Ty} (hms : P ms) (h : ms.find? name = some ty) : Q ty :=
  of_mem hcons hms (mem_of_find? h)

end

end Members

namespace Ty

/-- The identity of the node that defines the type. -/
def ref : Ty → IrId
  | error r | unit r | infer r | bool r => r
  | int r _ | uint r _ | float r _ => r
  | array r _ _ => r
  | struct r _ _ => r
  | fn r _ _ => r
  | field r _ _ => r
  | generic r _ => r

def isError : Ty → Bool
  | error _ => true
  | _ => false

def isUnit : Ty → Bool
  | unit _ => true
  | _ => false

def isInfer : Ty → Bool
  | infer _ => true
  | _ => false

/-- Element type and capacity of an array type. -/
def array? : Ty → Option (Ty × Nat)
  | array _ element capacity => some (element, capacity)
  | _ => none

/-- Parameters and result of a function type. -/
def fn? : Ty → Option (Members × Ty)
  | fn _ params result => some (params, result)
  | _ => none

/-- Name and fields of a struct type. -/
def struct? : Ty → Option (String × Members)
  | struct _ name fields => some (name, fields)
  | _ => none

end Ty

/-! ## Text -/

mutual

/-- The type as messages show it. -/
def Ty.text : Ty → String
  | .error _ => "<error>"
  | .unit _ => "()"
  | .infer _ => "_"
  | .bool _ => "bool"
  | .int _ w => s!"i{w.bits}"
  | .uint _ w => s!"u{w.bits}"
  | .float _ w => s!"f{w.bits}"
  | .array _ element capacity => s!"[{element.text}; {capacity}]"
  | .struct _ name _ => name
  | .fn _ params result => s!"fn({params.text}) -> {result.text}"
  | .field _ name type => s!"{name}: {type.text}"
  | .generic _ symbol => symbol

/-- Members with a comma and a blank between them. -/
def Members.text : Members → String
  | .nil => ""
  | .cons name type .nil => s!"{name}: {type.text}"
  | .cons name type (.cons n t rest) => s!"{name}: {type.text}, {(Members.cons n t rest).text}"

end

/-! ## Equality -/

mutual

/-- The checker's equality of types. -/
def Ty.same (a b : Ty) : Bool :=
  match a, b with
  | .error _, .error _ => true
  | .unit _, .unit _ => true
  | .infer _, .infer _ => true
  | .bool _, .bool _ => true
  | .int _ v, .int _ w => v == w
  | .uint _ v, .uint _ w => v == w
  | .float _ v, .float _ w => v == w
  | .array _ x m, .array _ y n => x.same y && m == n
  | .struct r _ _, .struct s _ _ => r == s
  | .fn _ ps x, .fn _ qs y => ps.same qs && x.same y
  | .field _ m x, .field _ n y => m == n && x.same y
  | .generic r _, .generic s _ => r == s
  | _, _ => false

/-- Equal names and types, member by member. -/
def Members.same (a b : Members) : Bool :=
  match a, b with
  | .nil, .nil => true
  | .cons m x ps, .cons n y qs => m == n && x.same y && ps.same qs
  | _, _ => false

end

/-! ## Primitive types -/

/-- The types every program may name without declaring them. -/
inductive Primitive
  | int (width : IntWidth)
  | uint (width : IntWidth)
  | float (width : FloatWidth)
  | bool
  deriving DecidableEq, Repr

namespace Primitive

/-- All primitive types, in the order in which they get their identities. -/
def all : List Primitive :=
  [.uint .w8, .uint .w16, .uint .w32, .uint .w64, .uint .w128,
   .int .w8, .int .w16, .int .w32, .int .w64, .int .w128,
   .float .w32, .float .w64, .bool]

/-- The name a program calls the type by. -/
def name : Primitive → String
  | int w => s!"i{w.bits}"
  | uint w => s!"u{w.bits}"
  | float w => s!"f{w.bits}"
  | bool => "bool"

/-- The primitive type of that name. -/
def ofName? (name : String) : Option Primitive :=
  all.find? (·.name == name)

theorem mem_all (p : Primitive) : p ∈ all := by
  cases p with
  | int w => cases w <;> decide
  | uint w => cases w <;> decide
  | float w => cases w <;> decide
  | bool => decide

end Primitive

namespace Ty

def ofPrimitive (ref : IrId) : Primitive → Ty
  | .int w => int ref w
  | .uint w => uint ref w
  | .float w => float ref w
  | .bool => bool ref

/-- The name that stands for the unit type where primitive types are looked up by name. -/
def unitName : String := "()"

/-- The primitive or unit type of that name. -/
def ofName? (ref : IrId) (name : String) : Option Ty :=
  if name = unitName then some (unit ref) else (Primitive.ofName? name).map (ofPrimitive ref)

end Ty

end MiddleEnd
