/-
  The two forms in which the text of a unit spells a record, and how the fields of either are read.

  In the object form the fields stand under their names in any order, at most once each, and other
  names are passed over. In the array form the fields stand in the order of the declaration, and
  only fields with a default may be cut off at the end.

  A reader gets the number of nested lists and objects that are still allowed, so that recursion
  over a document goes down on that number.
-/
import MiddleEnd.Json.Basic

namespace MiddleEnd.UnitText

/-- Lists and objects of a unit may stand inside each other this often. -/
def nestingLimit : Nat := 127

/-- What a record holds for one of its fields. -/
inductive Slot
  | given (value : Json)
  /-- Left out of an object. -/
  | absent
  /-- Beyond the end of an array. -/
  | cut

namespace Slot

variable {α : Type}

/-- A field that must be there. -/
def required (read : Json → Option α) : Slot → Option α
  | given v => read v
  | _ => none

/-- A field that may be `null` and may be left out of an object, but not of an array. -/
def optional (read : Json → Option α) : Slot → Option (Option α)
  | given .null => some none
  | given v => (read v).map some
  | absent => some none
  | cut => none

/-- A field that has this value where it is left out. -/
def withDefault (default : α) (read : Json → Option α) : Slot → Option α
  | given v => read v
  | _ => some default

end Slot

/-- Whether every key is text and none of `names` stands there twice. -/
def keysOk (names : List String) (entries : List (Option String × Json)) : Bool :=
  entries.all (·.1.isSome) &&
    names.all fun name => entries.countP (·.1 == some name) ≤ 1

/-- The fields of a record with these field names, from either form. -/
def record (names : List String) : Json → Option (String → Slot)
  | .obj entries =>
    if keysOk names entries then
      some fun name =>
        match entries.find? (·.1 == some name) with
        | some (_, v) => .given v
        | none => .absent
    else none
  | .arr values =>
    if values.length ≤ names.length then
      some fun name =>
        match values[names.idxOf name]? with
        | some v => .given v
        | none => .cut
    else none
  | _ => none

/-- The elements of a list. -/
def elements {α : Type} (read : Json → Option α) : Json → Option (List α)
  | .arr values => values.mapM read
  | _ => none

/-- The name of a variant without content, spelled alone or as an object around `null`; the object
needs a level of nesting. -/
def bareVariant (levels : Nat) : Json → Option String
  | .str s => s
  | .obj [(some name, .null)] => if levels = 0 then none else some name
  | _ => none

/-- The name and the content of a variant with content. -/
def variant : Json → Option (String × Json)
  | .obj [(some name, content)] => some (name, content)
  | _ => none

/-! ## Scalars -/

def text : Json → Option String := Json.text?

def flag : Json → Option Bool := Json.bool?

def word32 (j : Json) : Option UInt32 :=
  j.nat?.bind fun n => if n < UInt32.size then some (UInt32.ofNat n) else none

def word64 (j : Json) : Option UInt64 :=
  j.nat?.bind fun n => if n < UInt64.size then some (UInt64.ofNat n) else none

end MiddleEnd.UnitText
