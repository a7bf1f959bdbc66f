/-
  JSON documents as far as this library reads and writes them: natural numbers, text, lists and
  objects with their keys in order. What no document of ours holds, such as fractions or text with
  half a surrogate pair, is kept as a mark: it may stand where a reader looks past it, and nowhere
  else.
-/

namespace MiddleEnd

/-- A JSON document. In place of text, `none` stands for a string that is no Unicode text because
its escapes leave a surrogate without its partner. -/
inductive Json
  | null
  | bool (value : Bool)
  /-- A number of digits only. -/
  | nat (value : Nat)
  /-- Any other number: signed, or with a fraction or an exponent. -/
  | otherNumber
  | str (text : Option String)
  | arr (items : List Json)
  | obj (entries : List (Option String × Json))

namespace Json

/-- A string that is Unicode text. -/
def text (s : String) : Json := .str (some s)

/-- An object whose keys are Unicode text. -/
def object (entries : List (String × Json)) : Json :=
  .obj (entries.map fun (key, value) => (some key, value))

/-- The document, or `null` where there is none. -/
def ofOption {α : Type} (f : α → Json) : Option α → Json
  | none => .null
  | some a => f a

/-- The value under a key of an object; the last one if the key stands there more than once. -/
def get? (j : Json) (key : String) : Option Json :=
  match j with
  | .obj entries => (entries.reverse.find? (·.1 == some key)).map (·.2)
  | _ => none

def bool? : Json → Option Bool
  | .bool b => some b
  | _ => none

def nat? : Json → Option Nat
  | .nat n => some n
  | _ => none

def text? : Json → Option String
  | .str s => s
  | _ => none

def items? : Json → Option (List Json)
  | .arr items => some items
  | _ => none

end Json

end MiddleEnd
