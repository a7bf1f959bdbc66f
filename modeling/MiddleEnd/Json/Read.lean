/-
  From tokens to a document. The reader is an automaton over a stack of open lists and objects: one
  step per token, so reading is a fold over the tokens and documents may nest to any depth.
-/
import MiddleEnd.Json.Token

namespace MiddleEnd.Json

/-- A list or object that is still open; its finished parts stand last first. -/
inductive Frame
  | list (items : List Json)
  /-- An object and the key whose value is being read. -/
  | entry (entries : List (Option String × Json)) (key : Option String)

/-- What may come next, with the open lists and objects around it, innermost first. -/
inductive Reading
  | value (open_ : List Frame)
  /-- After an opening bracket. -/
  | firstItem (open_ : List Frame)
  /-- After an opening brace. -/
  | firstKey (open_ : List Frame)
  | key (entries : List (Option String × Json)) (open_ : List Frame)
  | colon (entries : List (Option String × Json)) (key : Option String) (open_ : List Frame)
  | after (value : Json) (open_ : List Frame)

/-- The first token of a value. -/
def startValue (open_ : List Frame) : Token → Option Reading
  | .null => some (.after .null open_)
  | .bool b => some (.after (.bool b) open_)
  | .nat n => some (.after (.nat n) open_)
  | .otherNumber => some (.after .otherNumber open_)
  | .str s => some (.after (.str s) open_)
  | .openArray => some (.firstItem open_)
  | .openObject => some (.firstKey open_)
  | _ => none

/-- One token. -/
def Reading.step (r : Reading) (t : Token) : Option Reading :=
  match r with
  | .value open_ => startValue open_ t
  | .firstItem open_ =>
    match t with
    | .closeArray => some (.after (.arr []) open_)
    | t => startValue (.list [] :: open_) t
  | .firstKey open_ =>
    match t with
    | .closeObject => some (.after (.obj []) open_)
    | .str k => some (.colon [] k open_)
    | _ => none
  | .key entries open_ =>
    match t with
    | .str k => some (.colon entries k open_)
    | _ => none
  | .colon entries k open_ =>
    match t with
    | .colon => some (.value (.entry entries k :: open_))
    | _ => none
  | .after v (.list items :: open_) =>
    match t with
    | .comma => some (.value (.list (v :: items) :: open_))
    | .closeArray => some (.after (.arr (v :: items).reverse) open_)
    | _ => none
  | .after v (.entry entries k :: open_) =>
    match t with
    | .comma => some (.key ((k, v) :: entries) open_)
    | .closeObject => some (.after (.obj ((k, v) :: entries).reverse) open_)
    | _ => none
  | .after _ [] => none

/-- The document that the tokens after a point complete. -/
def readFrom (r : Reading) : List Token → Option Json
  | [] =>
    match r with
    | .after v [] => some v
    | _ => none
  | t :: rest =>
    match r.step t with
    | some next => readFrom next rest
    | none => none

/-- The document a text spells, if it spells one. -/
def read (s : String) : Option Json := (scan s).bind (readFrom (.value []))

end MiddleEnd.Json
