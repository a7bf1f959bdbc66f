/-
  Documents as text, in two layouts: compact, without any blanks, and indented by two blanks a
  level. Text is written with as few escapes as the format allows: quotes, backslashes and control
  characters only.
-/
import MiddleEnd.Json.Basic

namespace MiddleEnd.Json

/-- The hexadecimal digit of a value below 16. -/
def hexDigit (n : Nat) : Char :=
  if n < 10 then Char.ofNat ('0'.toNat + n) else Char.ofNat ('a'.toNat + (n - 10))

/-- A character as it stands between quotes. -/
def escape (c : Char) : List Char :=
  if c = '"' then ['\\', '"']
  else if c = '\\' then ['\\', '\\']
  else if c = '\x08' then ['\\', 'b']
  else if c = '\x0c' then ['\\', 'f']
  else if c = '\n' then ['\\', 'n']
  else if c = '\r' then ['\\', 'r']
  else if c = '\t' then ['\\', 't']
  else if c.toNat < 0x20 then
    ['\\', 'u', '0', '0', hexDigit (c.toNat / 16), hexDigit (c.toNat % 16)]
  else [c]

/-- Text in quotes. What is no text is written as half a surrogate pair, which reads back as no
text. -/
def quote : Option String → String
  | some s => "\"" ++ String.ofList (s.toList.flatMap escape) ++ "\""
  | none => "\"\\ud800\""

/-- Stands for every number that is not natural; it reads back as such a number. -/
def otherNumberText : String := "-0"

mutual

/-- The document without any blanks. -/
def compact : Json → String
  | .arr items => "[" ++ compactItems items ++ "]"
  | .obj entries => "\x7b" ++ compactEntries entries ++ "\x7d"
  | .null => "null"
  | .bool b => if b then "true" else "false"
  | .nat n => n.repr
  | .otherNumber => otherNumberText
  | .str s => quote s

def compactItems : List Json → String
  | [] => ""
  | [j] => compact j
  | j :: k :: rest => compact j ++ "," ++ compactItems (k :: rest)

def compactEntries : List (Option String × Json) → String
  | [] => ""
  | [(key, j)] => quote key ++ ":" ++ compact j
  | (key, j) :: e :: rest => quote key ++ ":" ++ compact j ++ "," ++ compactEntries (e :: rest)

end

/-- A new line, indented to a level. -/
def newline (level : Nat) : String := "\n" ++ String.ofList (List.replicate (2 * level) ' ')

mutual

/-- The document over several lines, inside `level` lists and objects. -/
def indented (level : Nat) : Json → String
  | .arr [] => "[]"
  | .arr items => "[" ++ indentedItems (level + 1) items ++ newline level ++ "]"
  | .obj [] => "\x7b\x7d"
  | .obj entries => "\x7b" ++ indentedEntries (level + 1) entries ++ newline level ++ "\x7d"
  | .null => "null"
  | .bool b => if b then "true" else "false"
  | .nat n => n.repr
  | .otherNumber => otherNumberText
  | .str s => quote s

def indentedItems (level : Nat) : List Json → String
  | [] => ""
  | [j] => newline level ++ indented level j
  | j :: k :: rest => newline level ++ indented level j ++ "," ++ indentedItems level (k :: rest)

def indentedEntries (level : Nat) : List (Option String × Json) → String
  | [] => ""
  | [(key, j)] => newline level ++ quote key ++ ": " ++ indented level j
  | (key, j) :: e :: rest =>
    newline level ++ quote key ++ ": " ++ indented level j ++ "," ++
      indentedEntries level (e :: rest)

end

/-- The document over several lines. -/
def pretty (j : Json) : String := indented 0 j

end MiddleEnd.Json
