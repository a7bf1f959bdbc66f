/-
  From characters to tokens. The scanner is an automaton: one state, one step per character, so
  scanning a text is a fold over its characters. A number ends at the first character that cannot
  continue it, and that character is then read as if the number had not been there.

  A string is decoded on the way. An escape that names half of a surrogate pair waits for the other
  half; if that does not follow at once, the string is no Unicode text, but scanning goes on.
-/
import MiddleEnd.Json.Basic

namespace MiddleEnd.Json

inductive Token
  | openArray
  | closeArray
  | openObject
  | closeObject
  | comma
  | colon
  | null
  | bool (value : Bool)
  | nat (value : Nat)
  | otherNumber
  | str (text : Option String)
  deriving DecidableEq, Repr

/-- How far into a number the scanner is. -/
inductive NumberPart
  | sign
  /-- The digits before any point. The value is kept while it is a natural number; after a leading
  zero no digit may follow. -/
  | whole (value : Option Nat) (leadingZero : Bool)
  | point
  | fraction
  | exponentMark
  | exponentSign
  | exponent
  deriving DecidableEq, Repr

/-- What a scanned string holds so far, last character first: its text, unless it is no text. -/
structure Partial where
  chars : Option (List Char)
  /-- The first half of a surrogate pair that was just read. -/
  half : Option Nat
  deriving DecidableEq, Repr

/-- How far into an escape the scanner is. -/
inductive EscapePart
  | none
  | backslash
  /-- After `\u`: the digits still to come and the value of those read. -/
  | unicode (left : Nat) (value : Nat)
  deriving DecidableEq, Repr

inductive Scan
  | idle
  /-- Inside a literal word: what must follow, and the token it makes. -/
  | word (next : Char) (rest : List Char) (token : Token)
  | number (part : NumberPart)
  | str (soFar : Partial) (escape : EscapePart)
  deriving DecidableEq, Repr

/-! ## Strings -/

namespace Partial

def empty : Partial := ⟨some [], Option.none⟩

/-- A character that stands for itself. -/
def push (p : Partial) (c : Char) : Partial :=
  ⟨if p.half.isSome then Option.none else p.chars.map (c :: ·), Option.none⟩

/-- A UTF-16 code unit given by an escape. -/
def pushUnit (p : Partial) (u : Nat) : Partial :=
  match p.half with
  | some h =>
    if 0xDC00 ≤ u ∧ u < 0xE000 then
      ⟨p.chars.map (Char.ofNat (0x10000 + (h - 0xD800) * 0x400 + (u - 0xDC00)) :: ·), Option.none⟩
    else ⟨Option.none, Option.none⟩
  | Option.none =>
    if 0xD800 ≤ u ∧ u < 0xDC00 then ⟨p.chars, some u⟩
    else if 0xDC00 ≤ u ∧ u < 0xE000 then ⟨Option.none, Option.none⟩
    else p.push (Char.ofNat u)

def text? (p : Partial) : Option String :=
  if p.half.isSome then Option.none else p.chars.map fun cs => String.ofList cs.reverse

end Partial

/-- The value of a hexadecimal digit of either case. -/
def hexValue? (c : Char) : Option Nat :=
  if '0' ≤ c ∧ c ≤ '9' then some (c.toNat - '0'.toNat)
  else if 'a' ≤ c ∧ c ≤ 'f' then some (c.toNat - 'a'.toNat + 10)
  else if 'A' ≤ c ∧ c ≤ 'F' then some (c.toNat - 'A'.toNat + 10)
  else none

/-- What a backslash and this character stand for. -/
def escaped? : Char → Option Char
  | '"' => some '"'
  | '\\' => some '\\'
  | '/' => some '/'
  | 'b' => some '\x08'
  | 'f' => some '\x0c'
  | 'n' => some '\n'
  | 'r' => some '\r'
  | 't' => some '\t'
  | _ => none

/-- One character inside a string. -/
def stepString (p : Partial) (e : EscapePart) (c : Char) : Option (Scan × List Token) :=
  match e with
  | .none =>
    if c = '"' then some (.idle, [.str p.text?])
    else if c = '\\' then some (.str p .backslash, [])
    else if c.toNat < 0x20 then none
    else some (.str (p.push c) .none, [])
  | .backslash =>
    if c = 'u' then some (.str p (.unicode 4 0), [])
    else (escaped? c).map fun d => (.str (p.push d) .none, [])
  | .unicode left value =>
    (hexValue? c).map fun d =>
      let value := value * 16 + d
      if left ≤ 1 then (.str (p.pushUnit value) .none, [])
      else (.str p (.unicode (left - 1) value), [])

/-! ## Numbers -/

def isDigit (c : Char) : Bool := '0' ≤ c && c ≤ '9'

def digitValue (c : Char) : Nat := c.toNat - '0'.toNat

namespace NumberPart

/-- The token that a number makes if it ends here. -/
def token? : NumberPart → Option Token
  | whole (some n) _ => some (.nat n)
  | whole none _ => some .otherNumber
  | fraction => some .otherNumber
  | exponent => some .otherNumber
  | _ => none

end NumberPart

/-- What a character of a number does: continue it, end it, or spoil it. -/
inductive NumberStep
  | more (part : NumberPart)
  | stop
  | bad

/-- One character after the part of a number read so far. -/
def NumberPart.step (part : NumberPart) (c : Char) : NumberStep :=
  match part with
  | .sign =>
    if c = '0' then .more (.whole none true)
    else if isDigit c then .more (.whole none false)
    else .bad
  | .whole value leadingZero =>
    if isDigit c then
      if leadingZero then .bad else .more (.whole (value.map (· * 10 + digitValue c)) false)
    else if c = '.' then .more .point
    else if c = 'e' ∨ c = 'E' then .more .exponentMark
    else .stop
  | .point => if isDigit c then .more .fraction else .bad
  | .fraction =>
    if isDigit c then .more .fraction
    else if c = 'e' ∨ c = 'E' then .more .exponentMark
    else .stop
  | .exponentMark =>
    if isDigit c then .more .exponent
    else if c = '+' ∨ c = '-' then .more .exponentSign
    else .bad
  | .exponentSign => if isDigit c then .more .exponent else .bad
  | .exponent => if isDigit c then .more .exponent else .stop

/-! ## The automaton -/

/-- One character between tokens. -/
def stepIdle (c : Char) : Option (Scan × List Token) :=
  if c = ' ' ∨ c = '\n' ∨ c = '\t' ∨ c = '\r' then some (.idle, [])
  else if c = '[' then some (.idle, [.openArray])
  else if c = ']' then some (.idle, [.closeArray])
  else if c = '{' then some (.idle, [.openObject])
  else if c = '}' then some (.idle, [.closeObject])
  else if c = ',' then some (.idle, [.comma])
  else if c = ':' then some (.idle, [.colon])
  else if c = '"' then some (.str .empty .none, [])
  else if c = 'n' then some (.word 'u' ['l', 'l'] .null, [])
  else if c = 't' then some (.word 'r' ['u', 'e'] (.bool true), [])
  else if c = 'f' then some (.word 'a' ['l', 's', 'e'] (.bool false), [])
  else if c = '-' then some (.number .sign, [])
  else if c = '0' then some (.number (.whole (some 0) true), [])
  else if isDigit c then some (.number (.whole (some (digitValue c)) false), [])
  else none

/-- One character: the next state and the tokens that are complete now. -/
def Scan.step (state : Scan) (c : Char) : Option (Scan × List Token) :=
  match state with
  | .idle => stepIdle c
  | .word d rest token =>
    if c = d then
      match rest with
      | [] => some (.idle, [token])
      | e :: rest => some (.word e rest token, [])
    else none
  | .number part =>
    match part.step c with
    | .more next => some (.number next, [])
    | .bad => none
    | .stop =>
      match part.token?, stepIdle c with
      | some token, some (next, tokens) => some (next, token :: tokens)
      | _, _ => none
  | .str p e => stepString p e c

/-- The tokens that the end of the text completes. -/
def Scan.finish : Scan → Option (List Token)
  | .idle => some []
  | .number part => part.token?.map ([·])
  | _ => none

/-- The tokens of the characters that follow a state, after those found before, last first. -/
def scanFrom (state : Scan) (found : List Token) : List Char → Option (List Token)
  | [] => state.finish.map (found.reverse ++ ·)
  | c :: rest =>
    match state.step c with
    | some (next, tokens) => scanFrom next (tokens.reverse ++ found) rest
    | none => none

/-- The tokens of a text, unless some character fits nowhere. -/
def scan (s : String) : Option (List Token) := scanFrom .idle [] s.toList

end MiddleEnd.Json
