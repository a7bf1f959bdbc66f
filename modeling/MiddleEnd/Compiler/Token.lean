/-
  The tokens of a C text. Trigraphs stand for the characters that some keyboards lack, and a line
  that ends in a backslash goes on in the next one; what is left is cut into the longest tokens.
  Comments and blanks end a token and are otherwise dropped, but for a note at the token behind.
-/

namespace MiddleEnd.Compiler

/-! ## Letters beyond ASCII

The characters beyond ASCII that may stand in names of C, as ranges of code points in ascending
order, both ends included. Marks that combine with the character before them may not stand first. -/

/-- Characters of names on the first plane, beyond ASCII. -/
def nameRanges : List (Nat × Nat) :=
  [(0x00A8, 0x00A8), (0x00AA, 0x00AA), (0x00AD, 0x00AD), (0x00AF, 0x00AF), (0x00B2, 0x00B5),
    (0x00B7, 0x00BA), (0x00BC, 0x00BE), (0x00C0, 0x00D6), (0x00D8, 0x00F6), (0x00F8, 0x167F),
    (0x1681, 0x180D), (0x180F, 0x1FFF), (0x200B, 0x200D), (0x202A, 0x202E), (0x203F, 0x2040),
    (0x2054, 0x2054), (0x2060, 0x218F), (0x2460, 0x24FF), (0x2776, 0x2793), (0x2C00, 0x2DFF),
    (0x2E80, 0x2FFF), (0x3004, 0x3007), (0x3021, 0x302F), (0x3031, 0xD7FF), (0xF900, 0xFDCF),
    (0xFDF0, 0xFE44), (0xFE47, 0xFFFD)]

/-- Marks that combine with the character before them. -/
def markRanges : List (Nat × Nat) :=
  [(0x0300, 0x036F), (0x1DC0, 0x1DFF), (0x20D0, 0x20FF), (0xFE20, 0xFE2F)]

/-- Whether a code point lies in one of the ranges. -/
def inRanges (ranges : List (Nat × Nat)) (n : Nat) : Bool :=
  ranges.any fun r => r.1 ≤ n && n ≤ r.2

/-- Whether a code point lies on a plane from the second to the fifteenth, and is not one of the
last two there. -/
def onHigherPlane (n : Nat) : Bool := 0x10000 ≤ n && n < 0xF0000 && n % 0x10000 ≤ 0xFFFD

/-- Whether a code point beyond ASCII may stand in a name. -/
def inNames (n : Nat) : Bool := inRanges nameRanges n || onHigherPlane n

/-- Whether a code point beyond ASCII may stand at the start of a name. -/
def startsNames (n : Nat) : Bool := inNames n && !inRanges markRanges n

/-! ## Characters -/

/-- The character that a trigraph with this last character stands for. -/
def trigraph? : Char → Option Char
  | '=' => some '#'
  | '/' => some '\\'
  | '\x27' => some '^'
  | '(' => some '['
  | ')' => some ']'
  | '!' => some '|'
  | '<' => some '\x7b'
  | '>' => some '\x7d'
  | '-' => some '~'
  | _ => none

/-- Replace trigraphs; `done` is the text before, in reverse. -/
def replaceTrigraphs (done : List Char) : List Char → List Char
  | [] => done.reverse
  | '?' :: '?' :: c :: rest =>
    match trigraph? c with
    | some d => replaceTrigraphs (d :: done) rest
    | none => replaceTrigraphs ('?' :: done) ('?' :: c :: rest)
  | c :: rest => replaceTrigraphs (c :: done) rest

/-- End lines in a newline, whether or not a carriage return stands before it; `done` is the text
before, in reverse. -/
def unifyLineEnds (done : List Char) : List Char → List Char
  | [] => done.reverse
  | '\r' :: '\n' :: rest => unifyLineEnds ('\n' :: done) rest
  | c :: rest => unifyLineEnds (c :: done) rest

/-- Blanks that do not end a line. The null character is one. -/
def isBlank (c : Char) : Bool :=
  c == ' ' || c == '\t' || c == '\x0b' || c == '\x0c' || c == '\x00'

/-- The length of what a backslash takes with it at the end of a line: blanks and the newline. -/
def spliceLength? : List Char → Option Nat
  | '\n' :: _ => some 1
  | c :: rest => if isBlank c then (spliceLength? rest).map (· + 1) else none
  | [] => none

/-- Drop the first characters, and then every backslash at the end of a line with that end; `done`
is the text before, in reverse. -/
def joinLines (done : List Char) : (skip : Nat) → List Char → List Char
  | _, [] => done.reverse
  | skip + 1, _ :: rest => joinLines done skip rest
  | 0, c :: rest =>
    if c = '\\' then
      match spliceLength? rest with
      | some n => joinLines done n rest
      | none => joinLines (c :: done) 0 rest
    else joinLines (c :: done) 0 rest

/-! ## Words -/

/-- Characters that may stand first in a name; the dollar sign is one. -/
def isFirst (c : Char) : Bool := c.isAlpha || c == '_' || c == '$' || startsNames c.toNat

/-- Characters that may follow. -/
def isLater (c : Char) : Bool := isFirst c || c.isDigit || inNames c.toNat

def hexValue? (c : Char) : Option Nat :=
  if c.isDigit then some (c.toNat - '0'.toNat)
  else if 'a' ≤ c && c ≤ 'f' then some (c.toNat - 'a'.toNat + 10)
  else if 'A' ≤ c && c ≤ 'F' then some (c.toNat - 'A'.toNat + 10)
  else none

/-- The character with a number in hexadecimal digits. Those of the basic set have no such name. -/
def charNumbered? (digits : List Char) : Option Char := do
  let ns ← digits.mapM hexValue?
  let n := ns.foldl (fun n d => 16 * n + d) 0
  if 0xA0 ≤ n && n.isValidChar then some (Char.ofNat n) else none

/-- The first character of a text as it may stand in a name, and how many characters spell it:
any character, or the number of one behind a backslash. -/
def nameChar? : List Char → Option (Char × Nat)
  | '\\' :: 'u' :: rest =>
    if rest.length < 4 then none else (charNumbered? (rest.take 4)).map fun c => (c, 6)
  | '\\' :: 'U' :: rest =>
    if rest.length < 8 then none else (charNumbered? (rest.take 8)).map fun c => (c, 10)
  | '\\' :: _ => none
  | c :: _ => some (c, 1)
  | [] => none

/-- The longest run of characters that are accepted, and how many characters spell it. -/
def nameRun (accepts : Char → Bool) : (skip : Nat) → List Char → List Char × Nat
  | _, [] => ([], 0)
  | skip + 1, _ :: rest =>
    let (cs, n) := nameRun accepts skip rest
    (cs, n + 1)
  | 0, c :: rest =>
    match nameChar? (c :: rest) with
    | some (d, used) =>
      if accepts d then
        let (cs, n) := nameRun accepts (used - 1) rest
        (d :: cs, n + 1)
      else ([], 0)
    | none => ([], 0)

/-! ## Tokens -/

inductive Token
  /-- A name or a keyword. -/
  | word (name : String)
  /-- Anything that starts as a number does, well formed or not. -/
  | number (text : String)
  /-- A character constant, with the quotes. -/
  | character (text : String)
  /-- What stands between the quotes of a string. -/
  | text (content : String)
  | mark (text : String)
  /-- Characters that make no token. -/
  | stray (text : String)
  deriving DecidableEq, Repr

/-- The operators and marks of the language. -/
def marks : List String :=
  ["...", "<<=", ">>=", "->", "++", "--", "<<", ">>", "<=", ">=", "==", "!=", "&&", "||", "*=",
    "/=", "%=", "+=", "-=", "&=", "^=", "|=", "##", "[", "]", "(", ")", "\x7b", "\x7d", ".", "&",
    "*", "+", "-", "~", "!", "/", "%", "<", ">", "^", "|", "?", ":", ";", "=", ",", "#"]

/-- Other spellings of some marks. -/
def digraphs : List (String × String) :=
  [("%:%:", "##"), ("<:", "["), (":>", "]"), ("<%", "\x7b"), ("%>", "\x7d"), ("%:", "#")]

/-- The longest mark at the start of a text, with its length. -/
def mark? (cs : List Char) : Option (String × Nat) :=
  let candidates := digraphs ++ marks.map fun m => (m, m)
  let found := candidates.filter fun (spelling, _) => spelling.toList.isPrefixOf cs
  found.foldl (fun best (spelling, m) =>
    match best with
    | some (_, n) => if n < spelling.length then some (m, spelling.length) else best
    | none => some (m, spelling.length)) none

/-- The length of a number: digits, letters and points, and signs behind the letters that start an
exponent. -/
def numberLength : List Char → Nat
  | [] => 0
  | c :: '+' :: rest =>
    if ['e', 'E', 'p', 'P'].contains c then numberLength rest + 2
    else if isLater c || c == '.' then 1 else 0
  | c :: '-' :: rest =>
    if ['e', 'E', 'p', 'P'].contains c then numberLength rest + 2
    else if isLater c || c == '.' then 1 else 0
  | c :: rest => if isLater c || c == '.' then numberLength rest + 1 else 0

/-- The length of a quoted text with its closing quote, if that stands on the same line. -/
def quotedLength? (quote : Char) : List Char → Option Nat
  | [] => none
  | '\n' :: _ => none
  | '\\' :: '\n' :: _ => none
  | '\\' :: _ :: rest => (quotedLength? quote rest).map (· + 2)
  | c :: rest => if c = quote then some 1 else (quotedLength? quote rest).map (· + 1)

/-- The length of a comment behind its opening mark, if it is closed. -/
def commentLength? : List Char → Option Nat
  | [] => none
  | '*' :: '/' :: _ => some 2
  | _ :: rest => (commentLength? rest).map (· + 1)

/-- The length of the rest of a line. -/
def lineLength (cs : List Char) : Nat := (cs.takeWhile (· ≠ '\n')).length

/-! ## Texts -/

/-- A piece of a text. -/
inductive Piece
  | token (t : Token)
  | blank
  | newline
  /-- A comment that is never closed. -/
  | unclosed
  deriving DecidableEq, Repr

/-- A text in quotes: the piece, and its length behind the first quote. -/
def quoted (start : List Char) (quote : Char) (rest : List Char) (make : String → Token) :
    Piece × Nat :=
  match quotedLength? quote rest with
  | some n =>
    let inner := rest.take (n - 1)
    (.token (make (String.ofList
      (if quote = '\x22' then inner else start ++ quote :: (inner ++ [quote])))), n)
  | none => (.token (.stray (String.ofList [quote])), lineLength rest)

/-- The piece that starts with a character, and how many of the following characters belong to it.
-/
def piece (c : Char) (rest : List Char) : Piece × Nat :=
  let cs := c :: rest
  if c = '\n' then (.newline, 0)
  else if isBlank c then (.blank, 0)
  else match cs with
  | '/' :: '*' :: inner =>
    match commentLength? inner with
    | some n => (.blank, n + 1)
    | none => (.unclosed, rest.length)
  | '/' :: '/' :: inner => (.blank, lineLength inner + 1)
  | '\x22' :: inner => quoted [] '\x22' inner .text
  | '\x27' :: inner => quoted [] '\x27' inner .character
  | 'L' :: '\x22' :: inner =>
    let (p, n) := quoted ['L'] '\x22' inner .text
    (p, n + 1)
  | 'L' :: '\x27' :: inner =>
    let (p, n) := quoted ['L'] '\x27' inner .character
    (p, n + 1)
  | _ =>
    let startsNumber := c.isDigit || (c = '.' && (rest.head?.map Char.isDigit).getD false)
    if startsNumber then
      let n := numberLength cs
      (.token (.number (String.ofList (cs.take n))), n - 1)
    else
      match nameRun isLater 0 cs, nameChar? cs with
      | (name, n + 1), some (first, _) =>
        if isFirst first then (.token (.word (String.ofList name)), n)
        else (.token (.stray (String.ofList [c])), 0)
      | _, _ =>
        match mark? cs with
        | some (m, n) => (.token (.mark m), n - 1)
        | none => (.token (.stray (String.ofList [c])), 0)

/-- The pieces of a text, behind the first `skip` characters; `done` are those before, in reverse.
-/
def pieces (done : List Piece) : (skip : Nat) → List Char → List Piece
  | _, [] => done.reverse
  | skip + 1, _ :: rest => pieces done skip rest
  | 0, c :: rest =>
    let (p, n) := piece c rest
    pieces (p :: done) n rest

/-- A token, and whether a blank stands before it. -/
structure Lexeme where
  token : Token
  spaced : Bool
  deriving DecidableEq, Repr

/-- The lines of a text. A comment is a blank, so a line does not end in it. None if a comment is
never closed. `done` and `line` are the lines and the tokens before, in reverse. -/
def linesOf (done : List (List Lexeme)) : (spaced : Bool) → (line : List Lexeme) → List Piece →
    Option (List (List Lexeme))
  | _, line, [] => some (line.reverse :: done).reverse
  | _, line, .newline :: rest => linesOf (line.reverse :: done) false [] rest
  | _, line, .blank :: rest => linesOf done true line rest
  | spaced, line, .token t :: rest => linesOf done false (⟨t, spaced⟩ :: line) rest
  | _, _, .unclosed :: _ => none

/-- The lines of tokens of a C text. -/
def tokenLines? (s : String) : Option (List (List Lexeme)) :=
  let cs := joinLines [] 0 (replaceTrigraphs [] (unifyLineEnds [] s.toList))
  linesOf [] false [] (pieces [] 0 cs)

end MiddleEnd.Compiler
