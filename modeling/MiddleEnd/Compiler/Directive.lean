/-
  Directives: lines that start with a number sign. They define macros, leave out lines, and bring in
  the text of headers. What is left of a text, with its macros replaced, is what the language is
  about.
-/
import MiddleEnd.Compiler.Condition
import MiddleEnd.Compiler.Headers

namespace MiddleEnd.Compiler

/-- A group of lines that stands or falls with conditions. -/
structure Group where
  /-- Whether its lines count. -/
  isActive : Bool
  /-- Whether the lines of some condition of the group have counted already. -/
  isDecided : Bool
  /-- Whether the lines that count otherwise have begun. -/
  isLast : Bool
  deriving Repr

/-- What is known between two lines. -/
structure Progress where
  macros : Macros
  groups : List Group
  /-- The lines since the last directive, last first. -/
  pending : List (List Lexeme)
  /-- The tokens before them, last first. -/
  done : List Token

namespace Progress

def initial : Progress := ⟨{}, [], [], []⟩

/-- Whether lines count here. -/
def isActive (p : Progress) : Bool := p.groups.all (·.isActive)

/-- So many macros are replaced in a text at most. -/
def mostSteps : Nat := 10000000

/-- Replace the macros of the lines since the last directive. -/
def flush? (p : Progress) : Option Progress := do
  if p.pending.isEmpty then return p
  let lexemes := p.pending.reverse.flatten
  let ts ← expand? p.macros mostSteps [] (lexemes.map fun l => ⟨l, []⟩)
  return { p with pending := [], done := ts.foldl (fun done t => t.token :: done) p.done }

end Progress

/-! ## Definitions -/

/-- The parameters of a macro behind the opening parenthesis: their names, and whether the last one
takes all arguments that are left. -/
def params? : (names : List String) → List Lexeme → Option (List String × Bool × List Lexeme)
  | [], ⟨.mark ")", _⟩ :: rest => some ([], false, rest)
  | names, ⟨.mark "...", _⟩ :: ⟨.mark ")", _⟩ :: rest =>
    some (names ++ ["__VA_ARGS__"], true, rest)
  | names, ⟨.word w, _⟩ :: ⟨.mark ")", _⟩ :: rest =>
    if names.contains w then none else some (names ++ [w], false, rest)
  | names, ⟨.word w, _⟩ :: ⟨.mark "...", _⟩ :: ⟨.mark ")", _⟩ :: rest =>
    if names.contains w then none else some (names ++ [w], true, rest)
  | names, ⟨.word w, _⟩ :: ⟨.mark ",", _⟩ :: rest =>
    if names.contains w then none else params? (names ++ [w]) rest
  | _, _ => none

def isPaste (l : Lexeme) : Bool := l.token = .mark "##"

/-- Whether a number sign in a body with parameters always stands before one of them. -/
def showsParams (params : List String) : List Lexeme → Bool
  | [] => true
  | ⟨.mark "#", _⟩ :: rest =>
    match rest with
    | ⟨.word w, _⟩ :: rest => params.contains w && showsParams params rest
    | _ => false
  | _ :: rest => showsParams params rest

/-- A macro with this body. A body neither starts nor ends with pasting. -/
def macro? (params : Option (List String)) (isVariadic : Bool) (body : List Lexeme) :
    Option Macro :=
  let pastes := body.head?.any isPaste || body.getLast?.any isPaste
  let shows := params.all fun names => showsParams names body
  if pastes || !shows then none else some ⟨params, isVariadic, body⟩

/-- The definition of a macro: its name, and what it stands for. -/
def definition? : List Lexeme → Option (String × Macro)
  | ⟨.word name, _⟩ :: rest => do
    if name = "defined" || directiveWords.contains name then none
    match rest with
    | ⟨.mark "(", false⟩ :: rest =>
      let (params, isVariadic, body) ← params? [] rest
      return (name, ← macro? (some params) isVariadic body)
    | body => return (name, ← macro? none false body)
  | _ => none

/-! ## Conditions -/

/-- Put numbers in place of questions about macros. -/
def answer (macros : Macros) : List Lexeme → List Lexeme
  | [] => []
  | ⟨.word "defined", s⟩ :: ⟨.mark "(", _⟩ :: ⟨.word w, _⟩ :: ⟨.mark ")", _⟩ :: rest
  | ⟨.word "defined", s⟩ :: ⟨.word w, _⟩ :: rest =>
    ⟨.number (if macros.contains w then "1" else "0"), s⟩ :: answer macros rest
  | l :: rest => l :: answer macros rest

/-- Whether the condition of a directive holds. -/
def conditionHolds? (macros : Macros) (ls : List Lexeme) : Option Bool := do
  let ts ← expand? macros Progress.mostSteps [] ((answer macros ls).map fun l => ⟨l, []⟩)
  Condition.holds? (ts.map Marked.token)

/-! ## Lines -/

namespace Progress

/-- Begin a group whose lines count if a condition holds. -/
def openGroup (p : Progress) (holds : Bool) : Progress :=
  { p with groups := ⟨holds, holds, false⟩ :: p.groups }

/-- The one name on a line. -/
def name? : List Lexeme → Option String
  | ⟨.word w, _⟩ :: _ => some w
  | _ => none

/-- Carry out a conditional directive; `none` if it is none. -/
def conditional? (p : Progress) (directive : String) (ls : List Lexeme) :
    Option (Option Progress) :=
  match directive with
  | "if" => some <|
    if p.isActive then (conditionHolds? p.macros ls).map p.openGroup
    else some { p with groups := ⟨false, true, false⟩ :: p.groups }
  | "ifdef" | "ifndef" => some <|
    if p.isActive then
      (name? ls).map fun w => p.openGroup (p.macros.contains w == (directive == "ifdef"))
    else some { p with groups := ⟨false, true, false⟩ :: p.groups }
  | "elif" => some <|
    match p.groups with
    | [] => none
    | g :: outer =>
      if g.isLast then none
      else if g.isDecided then some { p with groups := { g with isActive := false } :: outer }
      else (conditionHolds? p.macros ls).map fun b => { p with groups := ⟨b, b, false⟩ :: outer }
  | "else" => some <|
    match p.groups with
    | [] => none
    | g :: outer =>
      if g.isLast then none
      else some { p with groups := ⟨!g.isDecided, true, true⟩ :: outer }
  | "endif" => some <|
    match p.groups with
    | [] => none
    | _ :: outer => some { p with groups := outer }
  | _ => none

/-- The name of a header, as it is asked for. -/
def header? : List Lexeme → Option String
  | [⟨.text s, _⟩] => some s
  | ⟨.mark "<", _⟩ :: rest =>
    match rest.reverse with
    | ⟨.mark ">", _⟩ :: inner =>
      some (String.join (inner.reverse.map fun l => l.token.spelling))
    | _ => none
  | _ => none

/-- Carry out any other directive. `include?` brings in a header. -/
def directive? (p : Progress) (include? : Progress → String → Option Progress) (name : String)
    (ls : List Lexeme) : Option Progress :=
  match name with
  | "define" => (definition? ls).map fun (w, m) => { p with macros := p.macros.insert w m }
  | "undef" => (name? ls).map fun w => { p with macros := p.macros.erase w }
  | "include" | "include_next" | "import" =>
    match header? ls with
    | some h => include? p h
    | none => do
      let ts ← expand? p.macros mostSteps [] (ls.map fun l => ⟨l, []⟩)
      include? p (← header? (ts.map (·.lexeme)))
  | "error" => none
  | "pragma" =>
    match ls with
    | ⟨.word "GCC", _⟩ :: ⟨.word "error", _⟩ :: _ => none
    | _ => some p
  | "warning" | "ident" | "sccs" | "assert" | "unassert" => some p
  | "line" =>
    match ls with
    | ⟨.number _, _⟩ :: _ => some p
    | _ => none
  | _ => none

/-- Go on to the next line. -/
def line? (p : Progress) (include? : Progress → String → Option Progress) :
    List Lexeme → Option Progress
  | ⟨.mark "#", _⟩ :: rest =>
    match rest with
    | ⟨.word name, _⟩ :: ls => do
      let p ← p.flush?
      match p.conditional? name ls with
      | some next => next
      | none => if p.isActive then p.directive? include? name ls else return p
    | [] | ⟨.number _, _⟩ :: _ => some p
    | _ => if p.isActive then none else some p
  | ls => some (if p.isActive then { p with pending := ls :: p.pending } else p)

/-- Go on through all lines of a text, in which each group must end. -/
def text? (p : Progress) (include? : Progress → String → Option Progress) (s : String) :
    Option Progress := do
  let lines ← tokenLines? s
  let p ← lines.foldlM (fun p ls => p.line? include? ls) p
  if p.groups.isEmpty then p.flush? else none

/-- Bring in a header. Of the headers that are there only those are read that a program asks for by
itself; the others declare nothing here. -/
def header (p : Progress) (name : String) : Option Progress :=
  match headerText? name with
  | some text =>
    (text? { p with groups := [] } (fun p _ => some p) text).map fun q => { q with groups := p.groups }
  | none => if otherHeaders.contains name then some p else none

end Progress

/-- The tokens of a program, with directives carried out and macros replaced. -/
def programTokens? (s : String) : Option (List Token) := do
  let p ← Progress.initial.text? (fun p _ => some p) predefinedText
  let p ← p.text? Progress.header s
  return p.done.reverse

end MiddleEnd.Compiler
