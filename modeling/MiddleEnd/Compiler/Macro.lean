/-
  Macros. A macro stands for tokens, with or without arguments. What it stands for is looked
  through for further macros, but a macro is never replaced within its own replacement: every token
  carries the names of the macros that it came from.
-/
import Std.Data.TreeMap
import MiddleEnd.Compiler.Token

namespace MiddleEnd.Compiler

structure Macro where
  /-- The names of the parameters; none if the macro takes no arguments. -/
  params : Option (List String)
  /-- Whether the last parameter stands for all arguments that are left. -/
  isVariadic : Bool
  body : List Lexeme
  deriving Repr

abbrev Macros := Std.TreeMap String Macro

/-- A token, with the macros that it must not be taken for. -/
structure Marked where
  lexeme : Lexeme
  hidden : List String
  deriving Repr

namespace Marked

def token (m : Marked) : Token := m.lexeme.token

def isMark (m : Marked) (s : String) : Bool := m.token = .mark s

def hide (names : List String) (m : Marked) : Marked :=
  { m with hidden := names ++ m.hidden }

end Marked

/-! ## Spellings -/

def Token.spelling : Token → String
  | .word s | .number s | .character s | .mark s | .stray s => s
  | .text s => "\x22" ++ s ++ "\x22"

/-- The spelling of some tokens, with one blank where there was any. -/
def spellingOf : List Marked → String
  | [] => ""
  | m :: rest => m.token.spelling ++ String.join (rest.map fun m =>
      if m.lexeme.spaced then " " ++ m.token.spelling else m.token.spelling)

/-- The characters of a string that shows some tokens. -/
def shown (ms : List Marked) : String :=
  let escaped (m : Marked) : Marked :=
    match m.token with
    | .text _ | .character _ =>
      let cs := m.token.spelling.toList.flatMap fun c =>
        if c = '\\' || c = '\x22' then ['\\', c] else [c]
      { m with lexeme := { m.lexeme with token := .stray (String.ofList cs) } }
    | _ => m
  spellingOf (ms.map escaped)

/-- The one token that two tokens make when they are written without a blank between them. -/
def paste? (a b : Marked) : Option Marked :=
  match pieces [] 0 (a.token.spelling ++ b.token.spelling).toList with
  | [.token t] => some ⟨⟨t, a.lexeme.spaced⟩, a.hidden.filter b.hidden.contains⟩
  | _ => none

/-! ## Arguments -/

/-- The arguments of a call behind its opening parenthesis, the closing parenthesis, and what
follows it. `done` and `arg` are the arguments and the tokens before, in reverse. -/
def arguments? (done : List (List Marked)) (arg : List Marked) : (depth : Nat) → List Marked →
    Option (List (List Marked) × Marked × List Marked)
  | _, [] => none
  | depth, m :: rest =>
    if m.isMark "(" then arguments? done (m :: arg) (depth + 1) rest
    else if m.isMark ")" then
      match depth with
      | 0 => some ((arg.reverse :: done).reverse, m, rest)
      | depth + 1 => arguments? done (m :: arg) depth rest
    else if m.isMark "," && depth = 0 then arguments? (arg.reverse :: done) [] 0 rest
    else arguments? done (m :: arg) depth rest

/-- Several arguments as one, with the commas between them. -/
def joinArguments : List (List Marked) → List Marked
  | [] => []
  | [arg] => arg
  | arg :: rest => arg ++ ⟨⟨.mark ",", false⟩, []⟩ :: joinArguments rest

/-- What each parameter stands for in a call. -/
abbrev Bindings := List (String × List Marked)

/-- Give each parameter its argument; none if their numbers do not match. -/
def Macro.bind? (m : Macro) (args : List (List Marked)) : Option Bindings :=
  let params := m.params.getD []
  let fixed := params.length - 1
  if params.isEmpty then if args.length = 1 && args.all List.isEmpty then some [] else none
  else if m.isVariadic then
    if args.length < fixed then none
    else some (params.zip (args.take fixed ++ [joinArguments (args.drop fixed)]))
  else if args.length = params.length then some (params.zip args)
  else none

/-! ## Replacement -/

/-- A part of what a macro stands for. -/
inductive Part
  | token (l : Lexeme)
  /-- A string that shows an argument. -/
  | shows (param : String)
  deriving Repr

/-- The parts of a macro's body. -/
def partsOf (params : List String) : List Lexeme → List Part
  | ⟨.mark "#", spaced⟩ :: ⟨.word w, s⟩ :: rest =>
    if params.contains w then .shows w :: partsOf params rest
    else .token ⟨.mark "#", spaced⟩ :: partsOf params (⟨.word w, s⟩ :: rest)
  | l :: rest => .token l :: partsOf params rest
  | [] => []

/-- Group parts that are pasted together. -/
def chainsOf : List Part → List (List Part)
  | p :: .token ⟨.mark "##", _⟩ :: rest =>
    match chainsOf rest with
    | chain :: others => (p :: chain) :: others
    | [] => [[p]]
  | p :: rest => [p] :: chainsOf rest
  | [] => []

/-- What a part stands for: an argument, a string or itself. -/
def Part.value (bindings : Bindings) : Part → List Marked
  | .shows param => [⟨⟨.text (shown ((bindings.lookup param).getD [])), false⟩, []⟩]
  | .token l =>
    match l.token with
    | .word w => (bindings.lookup w).getD [⟨l, []⟩]
    | _ => [⟨l, []⟩]

/-- Put two runs of tokens together; the tokens that meet become one. -/
def pasteRuns? (a b : List Marked) : Option (List Marked) :=
  match a.getLast?, b with
  | some last, first :: rest => (paste? last first).map fun t => a.dropLast ++ t :: rest
  | _, _ => some (a ++ b)

/-- What a chain stands for. Arguments that are pasted are taken as they are, others are looked
through first. A comma before the last arguments goes away if there are none. -/
def chainValue? (m : Macro) (raw expanded : Bindings) : List Part → Option (List Marked)
  | [] => some []
  | [p] => some (p.value expanded)
  | [.token ⟨.mark ",", spaced⟩, .token ⟨.word w, s⟩] =>
    let args := (expanded.lookup w).getD []
    if m.isVariadic && (m.params.getD []).getLast? = some w then
      some (if args.isEmpty then [] else ⟨⟨.mark ",", spaced⟩, []⟩ :: args)
    else pasteRuns? [⟨⟨.mark ",", spaced⟩, []⟩] (Part.value raw (.token ⟨.word w, s⟩))
  | p :: rest => rest.foldlM (fun done q => pasteRuns? done (q.value raw)) (p.value raw)

/-- What a macro stands for with these arguments. -/
def Macro.replacement? (m : Macro) (raw expanded : Bindings) : Option (List Marked) := do
  let parts := match m.params with
    | some params => partsOf params m.body
    | none => m.body.map .token
  let runs ← (chainsOf parts).mapM (chainValue? m raw expanded)
  return runs.flatten

/-- Words that ask for something while directives are read, and mean nothing elsewhere. -/
def directiveWords : List String :=
  ["__has_include", "__has_include_next", "__has_attribute", "__has_cpp_attribute",
    "__has_c_attribute", "__has_builtin"]

/-- Replace all macros in some tokens, in so many steps at most. None if a call of a macro is not
well formed. `done` are the tokens before, in reverse. -/
def expand? (macros : Macros) : (fuel : Nat) → (done : List Marked) → List Marked →
    Option (List Marked)
  | 0, _, _ => none
  | _ + 1, done, [] => some done.reverse
  | fuel + 1, done, t :: rest =>
    match t.token with
    | .word w =>
      if w = "_Pragma" then
        match rest with
        | p :: ⟨⟨.text _, _⟩, _⟩ :: q :: behind =>
          if p.isMark "(" && q.isMark ")" then expand? macros fuel done behind else none
        | _ => none
      else if directiveWords.contains w then none
      else if t.hidden.contains w then expand? macros fuel (t :: done) rest
      else
        match macros.get? w, rest with
        | none, _ => expand? macros fuel (t :: done) rest
        | some ⟨none, isVariadic, body⟩, _ => do
          let ts ← Macro.replacement? ⟨none, isVariadic, body⟩ [] []
          expand? macros fuel done (ts.map (Marked.hide (w :: t.hidden)) ++ rest)
        | some m, p :: inner =>
          if p.isMark "(" then do
            let (args, close, behind) ← arguments? [] [] 0 inner
            let raw ← m.bind? args
            let expanded ← raw.mapM fun (name, arg) => do
              let ts ← expand? macros fuel [] arg
              return (name, ts)
            let ts ← m.replacement? raw expanded
            let hidden := w :: t.hidden.filter close.hidden.contains
            expand? macros fuel done (ts.map (Marked.hide hidden) ++ behind)
          else expand? macros fuel (t :: done) rest
        | some _, [] => expand? macros fuel (t :: done) rest
    | _ => expand? macros fuel (t :: done) rest

end MiddleEnd.Compiler
