/-
  The command that a command line asks for. Words are read from left to right: a word is the name
  of a command, an option, the value of the option before it, or an operand.

  A value that stands in a word of its own is examined when the next option or operand comes, or
  at the end. So a command line ends at the first word that is refused or asks for help.
-/
import MiddleEnd.CommandLine.Path

namespace MiddleEnd.CommandLine

/-! ## Commands -/

/-- What to build: the output, if it is named, and whether it is an object file. -/
structure Build where
  input : Path
  output : Option Path
  object : Bool
  target : String
  deriving DecidableEq, Repr

inductive Command
  | build (b : Build)
  | check (input : Path) (json : Bool)
  | version
  /-- A command line without any word that says what to do. -/
  | nothing
  deriving DecidableEq, Repr

/-- Why a command line leads to no command. -/
inductive Stop
  | help
  | version
  | misuse
  deriving DecidableEq, Repr

/-- The platform a program is built for, unless the command line names another. -/
def defaultTarget : String := "x86_64-unknown-linux-gnu"

/-! ## Options -/

inductive Opt
  | output
  | object
  | target
  | json
  | help
  | version
  deriving DecidableEq, Repr

namespace Opt

/-- The option of that name behind two dashes. -/
def long? : String → Option Opt
  | "output" => some output
  | "object" => some object
  | "target" => some target
  | "json" => some json
  | "help" => some help
  | "version" => some version
  | _ => none

/-- The option of that letter behind one dash. -/
def short? : Char → Option Opt
  | 'o' => some output
  | 'h' => some help
  | 'V' => some version
  | _ => none

def takesValue : Opt → Bool
  | output | target => true
  | _ => false

end Opt

/-- What a value is given to. -/
inductive Slot
  | option (o : Opt)
  | operand
  deriving DecidableEq, Repr

/-- Whether a value may be empty; paths may not. -/
def Slot.allows (s : Slot) (value : String) : Bool := s = .option .target || value ≠ ""

/-- What a command line may hold at some place. -/
structure Grammar where
  commands : List String
  options : List Opt
  operands : Nat

/-- The words before the name of a command. -/
def Grammar.top : Grammar := ⟨["build", "check", "version", "help"], [.output, .help, .version], 1⟩

def Grammar.build : Grammar := ⟨[], [.output, .object, .target, .help], 1⟩

def Grammar.check : Grammar := ⟨[], [.json, .help], 1⟩

def Grammar.version : Grammar := ⟨[], [.help], 0⟩

/-! ## Words read so far -/

structure Reading where
  /-- The values that were examined. -/
  given : List (Slot × String)
  /-- What came last and was not examined yet, with its value if that has come. -/
  pending : Option (Slot × Option String)
  deriving DecidableEq, Repr

abbrev Step := Except Stop

namespace Reading

def empty : Reading := ⟨[], none⟩

def value? (r : Reading) (s : Slot) : Option String := r.given.lookup s

/-- Take down a value; a slot takes one value only. -/
def give (r : Reading) (s : Slot) (value : String) : Step Reading :=
  if (r.value? s).isSome || !s.allows value then throw .misuse
  else return { r with given := (s, value) :: r.given }

/-- Examine what came last. -/
def settle (r : Reading) : Step Reading :=
  match r.pending with
  | none => return r
  | some (_, none) => throw .misuse
  | some (s, some value) => { r with pending := none }.give s value

/-- The option that still waits for its value. -/
def waiting? (r : Reading) : Option Slot :=
  match r.pending with
  | some (s, none) => some s
  | _ => none

/-- An option without a value, or with the value that stands in the same word. -/
def attached (r : Reading) (o : Opt) (value : Option String) : Step Reading := do
  let r ← r.settle
  match o, value with
  | .help, _ => throw .help
  | .version, _ => throw .version
  | o, value => r.give (.option o) (value.getD "set")

/-- An operand; there are only so many. -/
def operand (g : Grammar) (r : Reading) (word : String) : Step Reading := do
  let r ← r.settle
  if (r.given.filter (·.1 = .operand)).length < g.operands then
    return { r with pending := some (.operand, some word) }
  else throw .misuse

/-- A word of the form `--name` or `--name=value`. -/
def long (g : Grammar) (r : Reading) (name : String) (value : Option String) : Step Reading :=
  match Opt.long? name with
  | none => throw .misuse
  | some o =>
    if !g.options.contains o then throw .misuse
    else
      match o.takesValue, value with
      | true, none => do return { ← r.settle with pending := some (.option o, none) }
      | true, some v => r.attached o (some v)
      | false, none => r.attached o none
      | false, some _ => throw .misuse

/-- The letters behind one dash; what follows an option with a value is its value. -/
def letters (g : Grammar) (r : Reading) : List Char → Step Reading
  | [] => return r
  | c :: rest =>
    match Opt.short? c with
    | none => throw .misuse
    | some o =>
      if !g.options.contains o then throw .misuse
      else if !o.takesValue then do letters g (← r.attached o none) rest
      else
        match rest with
        | [] => do return { ← r.settle with pending := some (.option o, none) }
        | '=' :: value => r.attached o (some (String.ofList value))
        | value => r.attached o (some (String.ofList value))

/-- A word that is neither the name of a command nor a value. -/
def word (g : Grammar) (r : Reading) (w : String) : Step Reading :=
  match w.toList with
  | '-' :: '-' :: rest =>
    r.long g (String.ofList (rest.takeWhile (· ≠ '=')))
      ((rest.dropWhile (· ≠ '=')).tail?.map String.ofList)
  | '-' :: c :: rest => r.letters g (c :: rest)
  | _ => r.operand g w

/-- Whether a word is an option rather than a value. -/
def isOption (w : String) : Bool :=
  match w.toList with
  | '-' :: _ :: _ => true
  | _ => false

/-- Read words up to the end, or up to the name of a command. Behind two dashes alone there are
only operands. -/
def words (g : Grammar) : Reading → List String → Step (Reading × Option (String × List String))
  | r, [] => return (r, none)
  | r, w :: rest =>
    match r.waiting? with
    | some s =>
      if isOption w then throw .misuse
      else words g { r with pending := some (s, some w) } rest
    | none =>
      if g.commands.contains w then return (r, some (w, rest))
      else if w = "--" then do return (← rest.foldlM (operand g) r, none)
      else do words g (← r.word g w) rest

/-- The path in a slot. -/
def path? (r : Reading) (s : Slot) : Option Path := (r.value? s).map Path.mk

def isSet (r : Reading) (o : Opt) : Bool := (r.value? (.option o)).isSome

/-- The operand that a command must have. -/
def input (r : Reading) : Step Path :=
  match r.path? .operand with
  | some p => return p
  | none => throw .misuse

end Reading

/-! ## Command lines -/

/-- Read all the words that follow the name of a command. -/
def readAll (g : Grammar) (words : List String) : Step Reading := do
  let (r, _) ← Reading.empty.words g words
  r.settle

/-- The commands that help is asked for must exist. -/
def helpFor : List String → Step Command
  | [] => throw .help
  | [name] => if Grammar.top.commands.contains name then throw .help else throw .misuse
  | _ => throw .misuse

/-- The command of that name, with the words that follow it. -/
def named (name : String) (words : List String) : Step Command :=
  match name with
  | "build" => do
    let r ← readAll .build words
    let target := (r.value? (.option .target)).getD defaultTarget
    return .build ⟨← r.input, r.path? (.option .output), r.isSet .object, target⟩
  | "check" => do
    let r ← readAll .check words
    return .check (← r.input) (r.isSet .json)
  | "version" => do
    discard (readAll .version words)
    return .version
  | _ => helpFor words

/-- The command that a command line asks for. Without the name of a command the operand is built;
what stands before a name is examined but of no effect. -/
def Command.ofWords (words : List String) : Step Command := do
  let (r, rest) ← Reading.empty.words .top words
  match rest with
  | some (name, rest) =>
    let c ← named name rest
    discard r.settle
    return c
  | none =>
    let r ← r.settle
    match r.path? .operand with
    | some input => return .build ⟨input, r.path? (.option .output), false, defaultTarget⟩
    | none => return .nothing

end MiddleEnd.CommandLine
