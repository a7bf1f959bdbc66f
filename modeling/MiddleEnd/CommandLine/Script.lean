/-
  What a command does, as data: a tree of steps, each with what follows it for every way the step
  can turn out. A script is carried out here on a machine that is a value, so everything a command
  does to files can be read off.
-/
import MiddleEnd.CommandLine.Disk

namespace MiddleEnd.CommandLine

/-- A C program to be compiled: its text is in a file, and the object file goes to another. -/
structure Job where
  source : Path
  object : Path

inductive Script
  | exit (code : Nat)
  /-- Text on standard output. -/
  | say (text : String) (next : Script)
  /-- Text on standard error. -/
  | complain (text : String) (next : Script)
  /-- The text of a file, or why it cannot be read. -/
  | read (path : Path) (next : Except String String → Script)
  | write (path : Path) (text : String) (next : Except String Unit → Script)
  /-- Remove a file; it is no matter if there is none. -/
  | remove (path : Path) (next : Script)
  /-- Run a C compiler by name; an error tells what it says, or why it does not run. -/
  | compile (compiler : String) (job : Job) (next : Except String Unit → Script)

/-! ## Machines -/

/-- A machine: its files, its C compilers, and what was written to the standard streams. -/
structure Machine where
  disk : Disk
  /-- The compilers there are, by name, with the programs that each accepts. -/
  compilers : List (String × (String → Bool))
  out : String
  err : String

namespace Machine

/-- The path by which a compiler knows the standard output, where it leaves no object files. -/
def standardOutput : Path := ⟨"-"⟩

/-- What a compiler does: it leaves an object file where it is told to, unless it refuses the text
or cannot write there. It does not write over the text it compiles. -/
def compile (m : Machine) (compiler : String) (job : Job) : Except String Machine := do
  let accepts ← match m.compilers.lookup compiler with
    | some accepts => pure accepts
    | none => throw Refusal.missing.message
  let source ← (m.disk.place job.source).mapError Refusal.message
  let text ← (m.disk.read job.source).mapError Refusal.message
  if !accepts text then throw "the program is not accepted"
  if job.object = standardOutput then throw "an object file cannot be written there"
  let object ← (m.disk.place job.object).mapError Refusal.message
  if object = source then throw "input file is the same as output file"
  return { m with disk := m.disk.put object .object }

end Machine

/-- Carry out a script. -/
def Script.run : Script → Machine → Nat × Machine
  | .exit code, m => (code, m)
  | .say text next, m => next.run { m with out := m.out ++ text }
  | .complain text next, m => next.run { m with err := m.err ++ text }
  | .read path next, m => (next ((m.disk.read path).mapError Refusal.message)).run m
  | .write path text next, m =>
    match m.disk.write path (.text text) with
    | .ok disk => (next (.ok ())).run { m with disk := disk }
    | .error e => (next (.error e.message)).run m
  | .remove path next, m => next.run { m with disk := m.disk.remove path }
  | .compile compiler job next, m =>
    match m.compile compiler job with
    | .ok m => (next (.ok ())).run m
    | .error e => (next (.error e)).run m

end MiddleEnd.CommandLine
