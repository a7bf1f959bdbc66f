/-
  The command line on a real machine. Steps of a script are carried out one by one; no other program
  is started, so there is no C compiler.
-/
import MiddleEnd.CommandLine.Execution

namespace MiddleEnd.CommandLine

/-- What came of an action, with its failure as text. -/
def attempt {α : Type} (act : IO α) : IO (Except String α) := do
  try return .ok (← act)
  catch e => return .error (toString e)

/-- Carry out a script and give its exit code. -/
def Script.perform : Script → IO UInt32
  | .exit code => return code.toUInt32
  | .say text next => do
    IO.print text
    next.perform
  | .complain text next => do
    IO.eprint text
    next.perform
  | .read path next => do (next (← attempt (IO.FS.readFile path.text))).perform
  | .write path text next => do (next (← attempt (IO.FS.writeFile path.text text))).perform
  | .remove path next => do
    discard (attempt (IO.FS.removeFile path.text))
    next.perform
  | .compile _ _ next => (next (.error Refusal.missing.message)).perform

end MiddleEnd.CommandLine

def main (words : List String) : IO UInt32 := do
  let temporary := (← IO.getEnv "TMPDIR").getD "/tmp"
  (MiddleEnd.CommandLine.script ⟨temporary⟩ words).perform
