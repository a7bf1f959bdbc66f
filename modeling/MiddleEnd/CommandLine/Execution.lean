/-
  The script of each command. Checking prints what was reported; building writes C or an object
  file, and only for a program without errors. The C for an object file goes to a temporary file,
  which is removed again.
-/
import MiddleEnd.CommandLine.Arguments
import MiddleEnd.CommandLine.Script
import MiddleEnd.Lower.Program

namespace MiddleEnd.CommandLine

def versionText : String := "tyirc 0.1.0\n"

/-- What help says. -/
def helpText : String :=
  "Usage: tyirc [OPTIONS] [FILE]\n       tyirc <COMMAND>\n\nCommands:\n" ++
  "  build    Check and lower a compilation unit\n" ++
  "  check    Type check a compilation unit\n" ++
  "  version  Print version information\n" ++
  "  help     Print this message\n"

namespace Script

/-- End in an error. -/
def fail (message : String) : Script := .complain s!"Error: {message}\n" (.exit 1)

/-- Print diagnostics, as a document or one on each line. -/
def report (ds : List Diagnostic) (json : Bool) (next : Script) : Script :=
  if json then .say (Diagnostic.listText ds ++ "\n") next
  else ds.foldr (fun d t => .complain s!"{d.location.text}: {d.message}\n" t) next

/-- What follows a check. A fault with a position is among the diagnostics already. -/
def afterCheck (outcome : Except Fault Unit) (s : Session) (next : Session → Script) : Script :=
  match outcome with
  | .ok () => if s.diagnostics.isEmpty then next s else .exit 1
  | .error f => if f.location?.isSome then .exit 1 else fail f.message

/-- Read a unit, check it and print what was reported; `next` is for units without errors. -/
def checked (input : Path) (json : Bool) (next : Session → Script) : Script :=
  .read input fun
    | .error reason => fail s!"failed to read {input.text}: {reason}"
    | .ok text =>
      match CompilationUnit.ofText? text with
      | none => fail "malformed compilation unit"
      | some u =>
        let (outcome, s) := (Session.ofUnit u).check
        report s.diagnostics json (afterCheck outcome s next)

/-- The end of building: where the output is. -/
def done (output : Path) : Script := .say s!"Output: {output.text}\n" (.exit 0)

/-- Write C, but not over the input. -/
def writeC (input output : Path) (text : String) : Script :=
  if output.same input then fail s!"refusing to overwrite input {input.text}"
  else .write output text fun
    | .error reason => fail s!"failed to write {output.text}: {reason}"
    | .ok () => done output

/-- The compilers that are tried, in this order. -/
def compilers : List String := ["clang", "gcc", "cc"]

/-- Try compilers until one succeeds. `said` is what the last one said. -/
def tryCompilers (job : Job) (said : String) : List String → Script
  | [] =>
    .remove job.source (fail (Fault.codegen s!"Failed to compile C code: {said}").message)
  | compiler :: rest => .compile compiler job fun
    | .ok () => .remove job.source (done job.object)
    | .error reason => tryCompilers job reason rest

/-- Compile to an object file, by way of a temporary file. -/
def writeObject (temporary output : Path) (l : Lowering) : Script :=
  let source := temporary.inside "tyir_temp.c"
  .write source l.c.output fun
    | .error reason => fail (Fault.io reason).message
    | .ok () => tryCompilers ⟨source, output⟩ "" compilers

/-- Build what is asked for. -/
def build (temporary : Path) (b : Build) : Script :=
  checked b.input false fun s =>
    match s.lower b.target with
    | (.error f, _) => fail f.message
    | (.ok (), l) =>
      if b.object then writeObject temporary (b.output.getD (b.input.withExtension "o")) l
      else writeC b.input (b.output.getD (b.input.withExtension "c")) l.c.output

/-- Check, and say so if there is nothing else to say. -/
def check (input : Path) (json : Bool) : Script :=
  checked input json fun _ => if json then .exit 0 else .say "No errors found\n" (.exit 0)

end Script

/-- The script of a command; `temporary` is the directory for temporary files. -/
def Command.script (temporary : Path) : Command → Script
  | .build b => .build temporary b
  | .check input json => .check input json
  | .version => .say versionText (.exit 0)
  | .nothing => .complain
      "Error: No input file specified\nUsage: tyirc <FILE> or tyirc build <FILE>\n" (.exit 1)

/-- What to do instead of a command. -/
def Stop.script : Stop → Script
  | .help => .say helpText (.exit 0)
  | .version => .say versionText (.exit 0)
  | .misuse => .complain "error: the command line is not understood\n" (.exit 2)

/-- The script of a command line. -/
def script (temporary : Path) (words : List String) : Script :=
  match Command.ofWords words with
  | .ok c => c.script temporary
  | .error s => s.script

end MiddleEnd.CommandLine
