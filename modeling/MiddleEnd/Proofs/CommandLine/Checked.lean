/-
  What checking tells. A fatal problem is the last thing that is reported: it is reported as the
  check ends with it, and nothing is reported after it (`Session.fatal_last`). So a command that
  prints what was reported, and then keeps quiet about a fault that has a position, hides no fault:
  its last diagnostic is that fault (`Told`).
-/
import MiddleEnd.CommandLine.Execution
import MiddleEnd.Proofs.Check.Halts
import MiddleEnd.Proofs.UnitText.RoundTrip

namespace MiddleEnd

/-- Diagnostics as they are printed, one on each line. -/
def Diagnostic.lines : List Diagnostic → String
  | [] => ""
  | d :: ds => s!"{d.location.text}: {d.message}\n" ++ lines ds

namespace CommandLine

namespace Machine

/-- The machine after diagnostics are printed. -/
def reported (m : Machine) (ds : List Diagnostic) (json : Bool) : Machine :=
  if json then { m with out := m.out ++ (Diagnostic.listText ds ++ "\n") }
  else { m with err := m.err ++ Diagnostic.lines ds }

/-- The machine after a command failed with that message. -/
def failed (m : Machine) (message : String) : Machine :=
  { m with err := m.err ++ s!"Error: {message}\n" }

/-- The file holds the text of the unit. -/
def Loads (m : Machine) (input : Path) (u : CompilationUnit) : Prop :=
  ∃ text, m.disk.read input = .ok text ∧ CompilationUnit.ofText? text = some u

end Machine

/-- How a fault of a check is told: as the last of the diagnostics that are printed, or else after
them. -/
inductive Told (m : Machine) (json : Bool) : Fault → Machine → Prop
  | reported (ds : List Diagnostic) (l : Location) (q : Problem) :
      Told m json (.fatal l q) (m.reported (ds ++ [⟨.fatal, q, l⟩]) json)
  | failed (ds : List Diagnostic) {f : Fault} (nowhere : f.location? = none) :
      Told m json f ((m.reported ds json).failed f.message)

namespace Script

theorem run_report (ds : List Diagnostic) (json : Bool) (next : Script) :
    ∀ m : Machine, (report ds json next).run m = next.run (m.reported ds json) := by
  cases json with
  | true => exact fun _ => rfl
  | false =>
    induction ds with
    | nil =>
      intro m
      show next.run m = next.run { m with err := m.err ++ "" }
      rw [String.append_empty]
    | cons d ds ih =>
      intro m
      refine (ih { m with err := m.err ++ s!"{d.location.text}: {d.message}\n" }).trans ?_
      show next.run { m with err := m.err ++ _ ++ _ } = next.run { m with err := m.err ++ (_ ++ _) }
      rw [String.append_assoc]

theorem run_checked {m : Machine} {input : Path} {u : CompilationUnit} (h : m.Loads input u)
    (json : Bool) (next : Session → Script) :
    (checked input json next).run m =
      (afterCheck (Session.ofUnit u).check.1 (Session.ofUnit u).check.2 next).run
        (m.reported (Session.ofUnit u).check.2.diagnostics json) := by
  obtain ⟨text, hread, hunit⟩ := h
  rw [checked, Script.run, hread]
  dsimp only [Except.mapError]
  rw [hunit]
  exact run_report ..

theorem run_afterCheck_error (f : Fault) (s : Session) (next : Session → Script) (m : Machine) :
    (afterCheck (.error f) s next).run m =
      (1, if f.location?.isSome then m else m.failed f.message) := by
  cases f <;> rfl

end Script

end CommandLine

namespace Session

open Check CommandLine

/-- What a check with result `r` reports: a fatal problem only if it ends with it, and then as the
last one, after errors. -/
structure FatalLast (r : Except Fault Unit) (ds : List Diagnostic) : Prop where
  iff : (∃ d ∈ ds, d.severity = .fatal) ↔ ∃ l q, r = .error (.fatal l q)
  last : ∀ l q, r = .error (.fatal l q) →
    ∃ es : List Diagnostic, (∀ d ∈ es, d.severity = .error) ∧ ds = es ++ [⟨.fatal, q, l⟩]

theorem fatalLast_of_errors {es : List Diagnostic} (hes : ∀ d ∈ es, d.severity = .error)
    (r : Except Fault Unit) : FatalLast r (es ++ faultReports r) where
  iff := by
    constructor
    · rintro ⟨d, hd, hfatal⟩
      rcases List.mem_append.1 hd with hd | hd
      · rw [hes d hd] at hfatal
        cases hfatal
      · cases r with
        | ok a => cases hd
        | error e =>
          cases e with
          | fatal l q => exact ⟨l, q, rfl⟩
          | _ => cases hd
    · rintro ⟨l, q, rfl⟩
      exact ⟨⟨.fatal, q, l⟩, List.mem_append_right _ (List.mem_singleton_self _), rfl⟩
  last := by
    rintro l q rfl
    exact ⟨es, hes, rfl⟩

/-- Every check of every session reports a fatal problem exactly if it ends with it, once and last.
A command that prints what the check of a unit reports fails wherever the check does, and tells the
fault. -/
theorem fatal_last :
    (∀ s : Session, ∃ ds, s.check.2.diagnostics = s.diagnostics ++ ds ∧
      FatalLast s.check.1 ds) ∧
    ∀ (m : Machine) (input : Path) (u : CompilationUnit) (json : Bool) (next : Session → Script)
      (f : Fault), m.Loads input u → (ofUnit u).check.1 = .error f →
        ((Script.checked input json next).run m).1 = 1 ∧
          Told m json f ((Script.checked input json next).run m).2 := by
  have hreports : ∀ s : Session, ∃ es : List Diagnostic, (∀ d ∈ es, d.severity = .error) ∧
      s.check.2.diagnostics = s.diagnostics ++ es ++ faultReports s.check.1 :=
    fun s => (framed_check s).reported
  constructor
  · intro s
    obtain ⟨es, hes, hd⟩ := hreports s
    exact ⟨_, hd.trans (List.append_assoc ..), fatalLast_of_errors hes _⟩
  · intro m input u json next f hloads hr
    rw [Script.run_checked hloads, hr, Script.run_afterCheck_error]
    refine ⟨rfl, ?_⟩
    cases f with
    | fatal l q =>
      obtain ⟨es, -, hd⟩ := hreports (ofUnit u)
      rw [hr] at hd
      rw [hd]
      exact .reported _ l q
    | _ => exact .failed _ rfl

open Samples in
/-- `indexing` in a file: an error and then a fatal problem are reported, and the rest of the body
is not looked at. -/
theorem fatal_last_indexing :
    let m : Machine := ⟨⟨[[]], [(["unit.json"], .text indexing.toText)]⟩, [], "", ""⟩
    let fault : Fault := .fatal ⟨0, 1, 1⟩ .notAnArray
    (ofUnit indexing).check.1 = .error fault ∧ m.Loads ⟨"unit.json"⟩ indexing ∧
      (∃ ds, (ofUnit indexing).check.2.diagnostics = (ofUnit indexing).diagnostics ++ ds ∧
        FatalLast (.error fault) ds) ∧
      ((Script.checked ⟨"unit.json"⟩ false fun _ => .exit 0).run m).1 = 1 ∧
      Told m false fault ((Script.checked ⟨"unit.json"⟩ false fun _ => .exit 0).run m).2 := by
  intro m fault
  have hr : (ofUnit indexing).check.1 = .error fault := by decide +kernel
  have hloads : m.Loads ⟨"unit.json"⟩ indexing := by
    refine ⟨indexing.toText, ?_, CompilationUnit.ofText_toText (by decide +kernel)⟩
    rfl
  exact ⟨hr, hloads, hr ▸ fatal_last.1 (ofUnit indexing),
    fatal_last.2 m ⟨"unit.json"⟩ indexing false (fun _ => .exit 0) fault hloads hr⟩

end Session

end MiddleEnd
