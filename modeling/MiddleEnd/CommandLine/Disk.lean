/-
  A working directory as a value: the directories in it, and the files with their contents. Paths
  that lead out of it lead nowhere.
-/
import MiddleEnd.CommandLine.Path

namespace MiddleEnd.CommandLine

inductive Content
  | text (s : String)
  /-- An object file; what is in it does not matter. -/
  | object
  deriving DecidableEq, Repr

/-- Where a file is: the names that lead to it. -/
abbrev Place := List String

structure Disk where
  directories : List Place
  files : List (Place × Content)
  deriving Repr

/-- Why a file cannot be read or written. -/
inductive Refusal
  | missing
  | notADirectory
  | isADirectory
  | notText
  deriving DecidableEq, Repr

def Refusal.message : Refusal → String
  | missing => "No such file or directory (os error 2)"
  | notADirectory => "Not a directory (os error 20)"
  | isADirectory => "Is a directory (os error 21)"
  | notText => "stream did not contain valid UTF-8"

namespace Disk

/-- Follow a path from a directory to the place that it names. -/
def follow (d : Disk) : Place → List Path.Part → Except Refusal Place
  | dir, [] => .ok dir
  | _, .root :: _ => .error .missing
  | dir, .here :: rest => d.follow dir rest
  | dir, .parent :: rest => if dir = [] then .error .missing else d.follow dir.dropLast rest
  | dir, [.name n] => .ok (dir ++ [n])
  | dir, .name n :: rest =>
    let next := dir ++ [n]
    if d.directories.contains next then d.follow next rest
    else if (d.files.lookup next).isSome then .error .notADirectory
    else .error .missing

/-- The place of a file, which need not exist. -/
def place (d : Disk) (p : Path) : Except Refusal Place := do
  if p.text = "" then throw .missing
  let place ← d.follow [] p.parts
  if d.directories.contains place then throw .isADirectory
  if p.namesDirectory then
    throw (if (d.files.lookup place).isSome then .notADirectory else .isADirectory)
  return place

def read (d : Disk) (p : Path) : Except Refusal String := do
  match d.files.lookup (← d.place p) with
  | some (.text s) => return s
  | some .object => throw .notText
  | none => throw .missing

/-- Replace a file, or make a new one. -/
def put (d : Disk) (place : Place) (c : Content) : Disk :=
  { d with files := (place, c) :: d.files.filter (·.1 ≠ place) }

theorem lookup_put (d : Disk) (place : Place) (c : Content) :
    (d.put place c).files.lookup place = some c := by
  simp [put]

theorem lookup_filter_ne {place other : Place} (h : other ≠ place)
    (files : List (Place × Content)) :
    (files.filter (·.1 ≠ place)).lookup other = files.lookup other := by
  induction files with
  | nil => rfl
  | cons f rest ih =>
    obtain ⟨key, content⟩ := f
    by_cases hf : key = place
    · have : (other == key) = false := by simp [hf, h]
      simpa [hf, List.lookup_cons, this, show (other == place) = false by simp [h]] using ih
    · rw [List.filter_cons_of_pos (by simpa using hf), List.lookup_cons, List.lookup_cons, ih]

/-- A file that is written changes no other. -/
theorem lookup_put_of_ne (d : Disk) {place other : Place} (h : other ≠ place) (c : Content) :
    (d.put place c).files.lookup other = d.files.lookup other := by
  have : (other == place) = false := by simp [h]
  simp only [put, List.lookup_cons, this]
  exact lookup_filter_ne h d.files

def write (d : Disk) (p : Path) (c : Content) : Except Refusal Disk := do
  return d.put (← d.place p) c

/-- Remove a file, if there is one. -/
def remove (d : Disk) (p : Path) : Disk :=
  match d.place p with
  | .ok place => { d with files := d.files.filter (·.1 ≠ place) }
  | .error _ => d

/-- The directories that lead to a place. -/
def above (place : Place) : List Place := (List.range place.length).map place.take

/-- The disk with these files, by their paths. -/
def ofFiles (files : List (Path × String)) : Disk :=
  let placed := files.map fun (p, s) =>
    (p.parts.filterMap fun | .name n => some n | _ => none, Content.text s)
  { directories := [] :: placed.flatMap fun f => above f.1
    files := placed }

/-- The files that are new or changed. -/
def changes (before after : Disk) : List (Place × Content) :=
  after.files.filter fun f => before.files.lookup f.1 ≠ some f.2

end Disk

end MiddleEnd.CommandLine
