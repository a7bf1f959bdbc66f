/-
  Paths of files as they are given on a command line. A path is kept as it was written; its parts
  say which paths are written for the same file, and which name the file has.
-/

namespace MiddleEnd.CommandLine

/-- A path, as it was written. -/
structure Path where
  text : String
  deriving DecidableEq, Repr

/-- The pieces of a text between slashes; there is always one more than there are slashes. -/
def splitSlash : List Char → List (List Char)
  | [] => [[]]
  | '/' :: rest => [] :: splitSlash rest
  | c :: rest =>
    match splitSlash rest with
    | [] => [[c]]
    | piece :: others => (c :: piece) :: others

theorem splitSlash_ne_nil (cs : List Char) : splitSlash cs ≠ [] := by
  fun_cases splitSlash cs <;> simp

/-- There is one more piece than there are slashes. -/
theorem length_splitSlash (cs : List Char) : (splitSlash cs).length = cs.count '/' + 1 := by
  fun_induction splitSlash cs with
  | case1 => rfl
  | case2 rest ih => simp [ih]
  | case3 c rest h hnil ih => exact absurd hnil (splitSlash_ne_nil rest)
  | case4 c rest h piece others hcons ih =>
    have : c ≠ '/' := fun e => h e
    simpa [hcons, List.count_cons, this] using ih

namespace Path

inductive Part
  | root
  /-- The directory a path starts from, where the path says so. -/
  | here
  | parent
  | name (s : String)
  deriving DecidableEq, Repr

/-- The part that a piece stands for; nothing and a single dot stand for none. -/
def part? (piece : List Char) : Option Part :=
  match piece with
  | [] | ['.'] => none
  | ['.', '.'] => some .parent
  | _ => some (.name (String.ofList piece))

def pieces (p : Path) : List (List Char) := splitSlash p.text.toList

/-- The parts of a path. Repeated slashes, a slash at the end and single dots do not count, except
for a dot at the very start. -/
def parts (p : Path) : List Part :=
  match p.pieces with
  | [] :: (_ :: _) => .root :: p.pieces.filterMap part?
  | ['.'] :: _ => .here :: p.pieces.filterMap part?
  | _ => p.pieces.filterMap part?

/-- Whether two paths are written for the same file, as far as their texts show. -/
def same (p q : Path) : Bool := p.parts = q.parts

/-- Whether a path can only name a directory. -/
def namesDirectory (p : Path) : Bool :=
  match p.pieces.getLast? with
  | some piece => part? piece = none || part? piece = some .parent
  | none => true

/-! ## Extensions -/

/-- A name without what follows its last dot; a dot at the start does not count. -/
def stem (name : List Char) : List Char :=
  match (name.reverse.dropWhile (· ≠ '.')).drop 1 with
  | [] => name
  | c :: rest => (c :: rest).reverse

/-- A path with another extension, from its characters in reverse: what follows the name goes, and
the name gets the extension in place of its own. A name that is two dots without its extension is
that of the parent directory then, and gets no other. -/
def withExtension (p : Path) (extension : String) : Path :=
  match p.parts.getLast? with
  | some (.name _) =>
    let trimmed := trim p.text.toList.reverse
    let name := (trimmed.takeWhile (· ≠ '/')).reverse
    let before := (trimmed.dropWhile (· ≠ '/')).reverse
    if stem name = ['.'] then ⟨String.ofList (before ++ ['.', '.'])⟩
    else ⟨String.ofList (before ++ stem name) ++ "." ++ extension⟩
  | _ => p
where
  /-- Drop slashes and single dots that follow the name. -/
  trim : List Char → List Char
  | '/' :: rest => trim rest
  | '.' :: '/' :: rest => trim rest
  | cs => cs

/-- The path of a name in a directory. -/
def inside (directory : Path) (name : String) : Path :=
  if directory.text = "" then ⟨name⟩
  else if directory.text.toList.getLast? = some '/' then ⟨directory.text ++ name⟩
  else ⟨directory.text ++ "/" ++ name⟩

end Path

end MiddleEnd.CommandLine
