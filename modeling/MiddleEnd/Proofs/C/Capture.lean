/-
  Names of the whole program within functions. C finds a constant, a variable or a function by its
  name, so within a function a parameter or a variable hides whatever has the same name in the whole
  program, from its declaration on, its own initial value included.

  `Program.references` lists the references of a block to the whole program, each with the names in
  whose scope it stands; `Program.Captures` says that one of them is hidden.
-/
import MiddleEnd.Proofs.Lower.Changes

namespace MiddleEnd.C

/-- Numbers in names are told apart. -/
theorem repr_inj {m n : Nat} : m.repr = n.repr ↔ m = n := by
  refine ⟨fun h => ?_, congrArg _⟩
  rw [Nat.repr_eq_ofList_toDigits, Nat.repr_eq_ofList_toDigits, String.ofList_inj] at h
  have hvalue := congrArg (fun ds => Nat.ofDigitChars 10 ds 0) h
  rwa [Nat.ofDigitChars_ten_toDigits, Nat.ofDigitChars_ten_toDigits] at hvalue

/-- The name under which the statement declares a variable. -/
def Stmt.name? : Stmt → Option String
  | .declare _ _ name _ => some name
  | _ => none

namespace Program

/-- The variable is one of the whole program. -/
def isGlobal (p : Program) (v : VarId) : Bool :=
  (p.vars[v.index]?).any fun x => x.global.isSome

mutual

/-- The names by which an expression refers to constants, variables and functions of the whole
program. -/
def globals (p : Program) : Expr → List String
  | .constant name => [name]
  | .var v name => if p.isGlobal v then [name] else []
  | .binary _ lhs rhs => p.globals lhs ++ p.globals rhs
  | .call _ name args => name :: p.globalsAll args
  | .index base position => p.globals base ++ p.globals position
  | .array _ values => p.globalsAll values
  | .struct _ values => p.globalsAll values
  | .verbatim _ | .int .. | .float .. | .bool _ | .unit => []

def globalsAll (p : Program) : List Expr → List String
  | [] => []
  | e :: rest => p.globals e ++ p.globalsAll rest

end

/-- The names by which a statement itself refers to the whole program. -/
def stmtGlobals (p : Program) : Stmt → List String
  | .expr e => p.globals e
  | .declare _ _ _ init => p.globalsAll init.toList
  | .assign target value => p.globals target ++ p.globals value
  | .ret value => p.globalsAll value.toList
  | .block _ => []
  | .branch condition _ _ => p.globals condition

/-- The references in statements, and in the blocks within them as `inner` gives them. -/
def referencesIn (p : Program) (inner : List String → BlockId → List (String × List String)) :
    List String → List Stmt → List (String × List String)
  | _, [] => []
  | scope, s :: rest =>
    let scope := s.name?.toList ++ scope
    (p.stmtGlobals s).map (·, scope) ++ (s.blocks.flatMap (inner scope) ++
      p.referencesIn inner scope rest)

/-- The references in a block and in the blocks within it, down to a depth: each name with the
names in whose scope it stands. -/
def references (p : Program) : (depth : Nat) → List String → BlockId → List (String × List String)
  | 0, _, _ => []
  | depth + 1, scope, b => p.referencesIn (p.references depth) scope (p.statements b)

/-- The names of the parameters of a function. -/
def paramNames (p : Program) (f : Function) : List String :=
  f.params.filterMap fun v => (p.vars[v.index]?).map (·.name)

/-- The references of a function, each with the names in whose scope it stands. -/
def functionReferences (p : Program) (f : FunctionId) : List (String × List String) :=
  match p.functions[f.index]? with
  | some x =>
    match x.body with
    | some body => p.references p.blocks.size (p.paramNames x) body
    | none => []
  | none => []

/-- A reference of the function to the whole program by this name finds a parameter or a variable of
the function instead. -/
def Captures (p : Program) (f : FunctionId) (name : String) : Prop :=
  ∃ r ∈ p.functionReferences f, r.1 = name ∧ name ∈ r.2

instance (p : Program) (f : FunctionId) (name : String) : Decidable (p.Captures f name) :=
  inferInstanceAs (Decidable (∃ r ∈ _, _))

variable {p : Program} {P : BlockId → Prop} {Q : String → Prop} {r : String × List String}

theorem forall_mem_scope {s : Stmt} {scope : List String} (hs : ∀ name, s.name? = some name → Q name)
    (hQ : ∀ name ∈ scope, Q name) : ∀ name ∈ s.name?.toList ++ scope, Q name := by
  intro name hn
  rcases List.mem_append.1 hn with hn | hn
  · exact hs name (Option.mem_toList.1 hn)
  · exact hQ name hn

theorem scope_referencesIn {inner : List String → BlockId → List (String × List String)}
    (hinner : ∀ scope b, P b → (∀ name ∈ scope, Q name) → r ∈ inner scope b →
      ∀ name ∈ r.2, Q name) :
    ∀ (ss : List Stmt) (scope : List String),
      (∀ s ∈ ss, (∀ name, s.name? = some name → Q name) ∧ ∀ c ∈ s.blocks, P c) →
      (∀ name ∈ scope, Q name) → r ∈ p.referencesIn inner scope ss → ∀ name ∈ r.2, Q name := by
  intro ss
  induction ss with
  | nil => exact fun _ _ _ hr => absurd hr List.not_mem_nil
  | cons s rest ih =>
    intro scope hall hscope hr
    obtain ⟨⟨hname, hblocks⟩, hrest⟩ := List.forall_mem_cons.1 hall
    have hin := forall_mem_scope hname hscope
    simp only [referencesIn, List.mem_append, List.mem_map, List.mem_flatMap] at hr
    rcases hr with ⟨_, _, rfl⟩ | ⟨c, hc, hr⟩ | hr
    · exact hin
    · exact hinner _ c (hblocks c hc) hin hr
    · exact ih _ hrest hin hr

/-- Every name in scope at a reference is one of those in scope at the start, or one under which a
statement of the blocks declares a variable. -/
theorem scope_references
    (hP : ∀ b, P b → ∀ s ∈ p.statements b,
      (∀ name, s.name? = some name → Q name) ∧ ∀ c ∈ s.blocks, P c) :
    ∀ (depth : Nat) (scope : List String) (b : BlockId), P b → (∀ name ∈ scope, Q name) →
      r ∈ p.references depth scope b → ∀ name ∈ r.2, Q name := by
  intro depth
  induction depth with
  | zero => exact fun _ _ _ _ hr => absurd hr List.not_mem_nil
  | succ depth ih =>
    intro scope b hb hscope hr
    exact scope_referencesIn ih _ _ (hP b hb) hscope hr

end Program

end MiddleEnd.C
