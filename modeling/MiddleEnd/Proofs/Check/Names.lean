/-
  What values are called does not matter to a check. Two units that differ only in the names of
  identifiers, of `let`s and parameters, of functions, constants and static items are checked alike:
  to the same outcome, with reports of the same severity at the same locations in the same order,
  and with types that differ at most in the names of parameters (`Session.alike_of_unnamed`).

  Both checks translate the check of the unit with all these names left blank. Names of structs and
  fields and those in annotations stay, since they decide what is found.
-/
import MiddleEnd.Proofs.Check.Idempotent
import MiddleEnd.Proofs.Check.Translate
import MiddleEnd.Proofs.Syntax.Samples

namespace MiddleEnd

variable {ρ : Renumbering} {ν : String → String}

/-- The unit with the names of all values left blank. -/
def CompilationUnit.unnamed (u : CompilationUnit) : CompilationUnit :=
  { u with program := u.program.translate .refl fun _ => "" }

/-- The type with the names of all parameters of functions left blank. -/
def Ty.unnamed (t : Ty) : Ty := t.translate .refl fun _ => ""

/-- What is seen of checks of two sessions is the same, but for the names of parameters. -/
structure Session.AlikeUnnamed (s s' : Session) : Prop where
  outcome : SameOutcome s.check.1 s'.check.1
  reports : s.check.2.diagnostics.map (fun d => (d.severity, d.location)) =
    s'.check.2.diagnostics.map fun d => (d.severity, d.location)
  types : ∀ id, (s.check.2.types.get? id).map Ty.unnamed = (s'.check.2.types.get? id).map Ty.unnamed

/-! ## The tables of a blank unit -/

theorem Program.nodes_unnamed (p : Program) : (p.translate .refl ν).nodes = p.nodes := by
  rw [nodes_translate]
  exact List.map_id _

theorem Program.typePaths_unnamed (p : Program) :
    (p.translate .refl ν).typePaths = p.typePaths := by
  rw [typePaths_translate]
  exact List.map_id _

namespace Bindings

theorem implied?_unnamed (b : Bindings) (p : Program) (name : String) :
    b.implied? (p.translate .refl ν) name = b.implied? p name := by
  unfold implied?
  rw [Program.struct?_translate]
  cases b.builtin? name with
  | some _ => rfl
  | none => exact congrFun Option.map_id _

theorem ofUnit_unnamed (b : Bindings) (u : CompilationUnit) : b.ofUnit u.unnamed = b.ofUnit u := by
  have hitems : ∀ b : Bindings,
      b.addItems u.unnamed.program.items = b.addItems u.program.items := by
    intro b
    exact List.foldl_map
  have hpaths : ∀ b : Bindings, b.addTypePaths u.unnamed.program = b.addTypePaths u.program := by
    intro b
    unfold addTypePaths CompilationUnit.unnamed
    rw [Program.typePaths_unnamed]
    simp only [implied?_unnamed]
  unfold ofUnit
  rw [hitems, hpaths]
  rfl

end Bindings

/-! ## Sessions -/

theorem Registry.renumbers_refl (r : Registry) : r.Renumbers .refl r where
  node? _ := (congrFun Option.map_id _).symm
  location _ := rfl

theorem Bindings.renumbers_refl (b : Bindings) : b.Renumbers .refl b where
  name? _ := (congrFun Option.map_id _).symm
  type? _ := (congrFun Option.map_id _).symm
  definition? _ := (congrFun Option.map_id _).symm
  builtins := (List.map_id _).symm

namespace TypeTable

variable {t : TypeTable}

/-- Names change nothing about a table of types without parameters. -/
theorem Translates.addBuiltin (h : t.Translates .refl ν t) (node : SurfaceId) (name : String)
    {ty : Ty} (hty : ty.translate .refl ν = ty) :
    (t.addBuiltin node name ty).Translates .refl ν (t.addBuiltin node name ty) where
  builtins := by
    unfold TypeTable.addBuiltin
    rw [List.map_append, ← h.builtins, List.map_singleton, hty]
  builtinId? _ := (congrFun Option.map_id _).symm
  get? id := by
    show (t.addBuiltin node name ty).get? id = _
    rw [get?_addBuiltin]
    split
    · rw [Option.map_some, hty]
    · exact h.get? id
  returns := h.returns

theorem Translates.addBuiltins (bs : List Builtin) : ∀ {t : TypeTable} (r : Registry),
    t.Translates .refl ν t → (TypeTable.addBuiltins t r bs).1.Translates .refl ν
      (TypeTable.addBuiltins t r bs).1 := by
  induction bs with
  | nil => exact fun _ h => h
  | cons b bs ih =>
    intro t r h
    refine ih r.freshIr.2 (h.addBuiltin b.node b.name ?_)
    cases b.primitive <;> rfl

theorem translates_withBuiltins (bs : List Builtin) (r : Registry) :
    (withBuiltins bs r).1.Translates .refl ν (withBuiltins bs r).1 :=
  (Translates.addBuiltins bs r ⟨rfl, fun _ => rfl, fun _ => rfl, rfl⟩).addBuiltin _ _ rfl

end TypeTable

namespace Session

/-- The same session under other numbers and names. -/
structure Translates (ρ : Renumbering) (ν : String → String) (s s' : Session) : Prop where
  program : s'.program = s.program.translate ρ ν
  scope : s.scope.Renumbers ρ s'.scope
  progress : s.progress.Translates ρ ν s'.progress

variable {s s' : Session}

theorem Translates.check (h : s.Translates ρ ν s') (hρ : ρ.Injective) :
    SameOutcome s.check.1 s'.check.1 ∧ s.check.2.Translates ρ ν s'.check.2 := by
  obtain ⟨hresult, hstate⟩ := Check.mirrors_program hρ h.scope s.program h.progress
  rw [← h.program] at hresult hstate
  exact ⟨hresult.sameOutcome fun _ _ he => he.kind, h.program, h.scope, hstate⟩

theorem Translates.checks (h : s.Translates ρ ν s') (hρ : ρ.Injective) :
    ∀ n, (s.checks n).Translates ρ ν (s'.checks n)
  | 0 => h
  | n + 1 => ((h.checks hρ n).check hρ).2

theorem ofUnit_unnamed (u : CompilationUnit) :
    ofUnit u.unnamed = { ofUnit u with program := u.unnamed.program } := by
  have hnodes : u.unnamed.program.nodes = u.program.nodes := u.program.nodes_unnamed
  have hlength : u.unnamed.program.items.length = u.program.items.length := List.length_map ..
  have hnames : u.unnamed.names = u.names := rfl
  unfold ofUnit
  simp only [hnodes, hlength, hnames, Bindings.ofUnit_unnamed]

theorem translates_unnamed (u : CompilationUnit) :
    (ofUnit u).Translates .refl (fun _ => "") (ofUnit u.unnamed) := by
  rw [ofUnit_unnamed]
  exact ⟨rfl, ⟨Registry.renumbers_refl _, Bindings.renumbers_refl _⟩,
    ⟨TypeTable.translates_withBuiltins _ _, .nil⟩⟩

theorem injective_refl : Renumbering.refl.Injective := ⟨fun _ _ h => h, fun _ _ h => h⟩

/-- A check is seen as that of the blank program. -/
theorem Translates.seen (h : s.Translates .refl (fun _ => "") s') :
    SameOutcome s.check.1 s'.check.1 ∧
      s.check.2.diagnostics.map (fun d => (d.severity, d.location)) =
        s'.check.2.diagnostics.map (fun d => (d.severity, d.location)) ∧
      ∀ id, (s.check.2.types.get? id).map Ty.unnamed = s'.check.2.types.get? id := by
  obtain ⟨houtcome, hstate⟩ := h.check injective_refl
  refine ⟨houtcome, ?_, fun id => (hstate.progress.types.get? id).symm⟩
  rw [← List.forall₂_eq_eq_eq, List.forall₂_map_left_iff, List.forall₂_map_right_iff]
  exact hstate.progress.diagnostics.imp fun _ _ hd =>
    Prod.ext hd.severity.symm hd.location.symm

/-- Units that differ in the names of values only are checked alike, any number of times. -/
theorem alike_of_unnamed (u v : CompilationUnit) (h : u.unnamed = v.unnamed) (n : Nat) :
    AlikeUnnamed ((ofUnit u).checks n) ((ofUnit v).checks n) := by
  obtain ⟨houtcome, hreports, htypes⟩ :=
    ((translates_unnamed u).checks injective_refl n).seen
  obtain ⟨houtcome', hreports', htypes'⟩ :=
    ((translates_unnamed v).checks injective_refl n).seen
  rw [h] at houtcome hreports htypes
  exact ⟨houtcome.of_common houtcome', hreports.trans hreports'.symm,
    fun id => (htypes id).trans (htypes' id).symm⟩

open Samples in
/-- `fn f(x: i32) -> bool { x }  ~  fn g(n: i32) -> bool { m }` -/
theorem alike_of_unnamed_mistyping :
    (mistyping "f" "x" "x").unnamed = (mistyping "g" "n" "m").unnamed ∧
      AlikeUnnamed ((ofUnit (mistyping "f" "x" "x")).checks 0)
        ((ofUnit (mistyping "g" "n" "m")).checks 0) :=
  have h : (mistyping "f" "x" "x").unnamed = (mistyping "g" "n" "m").unnamed := rfl
  ⟨h, alike_of_unnamed _ _ h 0⟩

end Session

end MiddleEnd
