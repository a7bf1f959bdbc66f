/-
  The declarations that lowering goes by, against those of the check. For a name both passes find
  one declaration. For a call they look in different crates, the check in that of the call and
  lowering in that of the callee: the C program calls the function whose type the check went by if
  and only if both crates have the same node under the number of the declaration
  (`Session.uses_found`).
-/
import MiddleEnd.Proofs.Check.Uses
import MiddleEnd.Proofs.Lower.Places
import MiddleEnd.Proofs.Syntax.Samples

namespace MiddleEnd

/-- The crate of a call and the crate of its callee have the same node under the number of the
declaration. -/
def Scope.OneNode (s : Scope) : Expr → Prop
  | .call h callee _ => ∀ decl, s.bindings.name? callee.surface = some decl →
    s.registry.node? ⟨callee.head.id.crate, decl⟩ = s.registry.node? ⟨h.id.crate, decl⟩
  | _ => True

namespace Lower

variable {k : Checked} {l : Lowering} {e : Expr} {id : IrId}

/-! ## Lookups -/

/-- Once it has reached state `l`, lowering finds declaration `id` for the use. -/
inductive Finds (k : Checked) (l : Lowering) : Expr → IrId → Prop
  | name {id : IrId} (h : Head) (name : String) :
    Runs (declaration k (.identifier h name)) l id l →
    Finds k l (.identifier h name) id
  | call {decl : SurfaceId} {id : IrId} {f : C.FunctionId} (h : Head) (c : Expr)
      (args : List Expr) :
    k.scope.bindings.name? c.surface = some decl →
    k.scope.registry.node? ⟨c.head.id.crate, decl⟩ = some id →
    Runs (callee k c) l f l →
    l.functions[id]? = some f →
    Finds k l (.call h c args) id

/-- What lowering makes of a use: the variable, the constant or a call of the function that it has
for declaration `id`. -/
inductive Holds (g : Setting) (m : Slots) (id : IrId) : C.Expr → Prop
  | variable {v : C.VarId} (spelled : String) : m.vars id = some v → Holds g m id (.var v spelled)
  | constant {v : C.Expr} : m.vars id = none → g.constants id = some v → Holds g m id v
  | function {f : C.FunctionId} (vs : List C.Expr) :
    g.functions id = some f →
    Holds g m id (.call f (g.names f) vs)

/-- Where the check finds a declaration for a name, so does lowering. -/
theorem runs_declaration_of (h : Check.declaration k.scope e = .ok id) :
    Runs (declaration k e) l id l := by
  unfold Check.declaration at h
  split at h
  · cases h
  · rename_i decl hdecl
    split at h
    · cases h
    · rename_i d hd
      split at h
      · cases h
      · rename_i hid
        cases h
        exact runs_bind.2 ⟨decl, l, runs_require.2 ⟨hdecl, rfl⟩,
          runs_bind.2 ⟨d, l, runs_require.2 ⟨hd, rfl⟩, runs_require.2 ⟨hid, rfl⟩⟩⟩

theorem runs_callee_of {c : Expr} {decl : SurfaceId} {f : C.FunctionId}
    (hdecl : k.scope.bindings.name? c.surface = some decl)
    (hid : k.scope.registry.node? ⟨c.head.id.crate, decl⟩ = some id)
    (hf : l.functions[id]? = some f) : Runs (callee k c) l f l :=
  runs_bind.2 ⟨decl, l, runs_require.2 ⟨hdecl, rfl⟩,
    runs_bind.2 ⟨id, l, runs_require.2 ⟨hid, rfl⟩, runs_get_bind.2 (runs_require.2 ⟨hf, rfl⟩)⟩⟩

/-- A use that is lowered has a declaration, and its value is what lowering has for it. -/
theorem Emits.finds {B : C.BlockId → List C.Stmt} {m m' : Slots} {v : C.Expr} {a : List C.Stmt}
    (h : Emits k (setting l) B m (.expr e v) a m') (hu : e.isUse = true) :
    ∃ id, Finds k l e id ∧ Holds (setting l) m id v := by
  cases h with
  | use h name spelled hd hv =>
    exact ⟨_, .name h name (runs_declaration_of hd), .variable spelled hv⟩
  | constant h name hd hn hc => exact ⟨_, .name h name (runs_declaration_of hd), .constant hn hc⟩
  | call h c args hc _ =>
    obtain ⟨decl, id, hdecl, hid, hf⟩ := hc
    exact ⟨id, .call h c args hdecl hid (runs_callee_of hdecl hid hf) hf, .function _ hf⟩
  | _ => cases hu

/-! ## Agreement -/

/-- The passes agree on a use if and only if the crates they look in have one node for it. -/
theorem Finds.iff_oneNode {t : TypeTable} {id' : IrId} {ty : Ty} (hl : Finds k l e id')
    (hc : Check.Consults k.scope t e id ty) : id' = id ↔ k.scope.OneNode e := by
  cases hl with
  | name h name hr =>
    obtain ⟨hd, _⟩ := runs_declaration hr
    cases hc with
    | name _ _ hd' _ => exact ⟨fun _ => trivial, fun _ => Except.ok.inj (hd.symm.trans hd')⟩
  | call h c args hdecl hid' _ _ =>
    obtain ⟨decl, hdecl', hid⟩ := hc.node
    cases hdecl.symm.trans hdecl'
    constructor
    · rintro rfl other hother
      cases hdecl.symm.trans hother
      rw [hid', hid]
    · intro hone
      rw [hone _ hdecl, hid] at hid'
      exact (Option.some.inj hid').symm

end Lower

/-! ## Whole programs -/

namespace Samples

/-- The head of a node of crate 1. -/
def foreign (surface ir : UInt32) : Head := ⟨⟨⟨1⟩, ⟨surface⟩, ⟨ir⟩⟩, ⟨0, 1, 1⟩⟩

/-- A call in crate 0 whose callee stands in crate 1. -/
def straddlingCall : Expr := .call (head 13) (.identifier (foreign 14 14) "f") []

/-- `fn f() -> i32 { 1 }  fn g() -> bool { true }  fn h() { let x = f(); }`, where `g` has the number
of `f` in another crate, that of the callee. -/
def straddling : CompilationUnit :=
  unit [
    function 1 2 "f" (some (.path (head 3) "i32")) [] (some (number 4 "1")),
    ⟨foreign 1 5, .function ⟨"g", [], some (.path (head 6) "bool"),
      .block (head 7) [] (some (truth 8))⟩⟩,
    function 9 10 "h" none [bind 11 12 "x" (some straddlingCall)] none]
    [(14, 1)] [(12, 11)]

end Samples

namespace Session

/-- A function item of a program that is reported clean and lowered, unless an earlier one has the
same identity: for every name and every call in its body, the check goes by the recorded type of one
declaration, and the C program has there what stands for the one that lowering finds. These are one
and the same declaration if and only if the crates in which the passes look have one node for it, as
they do for every name and for every call in the crate of its callee. -/
theorem uses_found (u : CompilationUnit) (target : String) {before after : List Item} {i : Item}
    {d : FunctionDecl} (hp : u.program.items = before ++ i :: after) (hi : i.kind = .function d)
    (hfirst : ∀ j ∈ before, ∀ e, j.kind = .function e → j.head.id.ir ≠ i.head.id.ir)
    (hclean : (ofUnit u).Clean) (hlow : (ofUnit u).check.2.Lowers target) :
    ∃ f x block, ((ofUnit u).check.2.lower target).2.functions[i.head.id.ir]? = some f ∧
      ((ofUnit u).check.2.lower target).2.c.functions[f.index]? = some x ∧ x.body = some block ∧
      ∀ e, .expr e ∈ d.body.parts → e.isUse = true → ∃ id id' m v a m',
        Check.GoesBy (ofUnit u).scope (ofUnit u).types (ofUnit u).check.2.types e id ∧
        Lower.Finds (ofUnit u).check.2.checked ((ofUnit u).check.2.lower target).2 e id' ∧
        Lower.Holds (Lower.setting ((ofUnit u).check.2.lower target).2) m id' v ∧
        Lower.Emits (ofUnit u).check.2.checked
          (Lower.setting ((ofUnit u).check.2.lower target).2)
          ((ofUnit u).check.2.lower target).2.c.statements m (.expr e v) a m' ∧
        Lower.Stands ((ofUnit u).check.2.lower target).2.c.statements a
          (((ofUnit u).check.2.lower target).2.c.statements block) ∧
        (id' = id ↔ (ofUnit u).scope.OneNode e) := by
  have hpass := hclean.passes rfl
  have hmem : i ∈ (ofUnit u).program.items := by
    show i ∈ u.program.items
    rw [hp]
    exact List.mem_append_right _ (List.mem_cons_self ..)
  obtain ⟨f, vs, block, m, m', hlowered⟩ := hlow.lowered hp hi hfirst
  obtain ⟨x, hx, _, hbody⟩ := hlowered.body
  refine ⟨f, x, block, hlowered.function, hx, hbody, fun e he hu => ?_⟩
  have hparts : .expr e ∈ i.bodyParts := by
    unfold Item.bodyParts
    rw [hi]
    exact he
  obtain ⟨id, hgoes⟩ := hpass.goesBy hmem hparts hu
  obtain ⟨m, v, a, m', _, hemits, hstands⟩ := hlowered.placed e he (Expr.isBlock_of_isUse hu)
  obtain ⟨id', hfinds, hholds⟩ := hemits.finds hu
  have ⟨_, _, _, _, hconsults, _⟩ := hgoes
  exact ⟨id, id', m, v, a, m', hgoes, hfinds, hholds, hemits, hstands, hfinds.iff_oneNode hconsults⟩

open Samples in
/-- In `straddling` the check takes the call for one of `f`, and the C program calls `g`. -/
theorem uses_found_straddling : (ofUnit straddling).Clean ∧
    (ofUnit straddling).check.2.Lowers "linux" ∧ ∃ id id',
      Check.GoesBy (ofUnit straddling).scope (ofUnit straddling).types
        (ofUnit straddling).check.2.types straddlingCall id ∧
      Lower.Finds (ofUnit straddling).check.2.checked
        ((ofUnit straddling).check.2.lower "linux").2 straddlingCall id' ∧ id' ≠ id := by
  have hclean : (ofUnit straddling).Clean := by decide +kernel
  have hlow : (ofUnit straddling).check.2.Lowers "linux" := by decide +kernel
  have hdecl : (ofUnit straddling).scope.bindings.name? ⟨14⟩ = some ⟨1⟩ := by decide +kernel
  have hnodes : (ofUnit straddling).scope.registry.node? ⟨⟨1⟩, ⟨1⟩⟩ ≠
      (ofUnit straddling).scope.registry.node? ⟨⟨0⟩, ⟨1⟩⟩ := by decide +kernel
  have hfirst : ∀ j ∈ straddling.program.items.take 2, ∀ e, j.kind = .function e →
      j.head.id.ir ≠ (head 9).id.ir := by
    intro j hj _ _
    rcases List.mem_cons.1 hj with rfl | hj
    · decide
    · cases List.mem_singleton.1 hj
      decide
  have hp : straddling.program.items = straddling.program.items.take 2 ++
      function 9 10 "h" none [bind 11 12 "x" (some straddlingCall)] none :: [] := rfl
  obtain ⟨_, _, _, _, _, _, huses⟩ := uses_found straddling "linux" hp rfl hfirst hclean hlow
  obtain ⟨id, id', _, _, _, _, hgoes, hfinds, _, _, _, hiff⟩ := huses straddlingCall
    (List.mem_cons_of_mem _ (List.mem_cons_of_mem _ (.head _))) rfl
  refine ⟨hclean, hlow, id, id', hgoes, hfinds, fun heq => hnodes ?_⟩
  exact hiff.1 heq ⟨1⟩ hdecl

end Session

end MiddleEnd
