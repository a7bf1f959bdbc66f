/-
  Names for the parameters and local variables of a function. A name that is taken there is
  numbered, and the search goes from one candidate to the next until it finds one that is free
  (`Search`). There cannot be more candidates taken than names, so the search ends, and it ends at
  the first candidate that is free (`search_iff`).

  What is taken in a function are the names that its parameters and variables got before, in
  whichever order they were asked for (`Built.taken`). So those are the names that the search goes
  around, and none of them is given twice (`Built.names_fresh`).
-/
import Mathlib.Data.List.Nodup
import Mathlib.Data.List.Perm.Subperm
import MiddleEnd.Proofs.C.Capture

namespace MiddleEnd.C.Program

/-! ## Candidates -/

theorem candidate_succ (name : String) (n : Nat) :
    candidate name (n + 1) = name ++ "_" ++ (n + 1).repr :=
  rfl

/-- No name is tried twice. -/
theorem candidate_injective (name : String) : Function.Injective (candidate name) := by
  have hzero : ∀ n, candidate name 0 ≠ candidate name (n + 1) := by
    intro n h
    have hlength := congrArg String.length h
    rw [candidate_succ, String.length_append, String.length_append] at hlength
    have hplain : (candidate name 0).length = name.length := rfl
    have hone : "_".length = 1 := rfl
    omega
  intro i j h
  cases i with
  | zero =>
    cases j with
    | zero => rfl
    | succ n => exact absurd h (hzero n)
  | succ m =>
    cases j with
    | zero => exact absurd h.symm (hzero m)
    | succ n =>
      rw [candidate_succ, candidate_succ, String.append_right_inj, C.repr_inj] at h
      exact h

/-- No more candidates are taken than names. -/
theorem le_length_of_candidates {taken : List String} {name : String} {j : Nat}
    (h : ∀ i < j, candidate name i ∈ taken) : j ≤ taken.length := by
  have hsub : (List.range j).map (candidate name) ⊆ taken := by
    intro n hn
    obtain ⟨i, hi, rfl⟩ := List.mem_map.1 hn
    exact h i (List.mem_range.1 hi)
  have hnodup : ((List.range j).map (candidate name)).Nodup :=
    List.nodup_range.map (candidate_injective name)
  simpa using (hnodup.subperm hsub).length_le

/-- The candidate is the first one that is not taken. -/
structure FirstFree (taken : List String) (name : String) (j : Nat) : Prop where
  free : candidate name j ∉ taken
  before : ∀ i < j, candidate name i ∈ taken

theorem exists_firstFree (taken : List String) (name : String) :
    ∃ j, FirstFree taken name j ∧ freshName taken name = candidate name j := by
  unfold freshName
  rw [List.find?_map]
  cases hf : (List.range (taken.length + 1)).find? ((!taken.contains ·) ∘ candidate name) with
  | some j =>
    obtain ⟨hfree, _, hbefore⟩ := List.find?_range_eq_some.1 hf
    exact ⟨j, ⟨by simpa using hfree, fun i hi => by simpa using hbefore i hi⟩, rfl⟩
  | none =>
    have hall : ∀ i < taken.length + 1, candidate name i ∈ taken := fun i hi => by
      simpa using List.find?_eq_none.1 hf i (List.mem_range.2 hi)
    exact absurd (le_length_of_candidates hall) (Nat.not_succ_le_self _)

theorem freshName_not_mem (taken : List String) (name : String) :
    freshName taken name ∉ taken := by
  obtain ⟨j, hj, heq⟩ := exists_firstFree taken name
  exact heq ▸ hj.free

/-! ## The search -/

/-- The search for a name that is not taken, from a candidate on and with the number for the next
one: it stops at a candidate that is free, and numbers the name again behind one that is not. -/
inductive Search (taken : List String) (name : String) : String → Nat → String → Prop
  | free {c : String} {n : Nat} : c ∉ taken → Search taken name c n c
  | next {c found : String} {n : Nat} : c ∈ taken →
    Search taken name s!"{name}_{n}" (n + 1) found → Search taken name c n found

section

variable {taken : List String} {name : String}

/-- The search comes to one name at most. -/
theorem Search.unique {c a b : String} {n : Nat} (h : Search taken name c n a)
    (h' : Search taken name c n b) : a = b := by
  induction h with
  | free hfree =>
    cases h' with
    | free => rfl
    | next htaken _ => exact absurd htaken hfree
  | next htaken _ ih =>
    cases h' with
    | free hfree => exact absurd htaken hfree
    | next _ h' => exact ih h'

/-- From any candidate on, the search ends at the first one that is free. -/
theorem FirstFree.search {j : Nat} (h : FirstFree taken name j) {i : Nat} (hi : i ≤ j) :
    Search taken name (candidate name i) (i + 1) (candidate name j) := by
  obtain ⟨d, rfl⟩ := Nat.exists_eq_add_of_le hi
  induction d generalizing i with
  | zero => exact .free h.free
  | succ d ih =>
    have hj : i + (d + 1) = i + 1 + d := by omega
    have hlast := h.before i (by omega)
    rw [hj] at h ⊢
    exact .next hlast (ih h (Nat.le_add_right ..))

/-- The search for a name ends, and a fresh name is what it comes to. -/
theorem search_iff {found : String} :
    Search taken name name 1 found ↔ found = freshName taken name := by
  obtain ⟨j, hj, heq⟩ := exists_firstFree taken name
  have hsearch : Search taken name name 1 (candidate name j) := hj.search (Nat.zero_le j)
  rw [heq]
  exact ⟨fun h => h.unique hsearch, fun h => h ▸ hsearch⟩

end

/-! ## Programs under construction -/

/-- The names taken in a function. -/
def taken (p : Program) (f : FunctionId) : List String :=
  ((p.functions[f.index]?).map (·.taken)).getD []

/-- The variables of a program, its functions and blocks once a function has a new variable. -/
theorem newLocal_eq (p : Program) (f : FunctionId) (name : String) (t : Ty) :
    (p.newLocal f name t).2 = { p with
      vars := p.vars.push ⟨freshName (p.taken f) name, t, none⟩
      functions := p.functions.modify f.index fun g =>
        { g with taken := freshName (p.taken f) name :: g.taken } } :=
  rfl

/-- The name that a new variable is used by. -/
def givenName (r : VarId × Program) : String := (r.2.varExpr r.1).text

theorem givenName_newLocal (p : Program) (f : FunctionId) (name : String) (t : Ty) :
    givenName (p.newLocal f name t) = freshName (p.taken f) name := by
  unfold givenName varExpr
  rw [newLocal_eq, Expr.text]
  show ((p.vars.push _)[p.vars.size]?.map (·.name)).getD "" = _
  rw [Array.getElem?_push_size]
  rfl

theorem givenName_parameter (p : Program) (f : FunctionId) (name : String) (t : Ty) :
    givenName (p.parameter f name t) = freshName (p.taken f) name :=
  givenName_newLocal p f name t

/-- What is taken in a function of the program after a function has a new variable. -/
theorem taken_of_newLocal {p : Program} {f : FunctionId} (hf : f.index < p.functions.size)
    (name : String) (t : Ty) (g : FunctionId) : (p.newLocal f name t).2.taken g =
      if f = g then freshName (p.taken f) name :: p.taken f else p.taken g := by
  show ((p.functions.modify f.index _)[g.index]?.map (·.taken)).getD [] = _
  rw [Array.getElem?_modify]
  by_cases h : f = g
  · subst h
    have htaken : p.taken f = p.functions[f.index].taken := by
      rw [taken, Array.getElem?_eq_getElem hf]
      rfl
    rw [if_pos rfl, if_pos rfl, Array.getElem?_eq_getElem hf, htaken]
    rfl
  · have hindex : f.index ≠ g.index := fun he => h (by cases f; cases g; cases he; rfl)
    rw [if_neg hindex, if_neg h]
    rfl

theorem taken_of_parameter {p : Program} {f : FunctionId} (hf : f.index < p.functions.size)
    (name : String) (t : Ty) (g : FunctionId) : (p.parameter f name t).2.taken g =
      if f = g then freshName (p.taken f) name :: p.taken f else p.taken g := by
  rw [← taken_of_newLocal hf name t g]
  unfold taken
  show (Option.map _ ((p.newLocal f name t).2.functions.modify _ _)[g.index]?).getD [] = _
  rw [Array.getElem?_modify]
  split
  · rw [Option.map_map]
    rfl
  · rfl

theorem taken_of_function (p : Program) (name : String) (t : Ty) (g : FunctionId) :
    (p.function name t).2.taken g = p.taken g := by
  cases t with
  | void => rfl
  | named s => rfl
  | function params result =>
    unfold taken
    show (Option.map _ (p.functions.push _)[g.index]?).getD [] = _
    rw [Array.getElem?_push]
    split
    · rename_i h
      rw [Array.getElem?_eq_none (Nat.le_of_eq h.symm)]
      rfl
    · rfl

/-- A program to which functions were added, and parameters and local variables of functions that
were there, in any order. With it the names that were given to these, and to which function, the
last one first. -/
inductive Built : Program → List (FunctionId × String) → Prop
  | empty (target : String) : Built (.empty target) []
  | function {p : Program} {given : List (FunctionId × String)} (h : Built p given)
      (name : String) (t : Ty) : Built (p.function name t).2 given
  | parameter {p : Program} {given : List (FunctionId × String)} (h : Built p given)
      {f : FunctionId} (hf : f.index < p.functions.size) (name : String) (t : Ty) :
      Built (p.parameter f name t).2 ((f, givenName (p.parameter f name t)) :: given)
  | newLocal {p : Program} {given : List (FunctionId × String)} (h : Built p given)
      {f : FunctionId} (hf : f.index < p.functions.size) (name : String) (t : Ty) :
      Built (p.newLocal f name t).2 ((f, givenName (p.newLocal f name t)) :: given)

/-- The names given in one function. -/
def namesIn (given : List (FunctionId × String)) (f : FunctionId) : List String :=
  (given.filter (·.1 = f)).map (·.2)

theorem namesIn_cons (g f : FunctionId) (name : String) (given : List (FunctionId × String)) :
    namesIn ((g, name) :: given) f =
      if g = f then name :: namesIn given f else namesIn given f := by
  unfold namesIn
  rw [List.filter_cons]
  by_cases h : g = f <;> simp [h]

namespace Built

variable {p : Program} {given : List (FunctionId × String)}

/-- The names taken in a function are those that were given in it. -/
theorem taken (h : Built p given) (f : FunctionId) : p.taken f = namesIn given f := by
  induction h with
  | empty target => simp [C.Program.taken, C.Program.empty, namesIn]
  | function _ name t ih => rw [taken_of_function, ih]
  | @parameter p given _ g hg name t ih =>
    rw [taken_of_parameter hg, givenName_parameter, namesIn_cons]
    split
    · rename_i he
      rw [he, ih]
    · exact ih
  | @newLocal p given _ g hg name t ih =>
    rw [taken_of_newLocal hg, givenName_newLocal, namesIn_cons]
    split
    · rename_i he
      rw [he, ih]
    · exact ih

theorem nodup (h : Built p given) (f : FunctionId) : (namesIn given f).Nodup := by
  -- a name that is given was not taken before
  have hcons : ∀ {p : Program} {given : List (FunctionId × String)} (g : FunctionId)
      (name : String), Built p given → (namesIn given f).Nodup →
      (namesIn ((g, freshName (p.taken g) name) :: given) f).Nodup := by
    intro p given g name hb hn
    rw [namesIn_cons]
    split
    · rename_i he
      subst he
      refine List.nodup_cons.2 ⟨?_, hn⟩
      rw [← hb.taken]
      exact freshName_not_mem _ _
    · exact hn
  induction h with
  | empty target => exact List.nodup_nil
  | function _ name t ih => exact ih
  | parameter hb _ name t ih =>
    rw [givenName_parameter]
    exact hcons _ name hb ih
  | newLocal hb _ name t ih =>
    rw [givenName_newLocal]
    exact hcons _ name hb ih

/-- In a program under construction, however its functions, parameters and local variables were
asked for: no name was given twice in a function, and when one more parameter or local variable is
asked for, the search for its name goes around the names given in that function so far, ends, and
comes to the first candidate that is not among them. It passes over no more candidates than names
were given. -/
theorem names_fresh (h : Built p given) :
    (∀ f, (namesIn given f).Nodup) ∧
    ∀ f : FunctionId, f.index < p.functions.size → ∀ name t, ∃ j ≤ (namesIn given f).length,
      FirstFree (namesIn given f) name j ∧
      (∀ found, Search (namesIn given f) name name 1 found ↔ found = candidate name j) ∧
      givenName (p.parameter f name t) = candidate name j ∧
      givenName (p.newLocal f name t) = candidate name j := by
  refine ⟨h.nodup, fun f _ name t => ?_⟩
  obtain ⟨j, hj, heq⟩ := exists_firstFree (namesIn given f) name
  refine ⟨j, le_length_of_candidates hj.before, hj, fun found => ?_, ?_, ?_⟩
  · rw [search_iff, heq]
  · rw [givenName_parameter, h.taken, heq]
  · rw [givenName_newLocal, h.taken, heq]

/-- Two functions, of which the first asks for `x`, for a parameter `x`, for `x_1`, which is taken
by now, and for `x` again; the second asks for `x` in between. The next `x` of the first is the
first of `x`, `x_1`, `x_2` and so on that is none of these. -/
theorem names_fresh_numbered : ∃ p given, Built p given ∧
    namesIn given ⟨0⟩ = ["x_2", "x_1_1", "x_1", "x"] ∧ namesIn given ⟨1⟩ = ["x"] ∧
    (namesIn given ⟨0⟩).Nodup ∧ ∃ j ≤ 4, FirstFree (namesIn given ⟨0⟩) "x" j ∧
      Search (namesIn given ⟨0⟩) "x" "x" 1 (candidate "x" j) ∧
      givenName (p.newLocal ⟨0⟩ "x" .bool) = candidate "x" j ∧ candidate "x" j = "x_3" := by
  have h₀ := ((Built.empty "linux").function "f" (.function [] .void)).function "g"
    (.function [] .void)
  have h₁ := h₀.newLocal (f := ⟨0⟩) (by decide) "x" .bool
  have h₂ := h₁.parameter (f := ⟨0⟩) (by decide +kernel) "x" .bool
  have h₃ := h₂.newLocal (f := ⟨1⟩) (by decide +kernel) "x" .bool
  have h₄ := h₃.newLocal (f := ⟨0⟩) (by decide +kernel) "x_1" .bool
  have h := h₄.newLocal (f := ⟨0⟩) (by decide +kernel) "x" .bool
  obtain ⟨hnodup, hnext⟩ := h.names_fresh
  obtain ⟨j, hj, hfirst, hsearch, -, hname⟩ := hnext ⟨0⟩ (by decide +kernel) "x" .bool
  refine ⟨_, _, h, by decide +kernel, by decide +kernel, hnodup _, j, hj, hfirst,
    (hsearch _).2 rfl, hname, ?_⟩
  rw [← hname]
  decide +kernel

end Built

end MiddleEnd.C.Program
