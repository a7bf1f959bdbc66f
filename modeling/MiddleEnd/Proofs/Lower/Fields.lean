/-
  The values of a struct literal in the order of the declaration. Of several values for one field
  the last is taken (`taken_perm`).
-/
import MiddleEnd.Proofs.Lower.Emission

namespace MiddleEnd.Lower

/-- Whether the value of a field is taken, where these fields are declared and these follow. -/
def isTaken (names : List String) (name : String) (rest : List String) : Bool :=
  names.contains name && !rest.contains name

/-- The values that are taken, where these fields are declared. -/
def taken (names : List String) : List (String × C.Expr) → List C.Expr
  | [] => []
  | (name, v) :: rest =>
    if isTaken names name (rest.map (·.1)) then v :: taken names rest else taken names rest

theorem isTaken_false {names rest : List String} {name : String} (h : name ∈ rest) :
    isTaken names name rest = false := by
  unfold isTaken
  rw [List.contains_iff_mem.2 h, Bool.not_true, Bool.and_false]

theorem isTaken_self {names rest : List String} {name : String} (h : name ∉ rest) :
    isTaken (name :: names) name rest = true := by
  unfold isTaken
  rw [List.contains_cons, beq_self_eq_true, Bool.true_or, Bool.true_and, Bool.not_eq_true',
    ← Bool.not_eq_true, List.contains_iff_mem]
  exact h

theorem isTaken_other {names rest : List String} {name other : String} (h : other ≠ name) :
    isTaken (name :: names) other rest = isTaken names other rest := by
  unfold isTaken
  rw [List.contains_cons, beq_eq_false_iff_ne.2 h, Bool.false_or]

/-- A name that no value has makes no difference. -/
theorem taken_of_not_mem {name : String} {names : List String} {given : List (String × C.Expr)}
    (h : name ∉ given.map (·.1)) : taken (name :: names) given = taken names given := by
  induction given with
  | nil => rfl
  | cons f rest ih =>
    obtain ⟨x, u⟩ := f
    rw [List.map_cons, List.mem_cons, not_or] at h
    rw [taken, taken, isTaken_other (Ne.symm h.1), ih h.2]

theorem lookup_reverse_eq_none {name : String} {given : List (String × C.Expr)} :
    given.reverse.lookup name = none ↔ name ∉ given.map (·.1) := by
  rw [List.lookup_eq_none_iff]
  constructor
  · intro h hm
    obtain ⟨p, hp, hname⟩ := List.mem_map.1 hm
    exact bne_iff_ne.1 (h p (List.mem_reverse.2 hp)) hname.symm
  · intro h p hp
    rw [bne_iff_ne]
    intro hname
    exact h (List.mem_map.2 ⟨p, List.mem_reverse.1 hp, hname.symm⟩)

theorem mem_map_filter {x name : String} {given : List (String × C.Expr)} (h : x ≠ name) :
    x ∈ (given.filter (·.1 ≠ name)).map (·.1) ↔ x ∈ given.map (·.1) := by
  simp [h]

/-- The value that is looked up first is taken, and the others as if its name were gone. -/
theorem taken_lookup {name : String} {names : List String} {v : C.Expr} :
    ∀ {given : List (String × C.Expr)}, given.reverse.lookup name = some v →
      (taken (name :: names) given).Perm (v :: taken names (given.filter (·.1 ≠ name)))
  | [], h => nomatch h
  | (x, u) :: rest, h => by
    rw [List.reverse_cons, List.lookup_append] at h
    by_cases hx : x = name
    · subst hx
      rw [List.filter_cons_of_neg (by simp), taken]
      cases hl : rest.reverse.lookup x with
      | some w =>
        have hin : x ∈ rest.map (·.1) := Decidable.byContradiction fun hne => by
          rw [lookup_reverse_eq_none.2 hne] at hl
          cases hl
        rw [hl] at h
        cases h
        rw [isTaken_false hin]
        exact taken_lookup hl
      | none =>
        have hnot := lookup_reverse_eq_none.1 hl
        rw [hl, Option.none_or, List.lookup_cons_self] at h
        cases h
        have hall : rest.filter (·.1 ≠ x) = rest := by
          rw [List.filter_eq_self]
          intro p hp
          have hne : p.1 ≠ x := fun he => hnot (List.mem_map.2 ⟨p, hp, he⟩)
          simpa using hne
        rw [isTaken_self hnot, if_pos rfl, hall, taken_of_not_mem hnot]
    · have hrest : rest.reverse.lookup name = some v := by
        have hlast : List.lookup name [(x, u)] = none := by
          rw [List.lookup_eq_none_iff]
          simpa using Ne.symm hx
        rw [hlast, Option.or_none] at h
        exact h
      have hkept : isTaken names x ((rest.filter (·.1 ≠ name)).map (·.1)) =
          isTaken names x (rest.map (·.1)) := by
        unfold isTaken
        rw [Bool.eq_iff_iff, Bool.and_eq_true, Bool.and_eq_true, Bool.not_eq_true',
          Bool.not_eq_true', ← Bool.not_eq_true, ← Bool.not_eq_true, List.contains_iff_mem,
          List.contains_iff_mem, List.contains_iff_mem, mem_map_filter hx]
      rw [List.filter_cons_of_pos (by simpa using hx), taken, taken, isTaken_other hx, hkept]
      cases isTaken names x (rest.map (·.1)) with
      | true => exact ((taken_lookup hrest).cons u).trans (.swap ..)
      | false => exact taken_lookup hrest

theorem taken_nil (given : List (String × C.Expr)) : taken [] given = [] := by
  induction given with
  | nil => rfl
  | cons f rest ih => exact ih

/-- A text that is taken is one of the given ones. -/
theorem mem_of_mem_taken {names : List String} {given : List (String × C.Expr)} {v : C.Expr}
    (h : v ∈ taken names given) : v ∈ given.map (·.2) := by
  induction given with
  | nil => cases h
  | cons f rest ih =>
    obtain ⟨name, w⟩ := f
    rw [taken] at h
    split at h
    · rcases List.mem_cons.1 h with rfl | h
      · exact List.mem_cons_self ..
      · exact List.mem_cons_of_mem _ (ih h)
    · exact List.mem_cons_of_mem _ (ih h)

/-- The values in the order of the declaration are those that are taken. -/
theorem taken_perm {given : List (String × C.Expr)} {names : List String} {vs : List C.Expr}
    (h : declaredOrder? given.reverse names = some vs) : vs.Perm (taken names given) := by
  induction names generalizing given vs with
  | nil =>
    cases h
    rw [taken_nil]
  | cons name rest ih =>
    rw [declaredOrder?] at h
    obtain ⟨v, hv, h⟩ := Option.bind_eq_some_iff.1 h
    obtain ⟨ws, hws, rfl⟩ := Option.map_eq_some_iff.1 h
    rw [List.filter_reverse] at hws
    exact ((ih hws).cons v).trans (taken_lookup hv).symm

end MiddleEnd.Lower
