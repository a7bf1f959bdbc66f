/-
  Steps on the members of a list, one after the other: what a loop over a list does to a state.
-/
import MiddleEnd.Syntax.Basic

namespace MiddleEnd

variable {σ α : Type}

/-- Steps on the members of a list, one after the other. -/
inductive Chain (R : σ → α → σ → Prop) : σ → List α → σ → Prop
  | nil (s : σ) : Chain R s [] s
  | cons {s t u : σ} {a : α} {l : List α} : R s a t → Chain R t l u → Chain R s (a :: l) u

namespace Chain

variable {R : σ → α → σ → Prop} {s u : σ} {l : List α}

/-- What every step keeps, where it may depend on the members that are left. -/
theorem invariant {I : List α → σ → Prop} (h : Chain R s l u)
    (step : ∀ {s a t l}, I (a :: l) s → R s a t → I l t) : I l s → I [] u := by
  induction h with
  | nil s => exact id
  | cons ha _ ih => exact fun hi => ih (step hi ha)

/-- What every step keeps, where it may depend on the members that are done. -/
theorem grows {I : List α → σ → Prop} (h : Chain R s l u)
    (step : ∀ {s a t d}, I d s → R s a t → I (d ++ [a]) t) {d : List α} :
    I d s → I (d ++ l) u := by
  induction h generalizing d with
  | nil s =>
    rw [List.append_nil]
    exact id
  | @cons s t u a l ha _ ih =>
    intro hi
    rw [List.append_cons]
    exact ih (step hi ha)

/-- Every step of a chain is one on a member of the list. -/
theorem mem (h : Chain R s l u) : Chain (fun s a t => a ∈ l ∧ R s a t) s l u := by
  have hsub : ∀ {s l' u}, Chain R s l' u → l' ⊆ l →
      Chain (fun s a t => a ∈ l ∧ R s a t) s l' u := by
    intro s l' u h
    induction h with
    | nil s => exact fun _ => .nil s
    | cons ha _ ih =>
      intro hs
      obtain ⟨hm, hs⟩ := List.cons_subset.1 hs
      exact .cons ⟨hm, ha⟩ (ih hs)
  exact hsub h (List.Subset.refl l)

/-- What every step of a chain contributes, where each keeps an invariant about what is left to do.
Knowledge `K` of the state after a step is knowledge of the one before it. -/
theorem each {I : List α → σ → Prop} {K : σ → Prop} {Q : α → Prop}
    (h : Chain R s l u)
    (step : ∀ {s a t l}, I (a :: l) s → R s a t → I l t ∧ (K t → K s ∧ Q a)) :
    I l s → I [] u ∧ (K u → K s ∧ ∀ a ∈ l, Q a) := by
  induction h with
  | nil s => exact fun hi => ⟨hi, fun hk => ⟨hk, fun _ hm => absurd hm List.not_mem_nil⟩⟩
  | @cons s t u a l ha _ ih =>
    intro hi
    obtain ⟨hit, hkt⟩ := step hi ha
    obtain ⟨hiu, hku⟩ := ih hit
    refine ⟨hiu, ?_⟩
    intro hk
    obtain ⟨ht, hl⟩ := hku hk
    obtain ⟨hs, hq⟩ := hkt ht
    refine ⟨hs, ?_⟩
    intro c hc
    rcases List.mem_cons.1 hc with rfl | hc
    · exact hq
    · exact hl c hc

/-- Every step of a chain leads to a state that is known, where knowledge `K` of the state after a
step is knowledge of the one before it. -/
theorem known {I : List α → σ → Prop} {K : σ → Prop} (h : Chain R s l u)
    (step : ∀ {s a t l}, I (a :: l) s → R s a t → I l t ∧ (K t → K s)) :
    I l s → K u → K s ∧ Chain (fun s a t => R s a t ∧ K t) s l u := by
  induction h with
  | nil s => exact fun _ hk => ⟨hk, .nil s⟩
  | cons ha _ ih =>
    intro hi hk
    obtain ⟨hit, hback⟩ := step hi ha
    obtain ⟨ht, hrest⟩ := ih hit hk
    exact ⟨hback ht, .cons ⟨ha, ht⟩ hrest⟩

/-- A chain in two parts. -/
theorem split {x y : List α} (h : Chain R s (x ++ y) u) :
    ∃ t, Chain R s x t ∧ Chain R t y u := by
  induction x generalizing s with
  | nil => exact ⟨s, .nil s, h⟩
  | cons a x ih =>
    cases h with
    | cons ha hl =>
      obtain ⟨t, hx, hy⟩ := ih hl
      exact ⟨t, .cons ha hx, hy⟩

end Chain

end MiddleEnd
