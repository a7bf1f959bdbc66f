/-
  Runs of the checking monad that end without a fault and report nothing.

  `Meets m R` is read off a run: whatever comes of it, the diagnostics there were are kept, and
  if nothing was reported, tables and result are related by `R`. Since diagnostics only grow, a
  run in two parts that reports nothing has two parts that report nothing (`Meets.bind`).
  `Yields m t a u` goes the other way: from tables `t` the run ends in `a` and `u`, whatever was
  reported or logged before.
-/
import MiddleEnd.Check.Program
import MiddleEnd.Proofs.Runs

namespace MiddleEnd.Check

variable {α β : Type}

theorem combine_eq_ok {a b ty : Ty} : a.combine b = .ok ty ↔ a.combine? b = some ty := by
  unfold Ty.combine
  cases a.combine? b <;> simp

/-- What tables a step starts from, what it gives and what tables it leaves. -/
abbrev Step (α : Type) := TypeTable → α → TypeTable → Prop

structure Meets (m : Check α) (R : Step α) : Prop where
  keeps : ∀ p, p.diagnostics <+: (m.run.run p).2.diagnostics
  clean : ∀ p a q, m.run.run p = (.ok a, q) → q.diagnostics = p.diagnostics → R p.types a q.types

def Yields (m : Check α) (t : TypeTable) (a : α) (u : TypeTable) : Prop :=
  ∀ p : Progress, p.types = t →
    ∃ q, m.run.run p = (.ok a, q) ∧ q.diagnostics = p.diagnostics ∧ q.types = u

/-! ## Steps one after the other -/

theorem Meets.mono {m : Check α} {R S : Step α} (hm : Meets m R)
    (h : ∀ t a u, R t a u → S t a u) : Meets m S where
  keeps := hm.keeps
  clean p a q hr hd := h _ _ _ (hm.clean p a q hr hd)

theorem Meets.bind {m : Check α} {f : α → Check β} {R : Step α} {S : α → Step β}
    (hm : Meets m R) (hf : ∀ a, Meets (f a) (S a)) :
    Meets (m >>= f) (fun t b u => ∃ a v, R t a v ∧ S a v b u) where
  keeps p := by
    have h := hm.keeps p
    rw [run_bind]
    rcases hr : m.run.run p with ⟨e | a, q⟩ <;> rw [hr] at h
    · exact h
    · exact h.trans ((hf a).keeps q)
  clean p b q hb hd := by
    obtain ⟨a, r, hr, hb⟩ := run_bind_ok_iff.1 hb
    have h₁ : p.diagnostics <+: r.diagnostics := by simpa [hr] using hm.keeps p
    have h₂ : r.diagnostics <+: q.diagnostics := by
      have h := (hf a).keeps r
      rw [hb] at h
      exact h
    -- the diagnostics in between lie between two equal lists
    have hr' : r.diagnostics = p.diagnostics := by
      rw [hd] at h₂
      exact (h₁.eq_of_length (Nat.le_antisymm h₁.length_le h₂.length_le)).symm
    exact ⟨a, r.types, hm.clean p a r hr hr', (hf a).clean r b q hb (hd.trans hr'.symm)⟩

theorem Yields.bind {m : Check α} {f : α → Check β} {t v u : TypeTable} {a : α} {b : β}
    (hm : Yields m t a v) (hf : Yields (f a) v b u) : Yields (m >>= f) t b u := by
  intro p hp
  obtain ⟨r, hr, hrd, hrt⟩ := hm p hp
  obtain ⟨q, hq, hqd, hqt⟩ := hf r hrt
  exact ⟨q, by rw [run_bind, hr]; exact hq, hqd.trans hrd, hqt⟩

/-! ## Single steps -/

theorem meets_pure (a : α) : Meets (pure a : Check α) (fun t b u => b = a ∧ u = t) where
  keeps _ := List.prefix_refl _
  clean p b q h _ := by cases h; exact ⟨rfl, rfl⟩

theorem yields_pure (t : TypeTable) (a : α) : Yields (pure a : Check α) t a t :=
  fun p hp => ⟨p, rfl, rfl, hp⟩

/-- A step that ends in a fault never gives a result. -/
theorem meets_throw (e : Fault) (R : Step α) : Meets (throw e : Check α) R where
  keeps _ := List.prefix_refl _
  clean p b q h _ := by cases h

theorem meets_defect (d : Defect) (R : Step α) : Meets (defect d : Check α) R :=
  meets_throw _ _

/-- A step that looks at the tables first. -/
theorem meets_get {f : Progress → Check α} {R : TypeTable → Step α}
    (h : ∀ p : Progress, Meets (f p) (R p.types)) :
    Meets (get >>= f) (fun t a u => R t t a u) where
  keeps p := (h p).keeps p
  clean p a q hr hd := (h p).clean p a q hr hd

theorem yields_get {f : Progress → Check α} {t u : TypeTable} {a : α}
    (h : ∀ p : Progress, p.types = t → Yields (f p) t a u) : Yields (get >>= f) t a u :=
  fun p hp => h p hp p hp

theorem meets_typeOf? (id : IrId) : Meets (typeOf? id) (fun t a u => a = t.get? id ∧ u = t) where
  keeps _ := List.prefix_refl _
  clean p b q h _ := by cases h; exact ⟨rfl, rfl⟩

theorem yields_typeOf? (t : TypeTable) (id : IrId) : Yields (typeOf? id) t (t.get? id) t := by
  intro p hp
  exact ⟨p, by rw [← hp]; rfl, rfl, hp⟩

theorem meets_return? : Meets return? (fun t a u => a = t.return? ∧ u = t) where
  keeps _ := List.prefix_refl _
  clean p b q h _ := by cases h; exact ⟨rfl, rfl⟩

theorem yields_return? (t : TypeTable) : Yields return? t t.return? t := by
  intro p hp
  exact ⟨p, by rw [← hp]; rfl, rfl, hp⟩

theorem meets_record (id : IrId) (ty : Ty) :
    Meets (record id ty) (fun t _ u => u = t.record id ty) where
  keeps _ := List.prefix_refl _
  clean p b q h _ := by cases h; rfl

theorem yields_record (t : TypeTable) (id : IrId) (ty : Ty) :
    Yields (record id ty) t () (t.record id ty) := by
  intro p hp
  exact ⟨p.record id ty, rfl, rfl, by rw [← hp]; rfl⟩

theorem meets_note (e : Event) : Meets (note e) (fun t _ u => u = t) where
  keeps _ := List.prefix_refl _
  clean p b q h _ := by cases h; rfl

theorem yields_note (t : TypeTable) (e : Event) : Yields (note e) t () t :=
  fun p hp => ⟨p.note [e], rfl, rfl, hp⟩

/-- A step that reports a problem is not clean. -/
theorem meets_report (l : Location) (p : Problem) (R : Step Unit) : Meets (report l p) R where
  keeps _ := List.prefix_append _ _
  clean p' b q h hd := by
    cases h
    exact absurd hd (by simp [Progress.report, Progress.note])

theorem meets_reject (l : Location) (p : Problem) (R : Step (Option Ty)) :
    Meets (reject l p) R :=
  ((meets_report l p (fun _ _ _ => False)).bind fun _ => meets_pure none).mono
    fun _ _ _ ⟨_, _, h, _⟩ => h.elim

theorem meets_fatal (l : Location) (p : Problem) (R : Step α) : Meets (fatal l p : Check α) R where
  keeps _ := List.prefix_append _ _
  clean p' b q h _ := by cases h

theorem meets_combine (a b : Ty) :
    Meets (combine a b) (fun t r u => r = a.combine b ∧ u = t) where
  keeps _ := List.prefix_refl _
  clean p r q h _ := by cases h; exact ⟨rfl, rfl⟩

theorem yields_combine (t : TypeTable) (a b : Ty) : Yields (combine a b) t (a.combine b) t :=
  fun p hp => ⟨p.note _, rfl, rfl, hp⟩

/-! ## Results that may be missing

A clean step never lacks its result: what is missing was reported. -/

/-- The step gives a result, and gives it as `T` says. -/
def Gives (T : Step α) : Step (Option α) := fun t r u => ∃ a, r = some a ∧ T t a u

theorem meets_discard {m : Check α} {R : Step α} (hm : Meets m R) :
    Meets (discard m) (fun t _ u => ∃ a, R t a u) :=
  (hm.bind fun _ => meets_pure PUnit.unit).mono fun _ _ _ ⟨a, _, h, _, e⟩ => ⟨a, e ▸ h⟩

theorem yields_discard {m : Check α} {t u : TypeTable} {a : α} (h : Yields m t a u) :
    Yields (discard m) t PUnit.unit u :=
  h.bind (yields_pure u PUnit.unit)

theorem meets_recording {m : Check (Option Ty)} {T : Step Ty} (id : IrId)
    (hm : Meets m (Gives T)) :
    Meets (recording id m) (Gives fun t ty u => ∃ v, T t ty v ∧ u = v.record id ty) := by
  refine (hm.bind (S := fun r v b u => ∀ ty, r = some ty → b = some ty ∧ u = v.record id ty)
    fun r => ?_).mono ?_
  · cases r with
    | none => exact (meets_pure none).mono fun _ _ _ _ => nofun
    | some ty =>
      refine ((meets_record id ty).bind fun _ => meets_pure (some ty)).mono ?_
      rintro t r u ⟨_, v, rfl, rfl, rfl⟩ _ ⟨⟩
      exact ⟨rfl, rfl⟩
  · rintro t r u ⟨_, v, ⟨ty, rfl, h⟩, hs⟩
    obtain ⟨rfl, rfl⟩ := hs ty rfl
    exact ⟨ty, rfl, v, h, rfl⟩

theorem yields_recording {m : Check (Option Ty)} {t u : TypeTable} {ty : Ty} (id : IrId)
    (h : Yields m t (some ty) u) : Yields (recording id m) t (some ty) (u.record id ty) :=
  h.bind ((yields_record u id ty).bind (yields_pure _ _))

theorem meets_reconcile (a b : Ty) (l : Location) :
    Meets (reconcile a b l) (Gives fun t ty u => a.combine? b = some ty ∧ u = t) := by
  refine ((meets_combine a b).bind (S := fun r v b u => ∃ ty, r = .ok ty ∧ b = some ty ∧ u = v)
    fun r => ?_).mono ?_
  · cases r with
    | error m => exact meets_reject _ _ _
    | ok ty =>
      refine (meets_pure (some ty)).mono ?_
      rintro t r u ⟨rfl, rfl⟩
      exact ⟨ty, rfl, rfl, rfl⟩
  · rintro t r u ⟨_, v, ⟨rfl, rfl⟩, ty, h, rfl, rfl⟩
    exact ⟨ty, rfl, combine_eq_ok.1 h, rfl⟩

theorem yields_reconcile (t : TypeTable) {a b ty : Ty} (l : Location)
    (h : a.combine? b = some ty) : Yields (reconcile a b l) t (some ty) t := by
  refine (yields_combine t a b).bind ?_
  rw [combine_eq_ok.2 h]
  exact yields_pure _ _

theorem meets_fits (a : Ty) (b : Option Ty) (l : Location) :
    Meets (fits a b l) (fun t r u => r = b.isSome ∧
      ∀ x, b = some x → (∃ ty, a.combine? x = some ty) ∧ u = t) := by
  cases b with
  | none => exact (meets_pure false).mono fun t r u ⟨h, _⟩ => ⟨h, nofun⟩
  | some x =>
    refine ((meets_reconcile a x l).bind fun r => meets_pure r.isSome).mono ?_
    rintro t r u ⟨_, v, ⟨ty, rfl, h, rfl⟩, rfl, rfl⟩
    refine ⟨rfl, fun y hy => ?_⟩
    cases hy
    exact ⟨⟨ty, h⟩, rfl⟩

end MiddleEnd.Check
