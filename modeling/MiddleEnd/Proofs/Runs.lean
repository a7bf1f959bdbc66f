/-
  Runs of steps that keep a state and may end in a fault.

  Two runs side by side: one step mirrors another if from states that correspond it comes to the
  corresponding result or to a corresponding fault, and leaves states that correspond (`Mirrors`).

  One run, whether it ends in a fault or not: `Throughout I Q m` says that from every state that
  satisfies `I` the step `m` leaves such a state, and what it gives, if it ends well, satisfies `Q`.
  `Triple P m Q E` tells the two ways to end apart: from every state that satisfies `P` the step
  ends well with `Q`, or in a fault with `E`. A fault ends everything that comes after it, so the
  condition `E` is the same one for all steps in a row.

  Steps one after the other are followed part by part, by the rule `bind` of each of these.
-/
import MiddleEnd.Diagnostic

namespace MiddleEnd

/-! ## Outcomes -/

/-- Faults of one kind, whatever they say. -/
def Fault.SameKind : Fault → Fault → Prop
  | .fatal _ _, .fatal _ _ => True
  | .internal _, .internal _ => True
  | .io _, .io _ => True
  | .codegen _, .codegen _ => True
  | _, _ => False

/-- No fault on either side, or faults of one kind. -/
def SameOutcome : Except Fault Unit → Except Fault Unit → Prop
  | .ok _, .ok _ => True
  | .error e, .error e' => e.SameKind e'
  | _, _ => False

theorem SameOutcome.of_common {r r' t : Except Fault Unit} (h : SameOutcome r t)
    (h' : SameOutcome r' t) : SameOutcome r r' := by
  rcases r with e | _ <;> rcases r' with e' | _ <;> rcases t with k | _ <;> try trivial
  cases e <;> cases e' <;> cases k <;> trivial

/-! ## Runs -/

section

variable {S α β : Type}

theorem run_bind (m : ExceptT Fault (StateM S) α) (f : α → ExceptT Fault (StateM S) β)
    (p : S) : (m >>= f).run.run p =
      match m.run.run p with
      | (.ok a, q) => (f a).run.run q
      | (.error e, q) => (.error e, q) := by
  unfold ExceptT.run StateT.run
  simp only [bind, ExceptT.bind, ExceptT.mk, StateT.bind, ExceptT.bindCont]
  cases m p with
  | mk r q => cases r <;> rfl

/-- Steps one after the other end well if each of them does. -/
theorem run_bind_ok_iff {m : ExceptT Fault (StateM S) α} {f : α → ExceptT Fault (StateM S) β}
    {p q : S} {b : β} : (m >>= f).run.run p = (.ok b, q) ↔
      ∃ a v, m.run.run p = (.ok a, v) ∧ (f a).run.run v = (.ok b, q) := by
  rw [run_bind]
  constructor
  · intro h
    rcases hm : m.run.run p with ⟨e | a, v⟩ <;> rw [hm] at h
    · cases h
    · exact ⟨a, v, rfl, h⟩
  · rintro ⟨a, v, hm, hf⟩
    rw [hm]
    exact hf

theorem run_pure_ok_iff {a b : α} {p q : S} :
    (pure a : ExceptT Fault (StateM S) α).run.run p = (.ok b, q) ↔ b = a ∧ q = p := by
  constructor
  · intro h
    cases h
    exact ⟨rfl, rfl⟩
  · rintro ⟨rfl, rfl⟩
    rfl

/-- A step that ends well without a result ends in the state that it leaves. -/
theorem run_of_isOk {m : ExceptT Fault (StateM S) Unit} {p : S}
    (h : (m.run.run p).1.isOk = true) : m.run.run p = (.ok (), (m.run.run p).2) := by
  rcases hr : m.run.run p with ⟨e | u, q⟩
  · rw [hr] at h
    cases h
  · rfl

end

/-! ## Two runs side by side -/

section

variable {S α β γ δ : Type} {R : S → S → Prop} {F : Fault → Fault → Prop}

/-- Results that correspond by `φ`, or faults related by `F`. -/
def Corresponds (F : Fault → Fault → Prop) (φ : α → β) : Except Fault α → Except Fault β → Prop
  | .ok a, .ok b => b = φ a
  | .error e, .error e' => F e e'
  | _, _ => False

theorem Corresponds.mono {G : Fault → Fault → Prop} {φ : α → β} {r : Except Fault α}
    {r' : Except Fault β} (h : Corresponds F φ r r') (hF : ∀ e e', F e e' → G e e') :
    Corresponds G φ r r' := by
  cases r <;> cases r'
  · exact hF _ _ h
  · exact h.elim
  · exact h.elim
  · exact h

theorem Corresponds.sameOutcome {φ : Unit → Unit} {r r' : Except Fault Unit}
    (h : Corresponds F φ r r') (hF : ∀ e e', F e e' → e.SameKind e') : SameOutcome r r' := by
  cases r <;> cases r'
  · exact hF _ _ h
  · exact h.elim
  · exact h.elim
  · trivial

/-- From states related by `R`, the steps come to results that correspond by `φ` or to faults
related by `F`, and to states related by `R` again. -/
def Mirrors (R : S → S → Prop) (F : Fault → Fault → Prop) (φ : α → β)
    (m : ExceptT Fault (StateM S) α) (m' : ExceptT Fault (StateM S) β) : Prop :=
  ∀ ⦃p p' : S⦄, R p p' →
    Corresponds F φ (m.run.run p).1 (m'.run.run p').1 ∧ R (m.run.run p).2 (m'.run.run p').2

namespace Mirrors

theorem pure {φ : α → β} {a : α} {b : β} (h : b = φ a) :
    Mirrors R F φ (pure a : ExceptT Fault (StateM S) α) (pure b) :=
  fun _ _ hp => ⟨h, hp⟩

theorem throw {φ : α → β} {e e' : Fault} (h : F e e') :
    Mirrors R F φ (throw e : ExceptT Fault (StateM S) α) (throw e') :=
  fun _ _ hp => ⟨h, hp⟩

theorem bind {φ : α → β} {ψ : γ → δ} {m : ExceptT Fault (StateM S) α}
    {m' : ExceptT Fault (StateM S) β} {f : α → ExceptT Fault (StateM S) γ}
    {f' : β → ExceptT Fault (StateM S) δ} (hm : Mirrors R F φ m m')
    (hf : ∀ a, Mirrors R F ψ (f a) (f' (φ a))) : Mirrors R F ψ (m >>= f) (m' >>= f') := by
  intro p p' hp
  obtain ⟨hresult, hstate⟩ := hm hp
  rw [run_bind, run_bind]
  rcases hr : m.run.run p with ⟨e | a, q⟩ <;> rcases hr' : m'.run.run p' with ⟨e' | b, q'⟩ <;>
    rw [hr, hr'] at hresult hstate
  · exact ⟨hresult, hstate⟩
  · exact hresult.elim
  · exact hresult.elim
  · obtain rfl : b = φ a := hresult
    exact hf a hstate

/-- Steps that look at the state first. -/
theorem get {φ : α → β} {f : S → ExceptT Fault (StateM S) α} {f' : S → ExceptT Fault (StateM S) β}
    (h : ∀ p p', R p p' → Mirrors R F φ (f p) (f' p')) :
    Mirrors R F φ (MonadState.get >>= f) (MonadState.get >>= f') :=
  fun p p' hp => h p p' hp hp

theorem modify {φ : PUnit → PUnit} {g g' : S → S} (h : ∀ p p', R p p' → R (g p) (g' p')) :
    Mirrors R F φ (modify g : ExceptT Fault (StateM S) PUnit) (modify g') :=
  fun p p' hp => ⟨rfl, h p p' hp⟩

theorem set {φ : PUnit → PUnit} {q q' : S} (h : R q q') :
    Mirrors R F φ (set q : ExceptT Fault (StateM S) PUnit) (set q') :=
  fun _ _ _ => ⟨rfl, h⟩

theorem discard {φ : α → β} {m : ExceptT Fault (StateM S) α} {m' : ExceptT Fault (StateM S) β}
    (h : Mirrors R F φ m m') : Mirrors R F id (discard m) (discard m') :=
  h.bind fun _ => .pure rfl

theorem forM {φ : α → α} {f f' : α → ExceptT Fault (StateM S) PUnit} :
    ∀ {l : List α}, (∀ a ∈ l, Mirrors R F id (f a) (f' (φ a))) →
      Mirrors R F id (l.forM f) ((l.map φ).forM f')
  | [], _ => .pure rfl
  | _ :: _, h => by
    obtain ⟨ha, hl⟩ := List.forall_mem_cons.1 h
    exact ha.bind fun _ => forM hl

end Mirrors

end

/-! ## What a run keeps -/

variable {S α β : Type} {I : S → Prop} {Q : α → Prop} {P : β → Prop}

/-- Whatever the step comes to, the invariant `I` is kept, and a result satisfies `Q`. -/
def Throughout (I : S → Prop) (Q : α → Prop) (m : ExceptT Fault (StateM S) α) : Prop :=
  ∀ ⦃s⦄, I s → I (m.run.run s).2 ∧ ∀ a, (m.run.run s).1 = .ok a → Q a

namespace Throughout

theorem pure {a : α} (h : Q a) : Throughout I Q (pure a : ExceptT Fault (StateM S) α) := by
  refine fun s hs => ⟨hs, fun b hb => ?_⟩
  cases hb
  exact h

theorem throw (e : Fault) : Throughout I Q (throw e : ExceptT Fault (StateM S) α) :=
  fun _ hs => ⟨hs, nofun⟩

theorem bind {m : ExceptT Fault (StateM S) α} {f : α → ExceptT Fault (StateM S) β}
    (hm : Throughout I Q m) (hf : ∀ a, Q a → Throughout I P (f a)) :
    Throughout I P (m >>= f) := by
  intro s hs
  obtain ⟨hstate, hresult⟩ := hm hs
  rw [run_bind]
  rcases hr : m.run.run s with ⟨e | a, q⟩ <;> rw [hr] at hstate hresult
  · exact ⟨hstate, nofun⟩
  · exact hf a (hresult a rfl) hstate

theorem mono {Q' : α → Prop} {m : ExceptT Fault (StateM S) α} (h : Throughout I Q m)
    (hQ : ∀ a, Q a → Q' a) : Throughout I Q' m :=
  fun _ hs => ⟨(h hs).1, fun a ha => hQ a ((h hs).2 a ha)⟩

/-- Steps that look at the state first. -/
theorem get {f : S → ExceptT Fault (StateM S) α} (h : ∀ s, I s → Throughout I Q (f s)) :
    Throughout I Q (MonadState.get >>= f) :=
  fun s hs => h s hs hs

theorem modify {g : S → S} (h : ∀ s, I s → I (g s)) :
    Throughout I (fun _ => True) (modify g : ExceptT Fault (StateM S) PUnit) :=
  fun s hs => ⟨h s hs, fun _ _ => trivial⟩

theorem discard {m : ExceptT Fault (StateM S) α} (h : Throughout I Q m) :
    Throughout I (fun _ => True) (discard m) :=
  h.bind fun _ _ => .pure trivial

theorem forM {f : α → ExceptT Fault (StateM S) PUnit} :
    ∀ {l : List α}, (∀ a ∈ l, Throughout I (fun _ => True) (f a)) →
      Throughout I (fun _ => True) (l.forM f)
  | [], _ => .pure trivial
  | _ :: _, h => by
    obtain ⟨ha, hl⟩ := List.forall_mem_cons.1 h
    exact ha.bind fun _ _ => forM hl

end Throughout

/-- From every state that satisfies `P` the step ends with a result and a state that satisfy `Q`, or
in a fault and a state that satisfy `E`. -/
structure Triple (P : S → Prop) (m : ExceptT Fault (StateM S) α) (Q : α → S → Prop)
    (E : Fault → S → Prop) : Prop where
  result : ∀ s, P s → ∀ a t, m.run.run s = (.ok a, t) → Q a t
  fault : ∀ s, P s → ∀ e t, m.run.run s = (.error e, t) → E e t

namespace Triple

variable {P : S → Prop} {Q Q' : α → S → Prop} {R : β → S → Prop} {E E' : Fault → S → Prop}
  {m : ExceptT Fault (StateM S) α}

theorem pure {a : α} (h : ∀ s, P s → Q a s) :
    Triple P (pure a : ExceptT Fault (StateM S) α) Q E where
  result s hs _ _ hr := by
    cases hr
    exact h s hs
  fault _ _ _ _ hr := nomatch hr

theorem throw {e : Fault} (h : ∀ s, P s → E e s) :
    Triple P (throw e : ExceptT Fault (StateM S) α) Q E where
  result _ _ _ _ hr := nomatch hr
  fault s hs _ _ hr := by
    cases hr
    exact h s hs

theorem bind {f : α → ExceptT Fault (StateM S) β} (hm : Triple P m Q E)
    (hf : ∀ a, Triple (Q a) (f a) R E) : Triple P (m >>= f) R E where
  result s hs b t h := by
    obtain ⟨a, q, hr, h⟩ := run_bind_ok_iff.1 h
    exact (hf a).result q (hm.result s hs a q hr) b t h
  fault s hs e t h := by
    rw [run_bind] at h
    rcases hr : m.run.run s with ⟨e' | a, q⟩ <;> rw [hr] at h
    · cases h
      exact hm.fault s hs _ _ hr
    · exact (hf a).fault q (hm.result s hs a q hr) e t h

theorem mono (h : Triple P m Q E) (hQ : ∀ a s, Q a s → Q' a s) : Triple P m Q' E where
  result s hs a t hr := hQ a t (h.result s hs a t hr)
  fault := h.fault

theorem mono_fault (h : Triple P m Q E) (hE : ∀ e s, E e s → E' e s) : Triple P m Q E' where
  result := h.result
  fault s hs e t hr := hE e t (h.fault s hs e t hr)

/-- What is known beforehand and is not about the state. -/
theorem given {C : Prop} (h : C → Triple P m Q E) : Triple (fun s => P s ∧ C) m Q E where
  result s hs := (h hs.2).result s hs.1
  fault s hs := (h hs.2).fault s hs.1

/-- Steps that look at the state first. -/
theorem get {f : S → ExceptT Fault (StateM S) α} (h : ∀ s, P s → Triple P (f s) Q E) :
    Triple P (MonadState.get >>= f) Q E where
  result s hs := (h s hs).result s hs
  fault s hs := (h s hs).fault s hs

theorem modify {g : S → S} {Q : PUnit → S → Prop} (h : ∀ s, P s → Q .unit (g s)) :
    Triple P (modify g : ExceptT Fault (StateM S) PUnit) Q E where
  result s hs _ _ hr := by
    cases hr
    exact h s hs
  fault _ _ _ _ hr := nomatch hr

theorem discard (h : Triple P m (fun _ => P') E) : Triple P (discard m) (fun _ => P') E :=
  h.bind fun _ => .pure fun _ hs => hs

/-- Steps for the elements of a list, where `I` tells what holds after those that are done. -/
theorem forM {I : List α → S → Prop} {f : α → ExceptT Fault (StateM S) PUnit} (done : List α) :
    ∀ {l : List α}, (∀ before, ∀ a ∈ l, Triple (I before) (f a) (fun _ => I (before ++ [a])) E) →
      Triple (I done) (l.forM f) (fun _ => I (done ++ l)) E
  | [], _ => by
    rw [List.append_nil]
    exact .pure fun _ hs => hs
  | a :: l, h => by
    have hrest : Triple (I (done ++ [a])) (l.forM f) (fun _ => I (done ++ [a] ++ l)) E :=
      forM (done ++ [a]) fun before b hb => h before b (List.mem_cons_of_mem _ hb)
    rw [List.append_assoc] at hrest
    exact (h done a (List.mem_cons_self ..)).bind fun _ => hrest

end Triple

end MiddleEnd
