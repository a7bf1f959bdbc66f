/-
  Evaluation keeps to the types that checking finds. Only the unit type matters, for no other type
  says what its values are: what is typed as unit comes to unit, and what is typed as an array of
  units comes to nothing at all, since operators make no use of unit (`Value.Fits`).

  The type of a variable may change while its body is checked, when an assignment settles it once
  more. So the store has to fit the tables step by step, each time those that checking had at that
  point (`Derives.preserves`). What the final table says about the blocks and conditionals that were
  evaluated on the way is kept in the evaluation (`Obeys`).
-/
import MiddleEnd.Proofs.Check.Reached
import MiddleEnd.Proofs.Meaning.Direct

namespace MiddleEnd

variable {α : Type}

/-! ## Values and types -/

/-- Types without data: unit, and arrays of it. -/
def Ty.hollow : Ty → Bool
  | .unit _ => true
  | .array _ element _ => element.hollow
  | _ => false

theorem Ty.hollow_shape : ∀ t : Ty, t.shape.hollow = t.hollow
  | .array _ element _ => element.hollow_shape
  | .error _ | .unit _ | .infer _ | .bool _ | .int _ _ | .uint _ _ | .float _ _ | .struct _ _ _
  | .fn _ _ _ | .field _ _ _ | .generic _ _ => rfl

theorem Ty.Alike.hollow_eq {a b : Ty} (h : a.Alike b) : a.hollow = b.hollow := by
  rw [← a.hollow_shape, ← b.hollow_shape, show a.shape = b.shape from h]

/-- Among the hollow types unit has one value and the others have none. -/
def Value.Fits (v : Value α) (t : Ty) : Prop := t.hollow = true → t.isUnit = true ∧ v = .unit

namespace Value.Fits

variable {v : Value α} {a b : Ty}

theorem unit {r : IrId} : (Value.unit : Value α).Fits (.unit r) := fun _ => ⟨rfl, rfl⟩

theorem solid {x : α} (h : (Value.data x).Fits a) : a.hollow = false := by
  by_contra hne
  cases (h (by simpa using hne)).2

theorem alike (h : v.Fits a) (hab : a.Alike b) : v.Fits b := by
  intro hb
  rw [← hab.isUnit_eq]
  exact h (hab.hollow_eq.trans hb)

end Value.Fits

/-- The table types the node as unit. -/
def TypeTable.IsUnit (T : TypeTable) (id : IrId) : Prop := ∃ t, T.get? id = some t ∧ t.isUnit = true

theorem TypeTable.isUnit_iff {T : TypeTable} {id : IrId} {t : Ty} (h : T.get? id = some t) :
    T.IsUnit id ↔ t.isUnit = true := by
  constructor
  · rintro ⟨t', h', hu⟩
    cases h.symm.trans h'
    exact hu
  · exact fun hu => ⟨t, h, hu⟩

namespace Check

/-- What the table says about what blocks and conditionals come to: a block has the type of its last
expression, the branches of a conditional are unit only if it is itself, and a block of the unit
type has no value but unit. -/
def Obeys (T : TypeTable) : Expr → Result α → Prop
  | .block h _ none, _ => T.IsUnit h.id.ir
  | .block h _ (some tail), r =>
    T.get? tail.ir = T.get? h.id.ir ∧ (T.IsUnit h.id.ir → ∀ v, r = .value v → v = .unit)
  | .ifElse h _ a b, _ => T.IsUnit a.ir ∨ T.IsUnit b.ir → T.IsUnit h.id.ir
  | _, _ => True

variable {k : Checked} {O : Operators α} {b : TypeTable} {V F : IrId → Prop} {result : Option Ty}
  {globals : List IrId}

/-! ## Stores and tables -/

/-- The values of the store fit the types in the table. -/
structure Conforms (V F : IrId → Prop) (t : TypeTable) (s : Store α) : Prop where
  primitives : ∀ {p : Primitive} {ty : Ty}, t.builtin? p.name = some ty → ty.hollow = false
  entries : ∀ {id v}, s id = some v →
    (V id ∨ F id) ∧ ∃ ty, t.get? id = some ty ∧ ty.complete = true ∧ v.Fits ty

namespace Conforms

variable {t u : TypeTable} {s : Store α} {id : IrId}

/-- A table that has the types of everything in the store. -/
theorem of_kept (h : Conforms V F t s) (hb : u.builtins = t.builtins)
    (hk : ∀ {id ty}, V id ∨ F id → t.get? id = some ty → ty.complete = true →
      u.get? id = some ty) : Conforms V F u s where
  primitives hp := by
    unfold TypeTable.builtin? at hp
    rw [hb] at hp
    exact h.primitives hp
  entries hs := by
    obtain ⟨hrole, ty, hget, hc, hfit⟩ := h.entries hs
    exact ⟨hrole, ty, hk hrole hget hc, hc, hfit⟩

theorem record_new (h : Conforms V F t s) (hn : t.get? id = none) (ty : Ty) :
    Conforms V F (t.record id ty) s :=
  h.of_kept rfl fun {other ty'} _ hget _ => by
    have hne : id ≠ other := fun he => by rw [he, hget] at hn; cases hn
    exact (get?_record_of_ne hne).trans hget

/-- A value that fits the type of its declaration. -/
theorem update (h : Conforms V F t s) (hrole : V id ∨ F id) {ty : Ty} {v : Value α}
    (hget : t.get? id = some ty) (hc : ty.complete = true) (hfit : v.Fits ty) :
    Conforms V F t (Function.update s id (some v)) where
  primitives := h.primitives
  entries {other w} hs := by
    by_cases he : other = id
    · rw [he] at hs ⊢
      rw [Function.update_self] at hs
      cases hs
      exact ⟨hrole, ty, hget, hc, hfit⟩
    · rw [Function.update_of_ne he] at hs
      exact h.entries hs

/-- A declaration without a value. -/
theorem clear (h : Conforms V F t s) (id : IrId) : Conforms V F t (Function.update s id none) where
  primitives := h.primitives
  entries {other w} hs := by
    by_cases he : other = id
    · rw [he, Function.update_self] at hs
      cases hs
    · rw [Function.update_of_ne he] at hs
      exact h.entries hs

/-- Where an assignment has been checked, the value that is assigned fits. -/
theorem assigned {h g : IrId} {ty : Ty} {v : Value α} (hc : Conforms V F t s)
    (ha : Assigned V h g id ty t u) (hrole : V id ∨ F id) (hV : ¬ V g) (hF : ¬ F g)
    (hfit : v.Fits ty) : Conforms V F u (Function.update s id (some v)) where
  primitives hp := by
    unfold TypeTable.builtin? at hp
    rw [ha.keeps.builtins] at hp
    exact hc.primitives hp
  entries {other w} hs := by
    by_cases he : other = id
    · rw [he] at hs ⊢
      rw [Function.update_self] at hs
      cases hs
      obtain ⟨dt, hget, hcomplete, halike⟩ := ha.declared
      exact ⟨hrole, dt, hget, hcomplete, hfit.alike halike⟩
    · rw [Function.update_of_ne he] at hs
      obtain ⟨hother, dt, hget, hdt⟩ := hc.entries hs
      have hne : other ≠ g := fun heq => (heq ▸ hother).elim hV hF
      exact ⟨hother, dt, (ha.others other hne he).trans hget, hdt⟩

/-- A store still fits after more has been checked. -/
theorem later (h : Conforms V F t s) {j : Judgement} (hd : Derives k.scope t j u) (hg : j.Given)
    (hr : Ready k.scope b V F result j.ids j.parts t) : Conforms V F u s := by
  refine h.of_kept hd.setting.builtins fun {id ty} _ hget hc => ?_
  refine (hd.evolved hg hr).evolves.keeps (fun hid => ?_) hget hc
  rw [hr.fresh id hid] at hget
  cases hget

end Conforms

namespace Judgement

/-- The code that a judgement is about; that of operands is looked at with what they belong to. -/
def code? : Judgement → Option Code
  | .expr e _ _ => some (.expr e)
  | .stmt st => some (.stmt st)
  | .stmts sts => some (.stmts sts)
  | .exprs .. | .arguments .. | .fields .. => none

/-- The value fits what the judgement says; that of statements is unit. -/
def Takes (j : Judgement) (v : Value α) : Prop :=
  match j with
  | .expr _ _ ty => v.Fits ty
  | _ => v = .unit

end Judgement

/-- Where the store fits the table before, evaluation obeys the final table and leads to a value and
a store that fit the table afterwards, unless it returns. -/
def Preserves (k : Checked) (O : Operators α) (V F : IrId → Prop) (t : TypeTable) (j : Judgement)
    (u : TypeTable) : Prop :=
  ∀ ⦃s s' : Store α⦄ ⦃c : Code⦄ ⦃r : Result α⦄, j.code? = some c → Conforms V F t s →
    Evaluates k O (fun _ _ => True) s c r s' →
    Evaluates k O (Obeys k.types) s c r s' ∧
      ∀ v, r = .value v → Conforms V F u s' ∧ j.Takes v

section

variable {t u v w : TypeTable} {e : Expr} {final : Bool} {ty : Ty}

/-- Operands change nothing, so only their value matters. -/
theorem Preserves.of_operand (h : Derives k.scope t (.expr e final ty) u)
    (hr : Ready k.scope b V F result e.ids e.parts t) (hd : Direct k globals e.parts)
    (ha : Lower.addsItself e = false)
    (hfit : ∀ {s : Store α} {x : Value α}, Conforms V F t s →
      Evaluates k O (fun _ _ => True) s (.expr e) (.value x) s → x.Fits ty) :
    Preserves k O V F t (.expr e final ty) u := by
  rintro s s' c r ⟨⟩ hc hev
  obtain ⟨rfl, _, hobeys⟩ := hev.operand (Q := Obeys k.types) ⟨ha, hd⟩
  refine ⟨hobeys, ?_⟩
  rintro x rfl
  exact ⟨hc.later h trivial hr, hfit hc hev⟩

/-- An operand that comes to data has a type with data. -/
theorem Preserves.solid (h : Preserves k O V F t (.expr e final ty) u) {s s' : Store α} {x : α}
    (hc : Conforms V F t s)
    (hev : Evaluates k O (fun _ _ => True) s (.expr e) (.value (.data x)) s') :
    ty.hollow = false :=
  ((h rfl hc hev).2 _ rfl).2.solid

end

/-- Parts of a direct body, whose `let`s introduce variables. -/
structure Sited (k : Checked) (globals : List IrId) (V : IrId → Prop) (parts : List Part) :
    Prop where
  direct : Direct k globals parts
  binds : ∀ {h q}, .bind h q ∈ parts → V h.id.ir

namespace Sited

variable {parts parts' : List Part} {p : Part}

theorem sub (h : Sited k globals V parts) (hs : ∀ p ∈ parts', p ∈ parts) :
    Sited k globals V parts' :=
  ⟨h.direct.sub hs, fun hm => h.binds (hs _ hm)⟩

theorem tail (h : Sited k globals V (p :: parts)) : Sited k globals V parts :=
  h.sub fun _ hp => List.mem_cons_of_mem _ hp

theorem left (h : Sited k globals V (parts ++ parts')) : Sited k globals V parts :=
  h.sub fun _ hp => List.mem_append_left _ hp

theorem right (h : Sited k globals V (parts ++ parts')) : Sited k globals V parts' :=
  h.sub fun _ hp => List.mem_append_right _ hp

end Sited

/-- What is derived from a table that is ready is preserved by evaluation. -/
def Sound (k : Checked) (O : Operators α) (b : TypeTable) (V F : IrId → Prop) (result : Option Ty)
    (globals : List IrId) (t : TypeTable) (j : Judgement) (u : TypeTable) : Prop :=
  Ready k.scope b V F result j.ids j.parts t → Keeps V u k.types → Sited k globals V j.parts →
    Preserves k O V F t j u

section

variable {t u v w : TypeTable} {e : Expr} {final : Bool} {ty : Ty}

/-- The final table has the type that was found for an expression. -/
theorem Derives.kept (h : Derives k.scope t (.expr e final ty) u)
    (hr : Ready k.scope b V F result e.ids e.parts t) (hk : Keeps V u k.types) :
    k.types.get? e.ir = some ty :=
  hk.exact h.get?_self (h.evolved trivial hr).found (hr.placed.expr e.self_mem_parts)

theorem Conforms.annotated {s : Scope} {a : Option TypeExpr} {annotated : Option Ty} {st : Store α}
    (hc : Conforms V F t st) (ha : Annotates? s t a annotated u)
    (hfresh : ∀ id ∈ TypeExpr.idsOf a, t.get? id = none) : Conforms V F u st := by
  refine hc.of_kept ha.setting.builtins fun {id ty} _ hget _ => ?_
  have hid : id ∉ TypeExpr.idsOf a := by
    intro hm
    rw [hfresh id hm] at hget
    cases hget
  exact (ha.frame (P := (· ∈ TypeExpr.idsOf a)) (fun _ hm => hm) id hid).trans hget

end

end Check

end MiddleEnd
