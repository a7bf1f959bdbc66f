/-
  The phases of lowering a program before the first body: struct items, constants and statics, and
  signatures. What holds between any two of their steps (`PhaseInvariant`) holds when the bodies are
  lowered (`bodies_of_runs`).
-/
import MiddleEnd.Proofs.Chain
import MiddleEnd.Proofs.Lower.Invariant
import MiddleEnd.Proofs.Lower.Items

namespace MiddleEnd

/-- The declarations of an item that get variables. -/
def Item.declared (i : Item) : List IrId :=
  match i.kind with
  | .function d => d.declared
  | .struct _ => []
  | .constant d => Part.declaredAll d.value.parts
  | .static d => i.head.id.ir :: Part.declaredAll d.value.parts

/-- The declarations of a function item that get variables. -/
def Item.locals (i : Item) : List IrId :=
  match i.kind with
  | .function d => d.declared
  | _ => []

namespace Lower

variable {k : Checked} {l l' : Lowering} {ids : List IrId}

/-- A loop over a list is a chain of steps. -/
theorem chain_of_runs {α : Type} {f : α → Lower Unit} : ∀ {xs : List α} {u : Unit}
    {l l' : Lowering}, Runs (xs.forM f) l u l' → Chain (fun l a l' => Runs (f a) l () l') l xs l'
  | [], _, _, l', h => by
    obtain ⟨_, rfl⟩ := runs_pure.1 h
    exact .nil l'
  | a :: rest, _, l, l', h => by
    obtain ⟨_, l₁, ha, hrest⟩ := runs_bind.1 h
    exact .cons ha (chain_of_runs hrest)

/-! ## Unfilled functions -/

/-- Between two items before the first function is filled. -/
def Unfilled (k : Checked) (ids : List IrId) (l : Lowering) : Prop :=
  Prepared k ids l ∧ l.declared.functions = []

/-- A loop over items before the first function is filled. -/
theorem unfilled_forM {f : Item → Lower Unit} {is : List Item} {u : Unit} (h : Unfilled k ids l)
    (hr : Runs (is.forM f) l u l')
    (hstep : ∀ i ∈ is, ∀ {l u l'}, Prepared k ids l → Runs (f i) l u l' →
      Prepared k ids l' ∧ l'.declared.functions = l.declared.functions) : Unfilled k ids l' := by
  refine (chain_of_runs hr).mem.invariant (I := fun _ l => Unfilled k ids l) ?_ h
  intro l i l₁ _ ⟨hp, hd⟩ ⟨hi, hr⟩
  obtain ⟨hp₁, hd₁⟩ := hstep i hi hp hr
  exact ⟨hp₁, hd₁.trans hd⟩

theorem unfilled_primitives {u : Unit} (h : Unfilled k ids l)
    (hr : Runs (enterPrimitives k) l u l') : Unfilled k ids l' := by
  refine (chain_of_runs hr).invariant (I := fun _ l => Unfilled k ids l) ?_ h
  intro l b l₁ _ ⟨hp, hd⟩ hr
  obtain ⟨id, _, rid, h₁⟩ := runs_bind.1 hr
  obtain ⟨_, rfl⟩ := runs_require.1 rid
  obtain ⟨t, _, rt, h₂⟩ := runs_bind.1 h₁
  obtain ⟨ht, rfl⟩ := runs_require.1 rt
  obtain ⟨ct, _, rct, rset⟩ := runs_bind.1 h₂
  obtain ⟨hct, rfl⟩ := runs_require.1 rct
  refine ⟨hp.setType ht (.inl hct) rset, ?_⟩
  rw [runs_modify.1 rset]
  exact hd

theorem unfilled_empty (target : String) : Unfilled k ids (.empty target) := by
  refine ⟨⟨⟨nofun, nofun, nofun, nofun⟩, ?_, ⟨nofun, nofun⟩, ?_⟩, rfl⟩
  · intro f _ x hx
    cases hx
  · intro id hid
    exact absurd rfl hid

theorem Unfilled.note (h : Unfilled k ids l) (e : Event) : Unfilled k ids (l.note e) :=
  ⟨⟨h.1.setting, h.1.blank, h.1.slots, h.1.keys⟩, h.2⟩

theorem unfilled_structs {is : List Item} {u : Unit} (h : Unfilled k ids l)
    (hr : Runs (is.forM fun i =>
      match i.kind with
      | .struct d => structItem k i d
      | _ => return ()) l u l') : Unfilled k ids l' := by
  refine unfilled_forM h hr ?_
  intro i _ l u l' hp hr
  cases hi : i.kind with
  | struct d =>
    rw [hi] at hr
    exact hp.structItem hr
  | _ =>
    rw [hi] at hr
    obtain ⟨_, rfl⟩ := runs_pure.1 hr
    exact ⟨hp, rfl⟩

theorem unfilled_values {is : List Item} {u : Unit} (h : Unfilled k ids l)
    (hm : ∀ i ∈ is, (∀ d, i.kind ≠ .function d) → i.declared ⊆ ids)
    (hr : Runs (is.forM fun i =>
      match i.kind with
      | .constant d => constantItem k i d
      | .static d => staticItem k i d
      | _ => return ()) l u l') : Unfilled k ids l' := by
  refine unfilled_forM h hr ?_
  intro i hmem l u l' hp hr
  have hsub := hm i hmem
  unfold Item.declared at hsub
  cases hi : i.kind with
  | constant d =>
    rw [hi] at hr hsub
    exact hp.constantItem (hsub nofun) hr
  | static d =>
    rw [hi] at hr hsub
    obtain ⟨hid, hvalue⟩ := List.cons_subset.1 (hsub nofun)
    exact hp.staticItem hid hvalue hr
  | _ =>
    rw [hi] at hr
    obtain ⟨_, rfl⟩ := runs_pure.1 hr
    exact ⟨hp, rfl⟩

theorem unfilled_signatures {is : List Item} {u : Unit} (h : Unfilled k ids l)
    (hr : Runs (is.forM fun i =>
      match i.kind with
      | .function d => functionSignature k i d
      | _ => return ()) l u l') : Unfilled k ids l' := by
  refine unfilled_forM h hr ?_
  intro i _ l u l' hp hr
  cases hi : i.kind with
  | function d =>
    rw [hi] at hr
    exact hp.functionSignature hr
  | _ =>
    rw [hi] at hr
    obtain ⟨_, rfl⟩ := runs_pure.1 hr
    exact ⟨hp, rfl⟩

/-! ## Invariants -/

/-- What holds between any two single steps before the bodies of a program are lowered. -/
structure PhaseInvariant (p : Program) (I : Lowering → Prop) : Prop where
  inside (names : List String) : Invariant names I
  /-- A step that touches neither variables, constants nor statements. -/
  rest {l l' : Lowering} : l'.c.vars = l.c.vars → l'.c.blocks = l.c.blocks → l'.vars = l.vars →
    l'.constants = l.constants → l'.active = l.active → l'.blocks = l.blocks → I l → I l'
  constant {l : Lowering} {i : Item} {d : ConstantDecl} (e : C.Expr) :
    i ∈ p.items → i.kind = .constant d → I l →
    I { l with constants := l.constants.insert i.head.id.ir e }
  static {l : Lowering} {i : Item} {d : StaticDecl} (t : C.Ty) (init : C.Expr) :
    i ∈ p.items → i.kind = .static d → I l →
    I { l with
      c := (l.c.globalVariable d.name t init d.isMutable).2
      vars := l.vars.insert i.head.id.ir ⟨l.c.vars.size⟩ }

namespace PhaseInvariant

variable {p : Program} {I : Lowering → Prop}

theorem note (h : PhaseInvariant p I) (e : Event) : Kept I (note e) :=
  .modify fun _ => h.rest rfl rfl rfl rfl rfl rfl

theorem modifyDeclared (h : PhaseInvariant p I)
    (f : C.Program.Declarations → C.Program.Declarations) : Kept I (modifyDeclared f) :=
  .modify fun _ => h.rest rfl rfl rfl rfl rfl rfl

theorem setType (h : PhaseInvariant p I) (id : IrId) (t : C.Ty) : Kept I (setType id t) :=
  .modify fun _ => h.rest rfl rfl rfl rfl rfl rfl

theorem setFunction (h : PhaseInvariant p I) (id : IrId) (f : C.FunctionId) :
    Kept I (setFunction id f) :=
  .modify fun _ => h.rest rfl rfl rfl rfl rfl rfl

theorem type (h : PhaseInvariant p I) (t : Ty) : Kept I (type t) := kept_type (h.inside []) t

theorem types (h : PhaseInvariant p I) : ∀ ms : Members, Kept I (types ms)
  | .nil => .pure _
  | .cons _ t rest => (h.type t).bind fun _ => (h.types rest).bind fun _ => .pure _

theorem expr (h : PhaseInvariant p I) (e : Expr) : Kept I (expr k e) :=
  (keptAll (h.inside ("__tmp" :: Part.namesAll e.parts)) (List.mem_cons_self ..) e
    (List.subset_cons_self _ _)).expr

theorem primitives (h : PhaseInvariant p I) : Kept I (enterPrimitives k) :=
  Kept.forM fun _ _ => (Kept.require _ _).bind fun id => (Kept.require _ _).bind fun _ =>
    (Kept.require _ _).bind fun ct => h.setType id ct

theorem structItem (h : PhaseInvariant p I) (i : Item) (d : StructDecl) :
    Kept I (structItem k i d) :=
  (Kept.require _ _).bind fun t => by
    cases t.struct? with
    | none => exact .defect _
    | some found =>
      refine (h.types found.2).bind fun ms => Kept.bind (fun l ct l' hr => ?_) fun ct =>
        (h.setType i.head.id.ir ct).bind fun _ => h.modifyDeclared _
      rw [(runs_build.1 hr).2]
      exact h.rest rfl rfl rfl rfl rfl rfl

theorem constantItem (h : PhaseInvariant p I) {i : Item} {d : ConstantDecl} (hi : i ∈ p.items)
    (hd : i.kind = .constant d) : Kept I (constantItem k i d) := by
  refine (Kept.require _ _).bind fun t => (h.type t).bind fun ct => (h.expr d.value).bind fun v =>
    Kept.bind (fun l e l' hr => ?_) fun e => Kept.bind (.modify fun l => h.constant e hi hd) fun _ =>
    h.modifyDeclared _
  rw [(runs_build.1 hr).2]
  exact h.rest rfl rfl rfl rfl rfl rfl

theorem staticItem (h : PhaseInvariant p I) {i : Item} {d : StaticDecl} (hi : i ∈ p.items)
    (hd : i.kind = .static d) : Kept I (staticItem k i d) := by
  refine (Kept.require _ _).bind fun t => (h.type t).bind fun ct => (h.expr d.value).bind fun v => ?_
  intro l u l' hr hl
  obtain ⟨x, l₁, rx, h₁⟩ := runs_bind.1 hr
  obtain ⟨rfl, rfl⟩ := runs_build.1 rx
  obtain ⟨_, l₂, rset, rdeclare⟩ := runs_bind.1 h₁
  have hset := runs_modify.1 rset
  refine h.modifyDeclared _ rdeclare ?_
  rw [hset]
  exact h.static ct v hi hd hl

theorem functionSignature (h : PhaseInvariant p I) (i : Item) (d : FunctionDecl) :
    Kept I (functionSignature k i d) := by
  have hsig : Kept I (signatureOf k i d) := (Kept.require _ _).bind fun _ => .require _ _
  refine hsig.bind fun s => (h.types s.1).bind fun ps => ?_
  have hresult : Kept I (resultType s.2) := by
    unfold resultType
    cases s.2.isUnit with
    | true => exact .pure _
    | false => exact (h.type s.2).bind fun _ => .pure _
  refine hresult.bind fun _ => Kept.bind (fun l f l' hr => ?_) fun f => h.setFunction i.head.id.ir f
  rw [(runs_buildOrFail.1 hr).2]
  exact h.rest rfl rfl rfl rfl rfl rfl

end PhaseInvariant

/-! ## Programs -/

/-- The last phase on one item. -/
def bodyItem (k : Checked) (i : Item) : Lower Unit :=
  match i.kind with
  | .function d => functionBody k i d
  | _ => return ()

/-- The last phase on items, one after the other. -/
abbrev Bodies (k : Checked) : Lowering → List Item → Lowering → Prop :=
  Chain fun l i l' => Runs (bodyItem k i) l () l'

/-- The phases of lowering a program: every invariant of the first ones holds where the bodies are
lowered, no function is filled there, and the program is written afterwards. -/
theorem bodies_of_runs {p : Program} {target : String} {u : Unit}
    (hr : Runs (do enterPrimitives k; program k p) (.empty target) u l') :
    ∃ l₀ l₁, (∀ I, PhaseInvariant p I → I (.empty target) → I l₀) ∧
      (∀ ids, (∀ i ∈ p.items, (∀ d, i.kind ≠ .function d) → i.declared ⊆ ids) →
        Unfilled k ids l₀) ∧
      Bodies k l₀ p.items l₁ ∧ Runs write l₁ () l' := by
  obtain ⟨_, l₁, rprim, h₁⟩ := runs_bind.1 hr
  obtain ⟨_, l₂, rnote, h₂⟩ := runs_bind.1 h₁
  obtain ⟨_, l₃, rstruct, h₃⟩ := runs_bind.1 h₂
  obtain ⟨_, l₄, rvalue, h₄⟩ := runs_bind.1 h₃
  obtain ⟨_, l₅, rsig, h₅⟩ := runs_bind.1 h₄
  obtain ⟨_, l₆, rbody, rwrite⟩ := runs_bind.1 h₅
  refine ⟨l₅, l₆, fun I h hstart => ?_, fun ids hvalues => ?_,
    chain_of_runs (f := bodyItem k) rbody, rwrite⟩
  · refine Kept.forM (fun i _ => ?_) rsig (Kept.forM (fun i hi => ?_) rvalue
      (Kept.forM (fun i _ => ?_) rstruct (h.note _ rnote (h.primitives rprim hstart))))
    · cases i.kind with
      | function d => exact h.functionSignature i d
      | _ => exact .pure _
    · cases hd : i.kind with
      | constant d => exact h.constantItem hi hd
      | static d => exact h.staticItem hi hd
      | _ => exact .pure _
    · cases i.kind with
      | struct d => exact h.structItem i d
      | _ => exact .pure _
  · refine unfilled_signatures (unfilled_values (unfilled_structs ?_ rstruct) hvalues rvalue) rsig
    rw [runs_note.1 rnote]
    exact (unfilled_primitives (unfilled_empty target) rprim).note _

/-- No function is active and no block is open. -/
def Idle (l : Lowering) : Prop := l.active = [] ∧ l.blocks = []

namespace Idle

/-- Nothing can be added while no block is open and no function active. -/
theorem invariant (names : List String) : Invariant names Idle where
  wrap _ _ h := h
  add _ hr h := by
    obtain ⟨_, _, hb, _⟩ := runs_addStmt.1 hr
    rw [h.2] at hb
    cases hb
  declare _ ha _ h := by
    rw [h.1] at ha
    cases ha
  begins ha _ _ h := by
    rw [h.1] at ha
    cases ha
  ends _ _ _ hr h := by
    obtain ⟨_, _, hb, _⟩ := runs_popBlock.1 hr
    rw [h.2] at hb
    cases hb

theorem phases (p : Program) : PhaseInvariant p Idle where
  inside := invariant
  rest _ _ _ _ ha hb h := ⟨ha.trans h.1, hb.trans h.2⟩
  constant _ _ _ h := h
  static _ _ _ _ h := h

end Idle

end Lower

end MiddleEnd
