/-
  Checking under other numbers and other names. From tables that translate others every step of a
  check comes to the translated result or to a fault of the same kind, records translated types and
  reports problems of the same severity at the same locations (`Check.mirrors_program`). The steps
  read identities only to look them up in the tables, and names of values only to show them in
  messages. So where names stay, messages say the same (`Check.mirrors_renumbered`).
-/
import Mathlib.Data.List.Forall2
import MiddleEnd.Proofs.Check.Pass
import MiddleEnd.Proofs.Runs
import MiddleEnd.Proofs.Tables.Renumber

namespace MiddleEnd

variable {α β : Type} {ρ : Renumbering} {ν : String → String} {s s' : Scope}

/-! ## What is translated -/

def Mismatch.translate (ρ : Renumbering) (ν : String → String) (m : Mismatch) : Mismatch :=
  ⟨m.expected.translate ρ ν, m.got.translate ρ ν⟩

theorem Ty.combine_translate (hρ : Function.Injective ρ.ir) (a b : Ty) :
    (a.translate ρ ν).combine (b.translate ρ ν) =
      ((a.combine b).map (translate ρ ν)).mapError (Mismatch.translate ρ ν) := by
  unfold combine
  rw [combine?_translate hρ]
  cases a.combine? b <;> rfl

/-- The same severity at the same location; the same problem under new numbers, if names stay. -/
structure Diagnostic.Translates (ρ : Renumbering) (ν : String → String) (d d' : Diagnostic) :
    Prop where
  severity : d'.severity = d.severity
  location : d'.location = d.location
  problem : ν = id → d'.problem = d.problem.renumber ρ

/-- A fault of the same kind; the same fault under new numbers, if names stay. -/
structure Fault.Translates (ρ : Renumbering) (ν : String → String) (e e' : Fault) : Prop where
  kind : e.SameKind e'
  exact : ν = id → e' = e.renumber ρ

/-- The same types, translated. -/
structure TypeTable.Translates (ρ : Renumbering) (ν : String → String) (t t' : TypeTable) :
    Prop where
  builtins : t'.builtins = t.builtins.map fun x => (x.1, x.2.translate ρ ν)
  builtinId? : ∀ n, t'.builtinId? (ρ.surface n) = (t.builtinId? n).map ρ.ir
  get? : ∀ id, t'.get? (ρ.ir id) = (t.get? id).map (Ty.translate ρ ν)
  returns : t'.returns = t.returns.map (Ty.translate ρ ν)

namespace TypeTable.Translates

variable {t t' : TypeTable}

theorem builtin? (h : Translates ρ ν t t') (name : String) :
    t'.builtin? name = (t.builtin? name).map (Ty.translate ρ ν) := by
  unfold TypeTable.builtin?
  rw [h.builtins, List.find?_map, Option.map_map, Option.map_map]
  rfl

theorem return? (h : Translates ρ ν t t') : t'.return? = t.return?.map (Ty.translate ρ ν) := by
  unfold TypeTable.return?
  rw [h.returns, List.head?_map]

theorem record (h : Translates ρ ν t t') (hρ : ρ.Injective) (id : IrId) (ty : Ty) :
    Translates ρ ν (t.record id ty) (t'.record (ρ.ir id) (ty.translate ρ ν)) where
  builtins := h.builtins
  builtinId? := h.builtinId?
  get? other := by
    rw [get?_record, get?_record, h.get?]
    simp only [hρ.ir.eq_iff]
    split <;> rfl
  returns := h.returns

theorem pushReturn (h : Translates ρ ν t t') (ty : Ty) :
    Translates ρ ν (t.pushReturn ty) (t'.pushReturn (ty.translate ρ ν)) :=
  ⟨h.builtins, h.builtinId?, h.get?, congrArg (ty.translate ρ ν :: ·) h.returns⟩

theorem popReturn (h : Translates ρ ν t t') : Translates ρ ν t.popReturn.2 t'.popReturn.2 :=
  ⟨h.builtins, h.builtinId?, h.get?, (congrArg List.tail h.returns).trans List.map_tail.symm⟩

end TypeTable.Translates

/-- The same types, translated, and as many reports, whatever was logged. -/
structure Progress.Translates (ρ : Renumbering) (ν : String → String) (p p' : Progress) :
    Prop where
  types : p.types.Translates ρ ν p'.types
  diagnostics : List.Forall₂ (Diagnostic.Translates ρ ν) p.diagnostics p'.diagnostics

theorem Progress.Translates.report {p p' : Progress} (h : p.Translates ρ ν p') {d d' : Diagnostic}
    (hd : d.Translates ρ ν d') : (p.report d).Translates ρ ν (p'.report d') :=
  ⟨h.types, List.rel_append h.diagnostics (.cons hd .nil)⟩

namespace Check

/-- Steps of two checks whose tables translate each other. -/
abbrev Mirrors (ρ : Renumbering) (ν : String → String) (φ : α → β) (m : Check α)
    (m' : Check β) : Prop :=
  MiddleEnd.Mirrors (Progress.Translates ρ ν) (Fault.Translates ρ ν) φ m m'

/-- Types that may be missing, translated. -/
abbrev translate? (ρ : Renumbering) (ν : String → String) : Option Ty → Option Ty :=
  Option.map (Ty.translate ρ ν)

/-! ## Single steps -/

theorem mirrors_note (e e' : Event) : Mirrors ρ ν id (note e) (note e') :=
  .modify fun _ _ h => ⟨h.types, h.diagnostics⟩

theorem mirrors_typeOf? (i : IrId) : Mirrors ρ ν (translate? ρ ν) (typeOf? i) (typeOf? (ρ.ir i)) :=
  .get fun _ _ h => .pure (h.types.get? i)

theorem mirrors_return? : Mirrors ρ ν (translate? ρ ν) return? return? :=
  .get fun _ _ h => .pure h.types.return?

theorem mirrors_report (l : Location) {p p' : Problem} (hp : ν = id → p' = p.renumber ρ) :
    Mirrors ρ ν id (report l p) (report l p') :=
  .modify fun _ _ h => h.report ⟨rfl, rfl, hp⟩

theorem mirrors_reject (l : Location) {p p' : Problem} (hp : ν = id → p' = p.renumber ρ) :
    Mirrors ρ ν (translate? ρ ν) (reject l p) (reject l p') :=
  (mirrors_report l hp).bind fun _ => .pure rfl

theorem mirrors_fatal (l : Location) {p p' : Problem} (hp : ν = id → p' = p.renumber ρ) :
    Mirrors ρ ν (translate? ρ ν) (fatal l p) (fatal l p') :=
  MiddleEnd.Mirrors.bind (φ := id) (.modify fun _ _ h => h.report ⟨rfl, rfl, hp⟩) fun _ =>
    .throw ⟨trivial, fun h => congrArg (Fault.fatal l) (hp h)⟩

theorem mirrors_defect {φ : α → β} {d d' : Defect} (hd : ν = id → d' = d.renumber ρ) :
    Mirrors ρ ν φ (defect d) (defect d') :=
  .throw ⟨trivial, fun h => congrArg Fault.internal (hd h)⟩

theorem mirrors_inFunction (t : Ty) {m m' : Check (Option Ty)}
    (h : Mirrors ρ ν (translate? ρ ν) m m') :
    Mirrors ρ ν (translate? ρ ν) (inFunction t m) (inFunction (t.translate ρ ν) m') := by
  intro p p' hp
  have hpush : Progress.Translates ρ ν { p with types := p.types.pushReturn t }
      { p' with types := p'.types.pushReturn (t.translate ρ ν) } :=
    ⟨hp.types.pushReturn t, hp.diagnostics⟩
  obtain ⟨hresult, hstate⟩ := h hpush
  exact ⟨hresult, hstate.types.popReturn, hstate.diagnostics⟩

/-- What messages show of an expression stays if names do. -/
theorem text_of_kept (h : ν = id) (e : Expr) : (e.translate ρ ν).text = e.text := by
  rw [h, Expr.text_translate_id]

theorem ty_of_kept (h : ν = id) (t : Ty) : t.translate ρ ν = t.renumber ρ := by
  rw [h, Ty.translate_id]

theorem mismatch_of_kept (h : ν = id) (m : Mismatch) : m.translate ρ ν = m.renumber ρ := by
  rw [Mismatch.translate, ty_of_kept h, ty_of_kept h]
  rfl

section

variable (hρ : ρ.Injective)
include hρ

theorem mirrors_record (i : IrId) (t : Ty) :
    Mirrors ρ ν id (record i t) (record (ρ.ir i) (t.translate ρ ν)) :=
  .modify fun _ _ h => ⟨h.types.record hρ i t, h.diagnostics⟩

theorem mirrors_recording (i : IrId) {m m' : Check (Option Ty)}
    (h : Mirrors ρ ν (translate? ρ ν) m m') :
    Mirrors ρ ν (translate? ρ ν) (recording i m) (recording (ρ.ir i) m') := by
  refine h.bind fun r => ?_
  cases r with
  | none => exact .pure rfl
  | some t => exact (mirrors_record hρ i t).bind fun _ => .pure rfl

/-- What combining two types comes to, translated. -/
def translateCombined (ρ : Renumbering) (ν : String → String) (r : Except Mismatch Ty) :
    Except Mismatch Ty :=
  (r.map (Ty.translate ρ ν)).mapError (Mismatch.translate ρ ν)

theorem mirrors_combine (a b : Ty) : Mirrors ρ ν (translateCombined ρ ν) (combine a b)
    (combine (a.translate ρ ν) (b.translate ρ ν)) :=
  MiddleEnd.Mirrors.bind (φ := id) (.modify fun _ _ h => ⟨h.types, h.diagnostics⟩)
    fun _ => .pure (Ty.combine_translate hρ.ir a b)

theorem mirrors_reconcile (a b : Ty) (l : Location) : Mirrors ρ ν (translate? ρ ν)
    (reconcile a b l) (reconcile (a.translate ρ ν) (b.translate ρ ν) l) := by
  refine (mirrors_combine hρ a b).bind fun r => ?_
  cases r with
  | ok t => exact .pure rfl
  | error m => exact mirrors_reject l fun h => congrArg Problem.mismatch (mismatch_of_kept h m)

theorem mirrors_fits (a : Ty) (b : Option Ty) (l : Location) :
    Mirrors ρ ν id (fits a b l) (fits (a.translate ρ ν) (translate? ρ ν b) l) := by
  cases b with
  | none => exact .pure rfl
  | some t => exact (mirrors_reconcile hρ a t l).bind fun r => .pure (Option.isSome_map ..)

end

/-! ## Names -/

section

variable (hs : s.Renumbers ρ s')
include hs

/-- Names lead to corresponding nodes, or fail to in the same way. -/
theorem declaration_translate (e : Expr) :
    (∃ i, declaration s e = .ok i ∧ declaration s' (e.translate ρ ν) = .ok (ρ.ir i)) ∨
      ∃ p p', declaration s e = .error p ∧ declaration s' (e.translate ρ ν) = .error p' ∧
        (ν = id → p' = p.renumber ρ) := by
  unfold declaration
  rw [Expr.surface_translate, hs.bindings.name?, Expr.head_translate]
  cases s.bindings.name? e.surface with
  | none => exact .inr ⟨_, _, rfl, rfl, fun h => congrArg Problem.unboundName (text_of_kept h e)⟩
  | some decl =>
    dsimp only [Option.map_some]
    rw [hs.bindings.definition?]
    cases s.bindings.definition? decl with
    | none => exact .inr ⟨_, _, rfl, rfl, fun _ => rfl⟩
    | some d =>
      have hnode := hs.registry.node? ⟨e.head.id.crate, d.parent⟩
      simp only [Site.renumber] at hnode
      simp only [Option.map_some, Definition.renumber, Head.renumber_crate, hnode]
      cases s.registry.node? ⟨e.head.id.crate, d.parent⟩ with
      | none => exact .inr ⟨_, _, rfl, rfl, fun _ => rfl⟩
      | some i => exact .inl ⟨i, rfl, rfl⟩

theorem mirrors_identifier (e : Expr) (isTarget : Bool) : Mirrors ρ ν (translate? ρ ν)
    (identifier s e isTarget) (identifier s' (e.translate ρ ν) isTarget) := by
  unfold identifier
  rw [Expr.locus_translate]
  obtain ⟨i, hi, hi'⟩ | ⟨p, p', hp, hp', hkept⟩ := declaration_translate (ν := ν) hs e
  · rw [hi, hi']
    refine (mirrors_typeOf? i).bind fun r => ?_
    cases r with
    | none =>
      dsimp only [Option.map_none]
      rw [hs.registry.location]
      exact mirrors_reject _ fun h => congrArg Problem.untyped (text_of_kept h e)
    | some t =>
      dsimp only [Option.map_some]
      rw [Ty.isInfer_translate]
      split
      · exact mirrors_reject _ fun h => congrArg Problem.unsettled (text_of_kept h e)
      · exact .pure rfl
  · rw [hp, hp']
    exact mirrors_reject _ hkept

/-- The type of the node that a binding leads to, as callees and struct literals look it up. -/
theorem mirrors_typeAt (c : CrateNumber) (decl : SurfaceId) (l : Location) {shown shown' : String}
    (hshown : ν = id → shown' = shown) :
    Mirrors ρ ν (translate? ρ ν)
      (match s.registry.node? ⟨c, decl⟩ with
        | none => reject l .noSuchNode
        | some i => do
          match ← typeOf? i with
          | none => reject l (.untyped shown)
          | some t => return some t)
      (match s'.registry.node? ⟨c, ρ.surface decl⟩ with
        | none => reject l .noSuchNode
        | some i => do
          match ← typeOf? i with
          | none => reject l (.untyped shown')
          | some t => return some t) := by
  have hnode := hs.registry.node? ⟨c, decl⟩
  simp only [Site.renumber] at hnode
  rw [hnode]
  cases s.registry.node? ⟨c, decl⟩ with
  | none => exact mirrors_reject l fun _ => rfl
  | some i =>
    refine (mirrors_typeOf? i).bind fun r => ?_
    cases r with
    | none => exact mirrors_reject l fun h => congrArg Problem.untyped (hshown h)
    | some t => exact .pure rfl

theorem mirrors_calleeType (e callee : Expr) : Mirrors ρ ν (translate? ρ ν)
    (calleeType s e callee) (calleeType s' (e.translate ρ ν) (callee.translate ρ ν)) := by
  unfold calleeType
  rw [Expr.locus_translate, Expr.head_translate, Expr.surface_translate, hs.bindings.name?]
  cases s.bindings.name? callee.surface with
  | none => exact mirrors_reject _ fun h => congrArg Problem.unboundName (text_of_kept h e)
  | some decl => exact mirrors_typeAt hs e.head.id.crate decl e.locus (text_of_kept · e)

theorem mirrors_structType (e : Expr) (path : StructPath) : Mirrors ρ ν (translate? ρ ν)
    (structType s e path) (structType s' (e.translate ρ ν) (path.renumber ρ)) := by
  have hbound : s'.bindings.type? (path.renumber ρ).id.surface =
      (s.bindings.type? path.id.surface).map ρ.surface := hs.bindings.type? _
  unfold structType
  rw [Expr.locus_translate, hbound]
  cases s.bindings.type? path.id.surface with
  | none => exact mirrors_reject _ fun _ => rfl
  | some decl => exact mirrors_typeAt hs path.id.crate decl e.locus (text_of_kept · e)

end

theorem mirrors_literal (lit : Literal) :
    Mirrors ρ ν (Ty.translate ρ ν) (literal lit) (literal lit) := by
  refine .get fun p p' h => ?_
  rw [h.types.builtin?]
  cases p.types.builtin? lit.primitive.name with
  | none => exact mirrors_defect fun _ => rfl
  | some t => exact .pure rfl

/-! ## Several types at once -/

theorem mirrors_elementOf (base position : Option Ty) (l : Location) : Mirrors ρ ν (translate? ρ ν)
    (elementOf base position l) (elementOf (translate? ρ ν base) (translate? ρ ν position) l) := by
  cases position with
  | none => exact .pure rfl
  | some p =>
    cases base with
    | none => exact .pure rfl
    | some b =>
      cases b with
      | array | error => exact .pure rfl
      | _ => exact mirrors_fatal l fun _ => rfl

theorem mapM_id_translate (types : List (Option Ty)) :
    (types.map (translate? ρ ν)).mapM id = (types.mapM id).map (List.map (Ty.translate ρ ν)) := by
  induction types with
  | nil => rfl
  | cons t types ih =>
    rw [List.map_cons, List.mapM_cons, List.mapM_cons, ih]
    cases t <;> cases types.mapM id <;> rfl

theorem mirrors_missingFields (l : Location) (struct : String) (given : List String) :
    ∀ decls : Members, Mirrors ρ ν id (missingFields l struct given decls)
      (missingFields l struct given (decls.translate ρ ν id))
  | .nil => .pure rfl
  | .cons name t rest => by
    simp only [Members.translate, missingFields, id]
    split
    · exact mirrors_missingFields l struct given rest
    · exact (mirrors_report l fun _ => rfl).bind fun _ =>
        (mirrors_missingFields l struct given rest).discard.bind fun _ => .pure rfl

section

variable (hρ : ρ.Injective)
include hρ

theorem mirrors_settle : ∀ (types : List (Ty × Location)) (element : Ty),
    Mirrors ρ ν (translate? ρ ν) (settle element types)
      (settle (element.translate ρ ν) (types.map fun t => (t.1.translate ρ ν, t.2)))
  | [], _ => .pure rfl
  | (t, l) :: rest, element => by
    refine (mirrors_reconcile hρ element t l).bind fun r => ?_
    cases r with
    | none => exact .pure rfl
    | some next => exact mirrors_settle rest next

theorem mirrors_fieldInit (h : Head) (declared : Option Ty) (struct field : String)
    (value : Option Ty) :
    Mirrors ρ ν id (fieldInit h declared (.noSuchField struct field) value)
      (fieldInit (h.renumber ρ) (translate? ρ ν declared) (.noSuchField struct field)
        (translate? ρ ν value)) := by
  cases declared with
  | none => exact (mirrors_report h.locus fun _ => rfl).bind fun _ => .pure rfl
  | some t =>
    cases value with
    | none => exact .pure rfl
    | some v =>
      exact (mirrors_recording hρ h.id.ir (mirrors_reconcile hρ t v h.locus)).bind fun r =>
        .pure (Option.isSome_map ..)

theorem mirrors_checkIndex (i : IrId) (position : Option Ty) :
    Mirrors ρ ν id (checkIndex i position) (checkIndex (ρ.ir i) (translate? ρ ν position)) := by
  cases position with
  | none => exact .pure rfl
  | some t =>
    refine (mirrors_combine hρ (.int i .w32) t).bind fun r => ?_
    cases r with
    | ok _ => exact .pure rfl
    | error m => exact mirrors_defect fun h => congrArg Defect.indexType (mismatch_of_kept h m)

theorem mirrors_combined (l : Location) (lhs rhs : Option Ty) : Mirrors ρ ν (translate? ρ ν)
    (combined l lhs rhs) (combined l (translate? ρ ν lhs) (translate? ρ ν rhs)) := by
  cases lhs with
  | none => exact .pure rfl
  | some a =>
    cases rhs with
    | none => exact .pure rfl
    | some b => exact mirrors_reconcile hρ a b l

theorem mirrors_branches (expected : Ty) (thenType elseType : Option Ty)
    (thenLocus elseLocus : Location) : Mirrors ρ ν (translate? ρ ν)
      (branches expected thenType elseType thenLocus elseLocus)
      (branches (expected.translate ρ ν) (translate? ρ ν thenType) (translate? ρ ν elseType)
        thenLocus elseLocus) := by
  cases thenType with
  | none => exact .pure rfl
  | some a =>
    cases elseType with
    | none => exact .pure rfl
    | some b =>
      refine (mirrors_reconcile hρ expected a thenLocus).bind fun r => ?_
      cases r with
      | none => exact .pure rfl
      | some t => exact mirrors_reconcile hρ t b elseLocus

theorem mirrors_arrayOf (i : IrId) (first : Option Ty) (rest : List (Option Ty))
    (loci : List Location) : Mirrors ρ ν (translate? ρ ν) (arrayOf i first rest loci)
      (arrayOf (ρ.ir i) (translate? ρ ν first) (rest.map (translate? ρ ν)) loci) := by
  unfold arrayOf
  rw [mapM_id_translate, List.length_map]
  cases first with
  | none => exact .pure rfl
  | some t =>
    cases rest.mapM id with
    | none => exact .pure rfl
    | some types =>
      have hzip : (types.map (Ty.translate ρ ν)).zip loci =
          (types.zip loci).map fun t => (t.1.translate ρ ν, t.2) := List.zip_map_left
      dsimp only [Option.map_some]
      rw [hzip]
      refine (mirrors_settle hρ (types.zip loci) t).bind fun r => ?_
      cases r with
      | none => exact .pure rfl
      | some element => exact .pure rfl

theorem mirrors_letType (i : IrId) (annotated : Option Ty) (init : Option (Option Ty × Location)) :
    Mirrors ρ ν (Ty.translate ρ ν) (letType i annotated init)
      (letType (ρ.ir i) (translate? ρ ν annotated)
        (init.map fun v => (translate? ρ ν v.1, v.2))) := by
  cases annotated with
  | none =>
    rcases init with _ | ⟨_ | v, l⟩ <;> exact .pure rfl
  | some t =>
    rcases init with _ | ⟨_ | v, l⟩
    · exact .pure rfl
    · exact .pure rfl
    · refine (mirrors_reconcile hρ t v l).bind fun r => ?_
      cases r <;> exact .pure rfl

variable (hs : s.Renumbers ρ s')
include hs

theorem mirrors_settleDeclaration (target : Expr) (before after : Ty) :
    Mirrors ρ ν id (settleDeclaration s target before after)
      (settleDeclaration s' (target.translate ρ ν) (before.translate ρ ν)
        (after.translate ρ ν)) := by
  unfold settleDeclaration
  rw [Ty.isInfer_translate]
  split
  · obtain ⟨i, hi, hi'⟩ | ⟨p, p', hp, hp', _⟩ := declaration_translate (ν := ν) hs target
    · rw [hi, hi']
      exact mirrors_record hρ i after
    · rw [hp, hp']
      exact .pure rfl
  · exact .pure rfl

theorem mirrors_assigned (h : Head) (target : Expr) (targetType valueType : Option Ty) :
    Mirrors ρ ν (translate? ρ ν) (assigned s h target targetType valueType)
      (assigned s' (h.renumber ρ) (target.translate ρ ν) (translate? ρ ν targetType)
        (translate? ρ ν valueType)) := by
  cases targetType with
  | none => exact .pure rfl
  | some tt =>
    cases valueType with
    | none => exact .pure rfl
    | some vt =>
      unfold assigned
      rw [Expr.ir_translate]
      refine (mirrors_recording hρ target.ir (mirrors_reconcile hρ tt vt h.locus)).bind fun r => ?_
      cases r with
      | none => exact .pure rfl
      | some t => exact (mirrors_settleDeclaration hρ hs target tt t).bind fun _ => .pure rfl

/-! ## Annotations -/

omit hρ in
theorem pathTarget?_translate {t t' : TypeTable} (ht : t.Translates ρ ν t') (h : Head) :
    pathTarget? s' t' (h.renumber ρ) = (pathTarget? s t h).map ρ.ir := by
  unfold pathTarget?
  rw [Head.renumber_surface, hs.bindings.type?]
  cases s.bindings.type? h.id.surface with
  | none => rfl
  | some node =>
    have hnode := hs.registry.node? ⟨h.id.crate, node⟩
    simp only [Site.renumber] at hnode
    simp only [Option.map_some, Option.bind_eq_bind, Option.bind_some, ht.builtinId?,
      Head.renumber_crate, hnode]
    cases t.builtinId? node <;> rfl

theorem mirrors_typeExpr : ∀ a : TypeExpr,
    Mirrors ρ ν (Ty.translate ρ ν) (typeExpr s a) (typeExpr s' (a.renumber ρ))
  | .unit h => (mirrors_record hρ h.id.ir (.unit h.id.ir)).bind fun _ => .pure rfl
  | .array h element capacity =>
    (mirrors_typeExpr element).bind fun t =>
      (mirrors_record hρ h.id.ir (.array h.id.ir t capacity.toNat)).bind fun _ => .pure rfl
  | .path h name => by
    refine .get fun p p' hp => ?_
    have htype : pathType? s' p'.types (h.renumber ρ) =
        translate? ρ ν (pathType? s p.types h) := by
      unfold pathType?
      rw [pathTarget?_translate hs hp.types]
      cases pathTarget? s p.types h with
      | none => rfl
      | some i => exact hp.types.get? i
    rw [htype]
    cases pathType? s p.types h with
    | none =>
      exact (mirrors_report h.locus fun _ => rfl).bind fun _ =>
        (mirrors_record hρ h.id.ir (.error h.id.ir)).bind fun _ => .pure rfl
    | some t => exact (mirrors_record hρ h.id.ir t).bind fun _ => .pure rfl

theorem mirrors_typeExpr? (a : Option TypeExpr) : Mirrors ρ ν (translate? ρ ν) (typeExpr? s a)
    (typeExpr? s' (a.map (TypeExpr.renumber ρ))) := by
  cases a with
  | none => exact .pure rfl
  | some a => exact (mirrors_typeExpr hρ hs a).bind fun _ => .pure rfl

end

/-! ## Expressions -/

mutual

theorem mirrors_expr (hρ : ρ.Injective) (hs : s.Renumbers ρ s') : ∀ (e : Expr) (final : Bool),
    Mirrors ρ ν (translate? ρ ν) (expr s e final) (expr s' (e.translate ρ ν) final)
  | .literal h lit, _ => by
    rw [Expr.translate, expr, expr]
    exact mirrors_recording hρ h.id.ir ((mirrors_literal lit).bind fun _ => .pure rfl)
  | .identifier h name, _ => by
    rw [Expr.translate, expr, expr]
    exact mirrors_recording hρ h.id.ir (mirrors_identifier hs (.identifier h name) false)
  | .ret h none, _ => by
    rw [Expr.translate, expr, expr]
    refine mirrors_recording hρ h.id.ir (mirrors_return?.bind fun r => ?_)
    cases r with
    | none => exact mirrors_defect fun _ => rfl
    | some result => exact mirrors_reconcile hρ result (.unit h.id.ir) h.locus
  | .ret h (some value), _ => by
    rw [Expr.translate, expr, expr]
    refine mirrors_recording hρ h.id.ir (mirrors_return?.bind fun r => ?_)
    cases r with
    | none => exact mirrors_defect fun _ => rfl
    | some result =>
      refine (mirrors_expr hρ hs value false).bind fun v => ?_
      cases v with
      | none => exact .pure rfl
      | some t => exact mirrors_reconcile hρ result t h.locus
  | .call h callee args, _ => by
    rw [Expr.translate, expr, expr]
    refine mirrors_recording hρ h.id.ir
      ((mirrors_calleeType hs (.call h callee args) callee).bind fun r => ?_)
    cases r with
    | none => exact .pure rfl
    | some t =>
      cases t with
      | error r => exact (mirrors_exprs hρ hs args).discard.bind fun _ => .pure rfl
      | fn r params result =>
        dsimp only [Option.map_some, Ty.translate]
        rw [Members.length_translate, Expr.length_translateAll]
        split
        · exact mirrors_reject h.locus fun _ => rfl
        · refine (mirrors_arguments hρ hs ν params args).bind fun ok => .pure ?_
          cases ok <;> rfl
      | _ => exact mirrors_reject h.locus fun h => congrArg Problem.notAFunction (ty_of_kept h _)
  | .assign h target value, _ => by
    by_cases hn : ∀ g name, target ≠ .identifier g name
    · rw [Expr.translate, expr_assign hn, expr_assign (Expr.translate_ne_identifier hn)]
      exact mirrors_recording hρ h.id.ir ((mirrors_expr hρ hs target false).bind fun tt =>
        (mirrors_expr hρ hs value false).bind fun vt => mirrors_assigned hρ hs h target tt vt)
    · obtain ⟨g, name, rfl⟩ : ∃ g name, target = .identifier g name := by simpa using hn
      rw [Expr.translate, Expr.translate, expr, expr]
      exact mirrors_recording hρ h.id.ir
        ((mirrors_recording hρ g.id.ir (mirrors_identifier hs (.identifier g name) true)).bind
          fun tt => (mirrors_expr hρ hs value false).bind fun vt =>
            mirrors_assigned hρ hs h (.identifier g name) tt vt)
  | .binary h op lhs rhs, _ => by
    rw [Expr.translate, expr, expr]
    exact mirrors_recording hρ h.id.ir ((mirrors_expr hρ hs lhs false).bind fun l =>
      (mirrors_expr hρ hs rhs false).bind fun r => mirrors_combined hρ h.locus l r)
  | .ifOnly h condition body, _ => by
    rw [Expr.translate, expr, expr]
    exact mirrors_recording hρ h.id.ir ((mirrors_expr hρ hs condition false).discard.bind fun _ =>
      (mirrors_expr hρ hs body false).discard.bind fun _ => .pure rfl)
  | .ifElse h condition thenBody elseBody, false => by
    rw [Expr.translate, expr, expr]
    exact mirrors_recording hρ h.id.ir ((mirrors_expr hρ hs condition false).discard.bind fun _ =>
      (mirrors_expr hρ hs thenBody false).discard.bind fun _ =>
      (mirrors_expr hρ hs elseBody false).discard.bind fun _ => .pure rfl)
  | .ifElse h condition thenBody elseBody, true => by
    rw [Expr.translate, expr, expr]
    refine mirrors_recording hρ h.id.ir (mirrors_return?.bind fun r => ?_)
    cases r with
    | none => exact mirrors_defect fun _ => rfl
    | some expected =>
      dsimp only [Option.map_some]
      rw [Expr.locus_translate, Expr.locus_translate]
      exact (mirrors_expr hρ hs condition false).discard.bind fun _ =>
        (mirrors_expr hρ hs thenBody true).bind fun tt =>
        (mirrors_expr hρ hs elseBody true).bind fun et =>
        mirrors_branches hρ expected tt et thenBody.locus elseBody.locus
  | .ifElseIf h condition thenBody elseIf, _ => by
    rw [Expr.translate, expr, expr]
    exact mirrors_recording hρ h.id.ir ((mirrors_expr hρ hs condition false).discard.bind fun _ =>
      (mirrors_expr hρ hs thenBody false).discard.bind fun _ =>
      (mirrors_expr hρ hs elseIf false).discard.bind fun _ => .pure rfl)
  | .block h body none, _ => by
    rw [Expr.translate, expr, expr]
    exact mirrors_recording hρ h.id.ir ((mirrors_stmts hρ hs body).bind fun _ => .pure rfl)
  | .block h body (some tail), final => by
    rw [Expr.translate, expr, expr]
    exact mirrors_recording hρ h.id.ir ((mirrors_stmts hρ hs body).bind fun _ =>
      mirrors_expr hρ hs tail final)
  | .index h base position, _ => by
    rw [Expr.translate, expr, expr, Expr.ir_translate, Expr.locus_translate]
    exact mirrors_recording hρ h.id.ir ((mirrors_expr hρ hs position false).bind fun pt =>
      (mirrors_checkIndex hρ position.ir pt).bind fun _ =>
      (mirrors_expr hρ hs base false).bind fun bt => mirrors_elementOf bt pt base.locus)
  | .array h [], _ => by
    rw [Expr.translate, Expr.translateAll, expr, expr]
    exact mirrors_recording hρ h.id.ir (mirrors_reject h.locus fun _ => rfl)
  | .array h (first :: rest), _ => by
    rw [Expr.translate, Expr.translateAll, expr, expr, Expr.map_locus_translateAll]
    exact mirrors_recording hρ h.id.ir ((mirrors_expr hρ hs first false).bind fun ft =>
      (mirrors_exprs hρ hs rest).bind fun types =>
      mirrors_arrayOf hρ h.id.ir ft types (rest.map Expr.locus))
  | .copies h element count, _ => by
    rw [Expr.translate, expr, expr]
    refine mirrors_recording hρ h.id.ir ((mirrors_expr hρ hs element false).bind fun r => ?_)
    cases r <;> exact .pure rfl
  | .struct h path fields, _ => by
    rw [Expr.translate, expr, expr]
    refine mirrors_recording hρ h.id.ir
      ((mirrors_structType hs (.struct h path fields) path).bind fun r => ?_)
    cases r with
    | none => exact .pure rfl
    | some t =>
      cases t with
      | struct r name decls =>
        dsimp only [Option.map_some, Ty.translate]
        rw [FieldInit.map_name_translateAll]
        refine (mirrors_fieldInits hρ hs name decls fields).bind fun ok =>
          (mirrors_missingFields h.locus name (fields.map FieldInit.name) decls).bind fun full =>
          .pure ?_
        cases ok <;> cases full <;> rfl
      | _ => exact mirrors_reject h.locus fun h => congrArg Problem.notAStruct (ty_of_kept h _)

theorem mirrors_exprs (hρ : ρ.Injective) (hs : s.Renumbers ρ s') : ∀ es : List Expr,
    Mirrors ρ ν (List.map (translate? ρ ν)) (exprs s es) (exprs s' (Expr.translateAll ρ ν es))
  | [] => .pure rfl
  | e :: rest => by
    rw [Expr.translateAll, exprs, exprs]
    exact (mirrors_expr hρ hs e false).bind fun _ =>
      (mirrors_exprs hρ hs rest).bind fun _ => .pure rfl

theorem mirrors_arguments (hρ : ρ.Injective) (hs : s.Renumbers ρ s') (f : String → String) :
    ∀ (params : Members) (es : List Expr), Mirrors ρ ν id (arguments s params es)
      (arguments s' (params.translate ρ ν f) (Expr.translateAll ρ ν es))
  | .nil, _ => by
    rw [Members.translate, arguments, arguments]
    · exact .pure rfl
    · simp
    · simp
  | .cons _ _ _, [] => .pure rfl
  | .cons _ param params, e :: rest => by
    rw [Members.translate, Expr.translateAll, arguments, arguments, Expr.locus_translate]
    exact (mirrors_expr hρ hs e false).bind fun t =>
      (mirrors_fits hρ param t e.locus).bind fun ok =>
      (mirrors_arguments hρ hs f params rest).bind fun others => .pure rfl

theorem mirrors_fieldInits (hρ : ρ.Injective) (hs : s.Renumbers ρ s') (struct : String)
    (decls : Members) : ∀ fs : List FieldInit, Mirrors ρ ν id (fieldInits s struct decls fs)
      (fieldInits s' struct (decls.translate ρ ν id) (FieldInit.translateAll ρ ν fs))
  | [] => .pure rfl
  | .mk h name value :: rest => by
    rw [FieldInit.translateAll, fieldInits, fieldInits, Members.find?_translate]
    exact (mirrors_expr hρ hs value false).bind fun t =>
      (mirrors_fieldInit hρ h (decls.find? name) struct name t).bind fun ok =>
      (mirrors_fieldInits hρ hs struct decls rest).bind fun others => .pure rfl

theorem mirrors_stmt (hρ : ρ.Injective) (hs : s.Renumbers ρ s') : ∀ st : Stmt,
    Mirrors ρ ν id (stmt s st) (stmt s' (st.translate ρ ν))
  | .expr e => by
    rw [Stmt.translate, stmt, stmt]
    exact (mirrors_expr hρ hs e false).discard
  | .bind h pattern annotated none => by
    rw [Stmt.translate, stmt, stmt]
    exact (mirrors_typeExpr? hρ hs annotated).bind fun a =>
      (mirrors_letType hρ h.id.ir a none).bind fun t =>
      (mirrors_record hρ pattern.id.ir t).bind fun _ => mirrors_record hρ h.id.ir t
  | .bind h pattern annotated (some init) => by
    rw [Stmt.translate, stmt, stmt, Expr.locus_translate]
    exact (mirrors_typeExpr? hρ hs annotated).bind fun a =>
      (mirrors_expr hρ hs init false).bind fun v =>
      (mirrors_letType hρ h.id.ir a (some (v, init.locus))).bind fun t =>
      (mirrors_record hρ pattern.id.ir t).bind fun _ => mirrors_record hρ h.id.ir t

theorem mirrors_stmts (hρ : ρ.Injective) (hs : s.Renumbers ρ s') : ∀ sts : List Stmt,
    Mirrors ρ ν id (stmts s sts) (stmts s' (Stmt.translateAll ρ ν sts))
  | [] => .pure rfl
  | st :: rest => by
    rw [Stmt.translateAll, stmts, stmts]
    exact (mirrors_stmt hρ hs st).bind fun _ => mirrors_stmts hρ hs rest

end

/-! ## Programs -/

section

variable (hρ : ρ.Injective) (hs : s.Renumbers ρ s')
include hρ hs

theorem mirrors_params : ∀ ps : List Param,
    Mirrors ρ ν (Members.translate ρ ν ν) (params s ps) (params s' (ps.map (Param.translate ρ ν)))
  | [] => .pure rfl
  | p :: rest => by
    rw [List.map_cons, params, params]
    exact (mirrors_typeExpr hρ hs p.type).bind fun t =>
      (mirrors_record hρ p.head.id.ir t).bind fun _ =>
      (mirrors_record hρ p.pattern.id.ir t).bind fun _ => (mirrors_params rest).bind fun _ =>
      .pure rfl

theorem mirrors_fieldDecls : ∀ fs : List FieldDecl, Mirrors ρ ν (Members.translate ρ ν id)
    (fieldDecls s fs) (fieldDecls s' (fs.map (FieldDecl.renumber ρ)))
  | [] => .pure rfl
  | f :: rest => by
    rw [List.map_cons, fieldDecls, fieldDecls]
    exact (mirrors_typeExpr hρ hs f.type).bind fun t =>
      (mirrors_record hρ f.head.id.ir (.field f.head.id.ir f.name t)).bind fun _ =>
      (mirrors_fieldDecls rest).bind fun _ => .pure rfl

theorem mirrors_functionType (i : IrId) (d : FunctionDecl) : Mirrors ρ ν (Ty.translate ρ ν)
    (functionType s i d) (functionType s' (ρ.ir i) (d.translate ρ ν)) := by
  refine (mirrors_params hρ hs d.params).bind fun ps => ?_
  simp only [FunctionDecl.translate]
  cases d.returns with
  | none => exact .pure rfl
  | some t => exact (mirrors_typeExpr hρ hs t).bind fun result => .pure rfl

theorem mirrors_signature (i : Item) :
    Mirrors ρ ν id (signature s i) (signature s' (i.translate ρ ν)) := by
  refine MiddleEnd.Mirrors.bind (φ := Ty.translate ρ ν) ?_ fun t => mirrors_record hρ i.head.id.ir t
  obtain ⟨h, k⟩ := i
  cases k with
  | function d => exact mirrors_functionType hρ hs h.id.ir d
  | struct d => exact (mirrors_fieldDecls hρ hs d.fields).bind fun _ => .pure rfl
  | constant d => exact mirrors_typeExpr hρ hs d.type
  | static d => exact mirrors_typeExpr hρ hs d.type

theorem mirrors_functionBody (i : IrId) (d : FunctionDecl) :
    Mirrors ρ ν id (functionBody s i d) (functionBody s' (ρ.ir i) (d.translate ρ ν)) := by
  refine (mirrors_typeOf? i).bind fun r => ?_
  cases r with
  | none => exact mirrors_defect fun h => by rw [h]; rfl
  | some t =>
    cases t with
    | fn r ps result =>
      refine (mirrors_note _ _).bind fun _ =>
        (mirrors_inFunction result (mirrors_expr hρ hs d.body true)).bind fun bodyType => ?_
      simp only [FunctionDecl.translate, Expr.tail?_translate]
      cases d.body.tail? with
      | none => exact .pure rfl
      | some tail =>
        cases bodyType with
        | none => exact .pure rfl
        | some t =>
          dsimp only [Option.map_some]
          rw [Expr.locus_translate]
          exact (mirrors_reconcile hρ result t tail.locus).discard
    | _ => exact mirrors_defect fun h => by rw [h]; rfl

theorem mirrors_initialValue (i : Item) (value : Expr) :
    Mirrors ρ ν id (initialValue s i value)
      (initialValue s' (i.translate ρ ν) (value.translate ρ ν)) := by
  refine (mirrors_typeOf? i.head.id.ir).bind fun r => ?_
  rw [Expr.locus_translate]
  cases r with
  | none => exact mirrors_defect fun h => by rw [h, Item.name_translate_id]; rfl
  | some declared =>
    refine (mirrors_expr hρ hs value false).bind fun v => ?_
    cases v with
    | none => exact .pure rfl
    | some t => exact (mirrors_reconcile hρ declared t value.locus).discard

theorem mirrors_body (i : Item) : Mirrors ρ ν id (body s i) (body s' (i.translate ρ ν)) := by
  obtain ⟨h, k⟩ := i
  cases k with
  | function d => exact mirrors_functionBody hρ hs h.id.ir d
  | struct d => exact .pure rfl
  | constant d => exact mirrors_initialValue hρ hs ⟨h, .constant d⟩ d.value
  | static d => exact mirrors_initialValue hρ hs ⟨h, .static d⟩ d.value

omit hρ hs in
theorem signatureOrder_translate (items : List Item) :
    signatureOrder (items.map (Item.translate ρ ν)) =
      (signatureOrder items).map (Item.translate ρ ν) := by
  simp only [signatureOrder, List.map_append, List.filter_map, Function.comp_def,
    Item.isStruct_translate]

/-- Checking the translated program comes to the translated outcome. -/
theorem mirrors_program (p : Program) :
    Mirrors ρ ν id (program s p) (program s' (p.translate ρ ν)) := by
  unfold program Program.translate
  rw [signatureOrder_translate]
  exact (mirrors_note _ _).bind fun _ => (MiddleEnd.Mirrors.forM fun i _ =>
    mirrors_signature hρ hs i).bind fun _ => .forM fun i _ => mirrors_body hρ hs i

end

end Check

/-! ## Renumbering alone -/

theorem Diagnostic.translates_id {d d' : Diagnostic} :
    d.Translates ρ id d' ↔ d.renumber ρ = d' := by
  constructor
  · intro h
    obtain ⟨severity, problem, location⟩ := d'
    obtain rfl : severity = d.severity := h.severity
    obtain rfl : location = d.location := h.location
    obtain rfl : problem = d.problem.renumber ρ := h.problem rfl
    rfl
  · rintro rfl
    exact ⟨rfl, rfl, fun _ => rfl⟩

theorem TypeTable.translates_id {t t' : TypeTable} :
    t.Translates ρ id t' ↔ t.Renumbers ρ t' := by
  have hty : Ty.translate ρ id = Ty.renumber ρ := funext (Ty.translate_id ρ)
  constructor <;> rintro ⟨hbuiltins, hids, hget, hreturns⟩ <;> refine ⟨?_, hids, ?_, ?_⟩ <;>
    simp only [hty] at * <;> assumption

theorem Progress.translates_id {p p' : Progress} :
    p.Translates ρ id p' ↔ p.Renumbers ρ p' := by
  have hreports : List.Forall₂ (Diagnostic.Translates ρ id) p.diagnostics p'.diagnostics ↔
      p'.diagnostics = p.diagnostics.map (Diagnostic.renumber ρ) := by
    rw [eq_comm, ← List.forall₂_eq_eq_eq, List.forall₂_map_left_iff]
    exact ⟨.imp fun _ _ => Diagnostic.translates_id.1, .imp fun _ _ => Diagnostic.translates_id.2⟩
  exact ⟨fun h => ⟨TypeTable.translates_id.1 h.types, hreports.1 h.diagnostics⟩,
    fun h => ⟨TypeTable.translates_id.2 h.types, hreports.2 h.diagnostics⟩⟩

/-- Checking the renumbered program comes to the renumbered outcome. -/
theorem Check.mirrors_renumbered (hρ : ρ.Injective) (hs : s.Renumbers ρ s') (p : Program) :
    MiddleEnd.Mirrors (Progress.Renumbers ρ) (fun e e' => e' = e.renumber ρ) id (program s p)
      (program s' (p.renumber ρ)) := by
  intro q q' hq
  obtain ⟨hresult, hstate⟩ :=
    mirrors_program (ν := id) hρ hs p (Progress.translates_id.2 hq)
  rw [p.translate_id] at hresult hstate
  exact ⟨hresult.mono fun _ _ h => h.exact rfl, Progress.translates_id.1 hstate⟩

end MiddleEnd
