/-
  Operands and the order of their effects. The operands of an expression are lowered from left to
  right, but only what becomes statements is also evaluated in that order: the texts of all
  operands are evaluated after the statements of all operands. So an effect of an operand comes too
  early for an operand in front of it whose text calls a function, or reads what is assigned
  (`Disturbs`). Which expressions suffer from that can be seen from their operands (`reorders`,
  `Session.operands_in_order`).

  A struct literal whose fields stand in another order than they are declared in moves their values
  to variables first, but not those of names.
-/
import MiddleEnd.Proofs.Lower.Constants
import MiddleEnd.Proofs.Lower.Laziness
import MiddleEnd.Proofs.Lower.Targets

namespace MiddleEnd

/-- The operands of a C expression. -/
def C.Expr.operands : C.Expr → List C.Expr
  | .binary _ lhs rhs => [lhs, rhs]
  | .call _ _ args => args
  | .index base position => [base, position]
  | .array _ values => values
  | .struct _ values => values
  | _ => []

namespace Lower

/-! ## Operands -/

/-- An operand of an expression. -/
structure Operand where
  expr : Expr
  /-- Its value is moved to a variable of its own at once. -/
  moved : Bool
  /-- Its value is part of the value of the expression. -/
  used : Bool

/-- An operand that stays where it is. -/
def Operand.plain (e : Expr) : Operand := ⟨e, false, true⟩

/-- The fields of a struct literal, for a struct with fields of these names. -/
def fieldOperands (k : Checked) (inOrder : Bool) (names : List String) :
    List FieldInit → List Operand
  | [] => []
  | .mk _ name value :: rest =>
    ⟨value, !staysInPlace k inOrder value, isTaken names name (rest.map FieldInit.name)⟩ ::
      fieldOperands k inOrder names rest

/-- The operands of an expression that evaluates all of them, in the order of the source. -/
def operands (k : Checked) : Expr → Option (List Operand)
  | .binary _ _ lhs rhs => some [.plain lhs, .plain rhs]
  | .call _ _ args => some (args.map .plain)
  | .index _ base position => some [.plain base, .plain position]
  | .array _ values => some (values.map .plain)
  | .struct h _ fields =>
    let names := match (k.types.get? h.id.ir).bind Ty.struct? with
      | some (_, decls) => decls.toList.map (·.1)
      | none => []
    some (fieldOperands k (fields.map FieldInit.name == names) names fields)
  | _ => none

namespace Operand

/-- The calls and names left in the text of the operand. -/
def remains (k : Checked) (o : Operand) : List Expr :=
  if o.moved then [] else Lower.remains k o.expr

/-- Whether the operand adds no statements. -/
def silent (k : Checked) (o : Operand) : Bool := !o.moved && Lower.silent k o.expr

/-- The names that the operand assigns. -/
def targets (o : Operand) : List Expr := Part.targets o.expr.parts

end Operand

/-- Whether two names stand for the same declaration, which is none of these constants. -/
def sameVariable (k : Checked) (constants : List IrId) (e t : Expr) : Bool :=
  match Check.declaration k.scope e, Check.declaration k.scope t with
  | .ok i, .ok j => i == j && !constants.contains i
  | _, _ => false

/-- Whether lowering evaluates something of an operand after effects of a later one: the later one
adds statements, and the first one leaves a call, or a variable that the later one assigns. -/
def reorders (k : Checked) (constants : List IrId) (o p : Operand) : Bool :=
  o.used && (!p.silent k && ((o.remains k).any Expr.isCall ||
    (o.remains k).any fun e => e.isName && p.targets.any (sameVariable k constants e)))

/-- A text is evaluated after statements that do something before it could: it makes a call, or
reads a variable that they assign. -/
def Disturbs (B : C.BlockId → List C.Stmt) (text : C.Expr) (later : List C.Stmt) : Prop :=
  later ≠ [] ∧ (text.Calls ∨ ∃ x, text.Reads x ∧ C.Assigns B x later)

/-! ## Lowering operands -/

/-- An operand with its statements and its text. -/
structure Row where
  operand : Operand
  stmts : List C.Stmt
  text : C.Expr

variable {k : Checked} {g : Setting} {B : C.BlockId → List C.Stmt}

inductive EmitsOperand (k : Checked) (g : Setting) (B : C.BlockId → List C.Stmt) :
    Slots → Row → Slots → Prop
  | stays {m m' : Slots} {o : Operand} {v : C.Expr} {a : List C.Stmt} :
    o.moved = false →
    Emits k g B m (.expr o.expr v) a m' →
    EmitsOperand k g B m ⟨o, a, v⟩ m'
  | moved {m m' : Slots} {o : Operand} {v : C.Expr} {a : List C.Stmt} (declared : C.Ty)
      (name spelled used : String) :
    o.moved = true →
    Emits k g B m (.expr o.expr v) a m' →
    EmitsOperand k g B m ⟨o, a ++ [.declare m'.var declared name none,
      .assign (.var m'.var spelled) v], .var m'.var used⟩ m'.fresh

inductive EmitsOperands (k : Checked) (g : Setting) (B : C.BlockId → List C.Stmt) :
    Slots → List Row → Slots → Prop
  | nil {m : Slots} : EmitsOperands k g B m [] m
  | cons {m m₁ m' : Slots} {r : Row} {rest : List Row} :
    EmitsOperand k g B m r m₁ →
    EmitsOperands k g B m₁ rest m' →
    EmitsOperands k g B m (r :: rest) m'

/-- The texts of the operands whose values are used. -/
def usedTexts (rows : List Row) : List C.Expr :=
  (rows.filter (·.operand.used)).map Row.text

theorem Emits.operand {m m' : Slots} {e : Expr} {v : C.Expr} {a : List C.Stmt}
    (h : Emits k g B m (.expr e v) a m') : EmitsOperand k g B m ⟨.plain e, a, v⟩ m' :=
  .stays rfl h

theorem rows_of_exprs {es : List Expr} : ∀ {m m' : Slots} {vs : List C.Expr} {a : List C.Stmt},
    Emits k g B m (.exprs es vs) a m' → ∃ rows, EmitsOperands k g B m rows m' ∧
      rows.map Row.operand = es.map .plain ∧ rows.flatMap Row.stmts = a ∧ usedTexts rows = vs := by
  induction es with
  | nil =>
    intro m m' vs a h
    cases h
    exact ⟨[], .nil, rfl, rfl, rfl⟩
  | cons e rest ih =>
    intro m m' vs a h
    cases h with
    | exprsCons _ _ he hes =>
      obtain ⟨rows, hrows, ho, ha, ht⟩ := ih hes
      exact ⟨_ :: rows, .cons he.operand hrows, congrArg (_ :: ·) ho, congrArg (_ ++ ·) ha,
        congrArg (_ :: ·) ht⟩

theorem rows_of_fields (names : List String) {inOrder : Bool} {fs : List FieldInit} :
    ∀ {m m' : Slots} {vs : List (String × C.Expr)} {a : List C.Stmt},
    Emits k g B m (.fields inOrder fs vs) a m' → ∃ rows, EmitsOperands k g B m rows m' ∧
      rows.map Row.operand = fieldOperands k inOrder names fs ∧ rows.flatMap Row.stmts = a ∧
      usedTexts rows = taken names vs ∧ vs.map (·.1) = fs.map FieldInit.name := by
  induction fs with
  | nil =>
    intro m m' vs a h
    cases h
    exact ⟨[], .nil, rfl, rfl, rfl, rfl⟩
  | cons f rest ih =>
    have huse : ∀ (name : String) (v : C.Expr) (o : Operand) (x : List C.Stmt) (rows : List Row)
        (vs : List (String × C.Expr)), o.used = isTaken names name (rest.map FieldInit.name) →
        usedTexts rows = taken names vs → vs.map (·.1) = rest.map FieldInit.name →
        usedTexts (⟨o, x, v⟩ :: rows) = taken names ((name, v) :: vs) := by
      intro name v o x rows vs ho ht hn
      rw [taken, hn, ← ho, ← ht]
      unfold usedTexts
      rw [List.filter_cons]
      cases o.used <;> rfl
    intro m m' vs a h
    cases h with
    | @fieldsCons _ m₁ _ v vs x y _ h name value _ hs he hes =>
      obtain ⟨rows, hrows, ho, ha, ht, hn⟩ := ih hes
      have hstays : staysInPlace k inOrder value = true := by
        unfold staysInPlace
        rw [hs, Bool.true_or]
      refine ⟨⟨⟨value, !staysInPlace k inOrder value, isTaken names name (rest.map FieldInit.name)⟩,
        x, v⟩ :: rows, .cons (.stays ?_ he) hrows, congrArg (_ :: ·) ho, congrArg (_ ++ ·) ha,
        huse name v _ _ rows vs rfl ht hn, congrArg (_ :: ·) hn⟩
      show (!staysInPlace k inOrder value) = false
      rw [hstays]
      rfl
    | @fieldsKeep _ m₁ m₂ _ t v w target vs x d s y _ h name value _ hs he hty htemp hk hes =>
      obtain ⟨rows, hrows, ho, ha, ht, hn⟩ := ih hes
      have hstays : staysInPlace k inOrder value = t.isUnit := by
        unfold staysInPlace
        rw [hs, Bool.false_or, hty, Option.any_some]
      cases htemp with
      | none hu =>
        cases hk
        refine ⟨⟨⟨value, !staysInPlace k inOrder value,
          isTaken names name (rest.map FieldInit.name)⟩, x, v⟩ :: rows, .cons (.stays ?_ he) hrows,
          congrArg (_ :: ·) ho, congrArg (_ ++ ·) ha, huse name v _ _ rows vs rfl ht hn,
          congrArg (_ :: ·) hn⟩
        show (!staysInPlace k inOrder value) = false
        rw [hstays, hu]
        rfl
      | some spelled declared hu _ =>
        cases hk with
        | moved _ used stored _ =>
          refine ⟨⟨⟨value, !staysInPlace k inOrder value,
            isTaken names name (rest.map FieldInit.name)⟩, _, .var m₁.var used⟩ :: rows,
            .cons (.moved declared spelled stored used ?_ he) hrows, congrArg (_ :: ·) ho, ?_,
            huse name _ _ _ rows vs rfl ht hn, congrArg (_ :: ·) hn⟩
          · show (!staysInPlace k inOrder value) = true
            rw [hstays, hu]
            rfl
          · rw [List.flatMap_cons, ha, List.append_assoc]
            rfl

/-- Lowering an expression lowers its operands one after the other. -/
theorem Emits.operands {m m' : Slots} {e : Expr} {v : C.Expr} {a : List C.Stmt}
    (h : Emits k g B m (.expr e v) a m') {os : List Operand} (ho : Lower.operands k e = some os) :
    ∃ rows, EmitsOperands k g B m rows m' ∧ rows.map Row.operand = os ∧
      rows.flatMap Row.stmts = a ∧ v.operands.Perm (usedTexts rows) := by
  cases h with
  | binary _ _ _ _ hl hr =>
    cases ho
    exact ⟨_, .cons hl.operand (.cons hr.operand .nil), rfl,
      congrArg (_ ++ ·) (List.append_nil _), .refl _⟩
  | index _ _ _ hb hp =>
    cases ho
    exact ⟨_, .cons hb.operand (.cons hp.operand .nil), rfl,
      congrArg (_ ++ ·) (List.append_nil _), .refl _⟩
  | call _ _ _ _ he =>
    cases ho
    obtain ⟨rows, hrows, hos, ha, ht⟩ := rows_of_exprs he
    exact ⟨rows, hrows, hos, ha, .of_eq ht.symm⟩
  | array _ _ _ _ he =>
    cases ho
    obtain ⟨rows, hrows, hos, ha, ht⟩ := rows_of_exprs he
    exact ⟨rows, hrows, hos, ha, .of_eq ht.symm⟩
  | @struct _ _ _ r name decls given vs _ h path fields hty _ hf hvs =>
    cases ho
    rw [hty]
    obtain ⟨rows, hrows, hos, ha, ht, _⟩ := rows_of_fields (decls.toList.map (·.1)) hf
    refine ⟨rows, hrows, hos, ha, ?_⟩
    rw [ht]
    exact taken_perm hvs
  | _ => cases ho

/-! ## One operand and a later one -/

/-- What the text of an operand leaves and its statements assign. -/
theorem EmitsOperand.facts
    (hconst : ∀ id e, g.constants id = some e → ∃ name, e = C.Expr.constant name)
    {m m' : Slots} {r : Row} (h : EmitsOperand k g B m r m')
    (hr : m.Ready (Part.declaredAll r.operand.expr.parts)) :
    Retains k g (r.operand.remains k) m' [r.text] ∧
      Alters k g B none r.operand.targets m m' r.stmts ∧
      (r.stmts = [] ↔ r.operand.silent k = true) := by
  cases h with
  | @stays _ o v a hmoved he =>
    have hretains := he.retains hconst hr
    have hsilent := he.silent
    unfold Operand.remains Operand.silent
    dsimp only
    rw [hmoved]
    exact ⟨hretains, he.alters hconst hr, hsilent⟩
  | @moved m₁ o v a declared name spelled used hmoved he =>
    unfold Operand.remains Operand.silent
    dsimp only
    rw [hmoved]
    refine ⟨.temporary (he.grows.proper hr.proper) used, ?_, append_loud (List.cons_ne_nil _ _)⟩
    have hdeclare : Alters k g B none [] m₁ m₁.fresh [.declare m₁.var declared name none] :=
      .quiet _ _ nofun rfl
    have hstore : Alters k g B none [] m₁ m₁.fresh [.assign (.var m₁.var spelled) v] :=
      .store _ _ (.inl (Nat.le_refl _)) spelled v
    have hall := (he.alters hconst hr).append (hdeclare.front hstore) he.grows.next
      (.of_grows (.step m₁))
    rw [List.append_nil] at hall
    exact hall

theorem EmitsOperand.grows {m m' : Slots} {r : Row} (h : EmitsOperand k g B m r m') :
    Grows (Part.declaredAll r.operand.expr.parts) m m' := by
  cases h with
  | stays _ he => exact he.grows
  | moved _ _ _ _ _ he => exact he.grows.and_nothing (.step _)

theorem isName_of_place? : ∀ {e t : Expr}, e.place? = some t → t.isName = true
  | .identifier .., _, h => by cases h; rfl
  | .assign _ target _, _, h => isName_of_place? (e := target) h
  | .index _ base _, _, h => isName_of_place? (e := base) h
  | .literal .., _, h | .ret .., _, h | .call .., _, h | .binary .., _, h | .ifOnly .., _, h
  | .ifElse .., _, h | .ifElseIf .., _, h | .block .., _, h | .array .., _, h | .copies .., _, h
  | .struct .., _, h => by cases h

theorem isName_of_targets {ps : List Part} {t : Expr} (h : t ∈ Part.targets ps) :
    t.isName = true := by
  obtain ⟨p, _, hp⟩ := List.mem_filterMap.1 h
  unfold Part.target? at hp
  split at hp
  · exact isName_of_place? hp
  · cases hp

theorem sameVariable_iff {constants : List IrId} {e t : Expr} :
    sameVariable k constants e t = true ↔ ∃ id, Check.declaration k.scope e = .ok id ∧
      Check.declaration k.scope t = .ok id ∧ id ∉ constants := by
  unfold sameVariable
  constructor
  · intro h
    split at h
    · rename_i i j hi hj
      rw [Bool.and_eq_true, beq_iff_eq, Bool.not_eq_true', ← Bool.not_eq_true,
        List.contains_iff_mem] at h
      obtain ⟨rfl, hno⟩ := h
      exact ⟨i, hi, hj, hno⟩
    · cases h
  · rintro ⟨id, he, ht, hno⟩
    rw [he, ht]
    rw [Bool.and_eq_true, beq_iff_eq, Bool.not_eq_true', ← Bool.not_eq_true,
      List.contains_iff_mem]
    exact ⟨rfl, hno⟩

section

variable {constants : List IrId} {m m' last : Slots}

/-- What is known of constants: they are entered as such and have no variables. -/
structure Separate (g : Setting) (constants : List IrId) (last : Slots) : Prop where
  entered : ∀ id, g.constants id ≠ none → id ∈ constants
  keys : ∀ id v, last.vars id = some v → id ∉ constants

/-- A text is disturbed exactly by statements that assign a variable it reads, and if it makes a
call, by any. -/
theorem disturbs_iff {es ts : List Expr} {text : C.Expr} {b : List C.Stmt}
    (hc : Separate g constants last) (hlast : m'.Stays last) (hl : Retains k g es m [text])
    (ha : Alters k g B none ts m m' b) (hs : m.Stays m') (ho : m.Older m') (hp : m'.Proper)
    (hts : ∀ t ∈ ts, t.isName = true) : Disturbs B text b ↔ b ≠ [] ∧
      ((es.any Expr.isCall || es.any fun e => e.isName && ts.any (sameVariable k constants e)) =
        true) := by
  refine and_congr_right fun _ => ?_
  rw [Bool.or_eq_true, List.any_eq_true, List.any_eq_true]
  refine or_congr ?_ ?_
  · have hcalls := hl.calls
    simp only [List.mem_singleton, exists_eq_left] at hcalls
    exact hcalls
  constructor
  · rintro ⟨x, hx, hassigns⟩
    have hold := hl.older text (List.mem_singleton_self _) x hx
    rcases ha.only x hassigns with hnew | hnone | ⟨t, ht, j, htj, hj⟩
    · exact absurd hold (Nat.not_lt_of_le hnew)
    · cases hnone
    · rcases hl.reads text (List.mem_singleton_self _) x hx with ⟨e, he, i, hei, hi⟩ | hno
      · have hij : i = j := hp.distinct i j x (hs i x hi) hj
        subst hij
        refine ⟨e, he, ?_⟩
        rw [hei.1, Bool.true_and, List.any_eq_true]
        exact ⟨t, ht, sameVariable_iff.2 ⟨i, hei.2, htj.2, hc.keys i x (hlast i x hj)⟩⟩
      · rcases ho.2 j x hj with hj | hnew
        · exact absurd hj (hno j)
        · exact absurd hold (Nat.not_lt_of_le hnew)
  · rintro ⟨e, he, hany⟩
    rw [Bool.and_eq_true, List.any_eq_true] at hany
    obtain ⟨hname, t, ht, hsame⟩ := hany
    obtain ⟨id, hd, hd', hno⟩ := sameVariable_iff.1 hsame
    have hnone : g.constants id = none := by
      by_contra hne
      exact hno (hc.entered id hne)
    obtain ⟨x, hx, v, hv, hreads⟩ := hl.names e he id ⟨hname, hd⟩ hnone
    obtain ⟨y, hy, hassigns⟩ := ha.all t ht id ⟨hts t ht, hd'⟩ hnone
    cases (hs id x hx).symm.trans hy
    rw [List.mem_singleton.1 hv] at hreads
    exact ⟨x, hreads, hassigns⟩

/-- The parts of the operands of rows. -/
def rowParts (rows : List Row) : List Part := rows.flatMap fun r => r.operand.expr.parts

theorem EmitsOperands.grows {rows : List Row} (h : EmitsOperands k g B m rows m') :
    Grows (Part.declaredAll (rowParts rows)) m m' := by
  induction h with
  | nil => exact .refl _
  | cons hr _ ih => exact hr.grows.both ih

/-- What an operand leaves is disturbed by exactly those behind it that it is reordered with. -/
theorem EmitsOperands.disturbs_iff {rows : List Row} {o : Operand} {text : C.Expr}
    (hconst : ∀ id e, g.constants id = some e → ∃ name, e = C.Expr.constant name)
    (hc : Separate g constants last) (h : EmitsOperands k g B m rows m')
    (hr : m.Ready (Part.declaredAll (rowParts rows))) (hlast : m'.Stays last)
    (hl : Retains k g (o.remains k) m [text]) :
    ∀ y ∈ rows, (o.used = true ∧ Disturbs B text y.stmts) ↔
      reorders k constants o y.operand = true := by
  induction h with
  | nil => exact fun y hy => absurd hy List.not_mem_nil
  | @cons m m₁ m' r rest hfirst hrest ih =>
    have hafter := hr.partsRight hfirst.grows
    have hstays := hr.partsLeft.stays hfirst.grows
    have hlast₁ : m₁.Stays last := (hafter.stays hrest.grows).trans hlast
    obtain ⟨_, halters, hsilent⟩ := hfirst.facts hconst hr.partsLeft
    intro y hy
    rcases List.mem_cons.1 hy with rfl | hy
    · rw [Lower.disturbs_iff hc hlast₁ hl halters hstays hfirst.grows.older hafter.proper
        fun t ht => isName_of_targets ht, ne_eq, hsilent, reorders, Bool.and_eq_true,
        Bool.and_eq_true, Bool.not_eq_true', Bool.not_eq_true]
    · exact ih hafter hlast (hl.later hstays hfirst.grows.older) y hy

/-- No text is disturbed by later statements exactly if no two operands are reordered. -/
theorem EmitsOperands.pairwise_iff {rows : List Row}
    (hconst : ∀ id e, g.constants id = some e → ∃ name, e = C.Expr.constant name)
    (hc : Separate g constants last) (h : EmitsOperands k g B m rows m')
    (hr : m.Ready (Part.declaredAll (rowParts rows))) (hlast : m'.Stays last) :
    rows.Pairwise (fun x y => x.operand.used = true → ¬ Disturbs B x.text y.stmts) ↔
      (rows.map Row.operand).Pairwise fun o p => reorders k constants o p = false := by
  rw [List.pairwise_map]
  induction h with
  | nil => exact iff_of_true .nil .nil
  | @cons m m₁ m' r rest hfirst hrest ih =>
    have hafter := hr.partsRight hfirst.grows
    have hretains := (hfirst.facts hconst hr.partsLeft).1
    rw [List.pairwise_cons, List.pairwise_cons, ih hafter hlast]
    refine and_congr_left fun _ => forall₂_congr fun y hy => ?_
    rw [← Bool.not_eq_true, ← hrest.disturbs_iff hconst hc hafter hlast hretains y hy, not_and]

end

/-! ## Expressions with operands -/

theorem flatMap_plain (es : List Expr) :
    (es.map Operand.plain).flatMap (fun o => o.expr.parts) = Expr.partsAll es := by
  induction es with
  | nil => rfl
  | cons e rest ih => exact congrArg (e.parts ++ ·) ih

theorem declaredAll_fieldOperands (inOrder : Bool) (names : List String) (fs : List FieldInit) :
    Part.declaredAll ((fieldOperands k inOrder names fs).flatMap fun o => o.expr.parts) =
      Part.declaredAll (FieldInit.partsAll fs) := by
  induction fs with
  | nil => rfl
  | cons f rest ih =>
    obtain ⟨g, name, value⟩ := f
    rw [fieldOperands, List.flatMap_cons, Part.declaredAll_append, ih, ← Part.declaredAll_append]
    rfl

/-- All declarations in an expression with operands are in the operands. -/
theorem declaredAll_operands {e : Expr} {os : List Operand} (h : operands k e = some os) :
    Part.declaredAll (os.flatMap fun o => o.expr.parts) = Part.declaredAll e.parts := by
  cases e with
  | binary g op lhs rhs | index g lhs rhs =>
    cases h
    rw [List.flatMap_cons, List.flatMap_cons, List.flatMap_nil, List.append_nil]
    rfl
  | call g callee args | array g args =>
    cases h
    rw [flatMap_plain]
    rfl
  | struct g path fields =>
    cases h
    exact declaredAll_fieldOperands _ _ fields
  | _ => cases h

end Lower

namespace Session

/-- A function item of a program with distinct identities that was lowered: the operands of every
expression with several of them are lowered one after the other. No text among them is evaluated
after statements of a later operand that do something before it could, if and only if no two of
the operands are such that the checked tree says so. -/
theorem operands_in_order (s : Session) (target : String) {i : Item} {d : FunctionDecl}
    (hn : s.program.ids.Nodup) (hi : i ∈ s.program.items) (hd : i.kind = .function d)
    (hlow : s.Lowers target) :
    ∃ f x block, (s.lower target).2.functions[i.head.id.ir]? = some f ∧
      (s.lower target).2.c.functions[f.index]? = some x ∧ x.body = some block ∧
      ∀ e os, .expr e ∈ d.body.parts → Lower.operands s.checked e = some os →
        ∃ m v a m' rows,
          Lower.Emits s.checked (Lower.setting (s.lower target).2) (s.lower target).2.c.statements
            m (.expr e v) a m' ∧
          Lower.Stands (s.lower target).2.c.statements a
            ((s.lower target).2.c.statements block) ∧
          Lower.EmitsOperands s.checked (Lower.setting (s.lower target).2)
            (s.lower target).2.c.statements m rows m' ∧
          rows.map Lower.Row.operand = os ∧ rows.flatMap Lower.Row.stmts = a ∧
          v.operands.Perm (Lower.usedTexts rows) ∧
          (rows.Pairwise (fun x y => x.operand.used = true →
              ¬ Lower.Disturbs (s.lower target).2.c.statements x.text y.stmts) ↔
            os.Pairwise fun o p =>
              Lower.reorders s.checked s.program.constants o p = false) := by
  obtain ⟨before, after, hp⟩ := List.append_of_mem hi
  obtain ⟨f, vs, block, m, m', hlowered⟩ := hlow.lowered hp hd (Program.first_of_nodup hn hp)
  obtain ⟨x, hx, _, hbody⟩ := hlowered.body
  refine ⟨f, x, block, hlowered.function, hx, hbody, ?_⟩
  have hdeclared := Program.declared_nodup hn hp hd
  obtain ⟨_, hproper⟩ := hlowered.setting
  have hsep : Lower.Separate (Lower.setting (s.lower target).2) s.program.constants m' := by
    refine ⟨Lower.constants_of_runs hlow.runs, fun id v hv hid => ?_⟩
    obtain ⟨j, hj, hdecl⟩ := Program.mem_declared hp hd (hlowered.keys_after id (hv ▸ nofun))
    exact Program.constant_not_declared hn hid hj hdecl
  intro e os he ho
  obtain ⟨m₁, v, a, m₂, hm, hemits, hstands⟩ := hlowered.placed e he (by
    cases e with
    | block => cases ho
    | _ => rfl)
  obtain ⟨hready, hlast⟩ := hm hdeclared
  obtain ⟨rows, hrows, hos, ha, ht⟩ := hemits.operands ho
  refine ⟨m₁, v, a, m₂, rows, hemits, hstands, hrows, hos, ha, ht, ?_⟩
  rw [← hos]
  refine hrows.pairwise_iff hproper.constants hsep ?_ hlast
  have hparts : Lower.rowParts rows = os.flatMap fun o => o.expr.parts := by
    rw [← hos, List.flatMap_map]
    rfl
  rw [hparts, Lower.declaredAll_operands ho]
  exact hready

open Samples in
/-- In `let x = 1; let p = P { b: x, a: { x = 2; 3 } };`, which is reported clean and lowered, the
value of `b` is read after the statements of the value of `a`, which assign it. -/
theorem operands_in_order_staling : (ofUnit staling).Clean ∧
    (ofUnit staling).check.2.Lowers "linux" ∧
    ∃ f x block m v a m' rows,
      ((ofUnit staling).check.2.lower "linux").2.functions[(head 6).id.ir]? = some f ∧
      ((ofUnit staling).check.2.lower "linux").2.c.functions[f.index]? = some x ∧
      x.body = some block ∧
      Lower.Emits (ofUnit staling).check.2.checked
        (Lower.setting ((ofUnit staling).check.2.lower "linux").2)
        ((ofUnit staling).check.2.lower "linux").2.c.statements m (.expr staleLiteral v) a m' ∧
      Lower.Stands ((ofUnit staling).check.2.lower "linux").2.c.statements a
        (((ofUnit staling).check.2.lower "linux").2.c.statements block) ∧
      rows.flatMap Lower.Row.stmts = a ∧ v.operands.Perm (Lower.usedTexts rows) ∧
      ¬ rows.Pairwise fun y z => y.operand.used = true → ¬ Lower.Disturbs
        ((ofUnit staling).check.2.lower "linux").2.c.statements y.text z.stmts := by
  have hclean : (ofUnit staling).Clean := by decide +kernel
  have hlow : (ofUnit staling).check.2.Lowers "linux" := by decide +kernel
  refine ⟨hclean, hlow, ?_⟩
  have hp : (ofUnit staling).check.2.program = staling.program := by rw [check_program]; rfl
  have hn : (ofUnit staling).check.2.program.ids.Nodup := by
    rw [hp]
    decide +kernel
  obtain ⟨f, x, block, hf, hx, hb, hall⟩ := operands_in_order (ofUnit staling).check.2 "linux"
    (i := function 6 7 "f" none
      [bind 8 9 "x" (some (number 10 "1")), bind 11 12 "p" (some staleLiteral)] none) hn
    (by rw [hp]; exact List.mem_cons_of_mem _ (List.mem_singleton_self _)) rfl hlow
  have hreorders : ∃ os, Lower.operands (ofUnit staling).check.2.checked staleLiteral = some os ∧
      ¬ os.Pairwise fun o p => Lower.reorders (ofUnit staling).check.2.checked
        (ofUnit staling).check.2.program.constants o p = false := by
    refine ⟨_, rfl, ?_⟩
    decide +kernel
  obtain ⟨os, ho, hno⟩ := hreorders
  obtain ⟨m, v, a, m', rows, hemits, hstands, _, _, ha, ht, hiff⟩ := hall staleLiteral os
    (by simp [Expr.parts, Stmt.parts, Stmt.partsAll, Samples.bind, Expr.self_mem_parts]) ho
  exact ⟨f, x, block, m, v, a, m', rows, hf, hx, hb, hemits, hstands, ha, ht, mt hiff.1 hno⟩

end Session

end MiddleEnd
