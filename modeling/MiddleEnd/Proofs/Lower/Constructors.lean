/-
  Struct constructors put every value in its own field. The values of a struct literal are lowered
  in the order in which they stand there, and each stays where it is or moves to a new variable
  before the next one is lowered (`Places`). Then they are put into the order of the declaration by
  their names, so the constructor has one argument for each declared field, and that argument is
  what became of the value given to the field (`struct_arguments`).
-/
import MiddleEnd.Proofs.Lower.Found
import MiddleEnd.Proofs.Meaning.Operands

namespace MiddleEnd

/-! ## Values by name -/

section

variable {α : Type}

theorem mem_of_lookup {l : List (String × α)} {name : String} {v : α}
    (h : l.lookup name = some v) : (name, v) ∈ l := by
  obtain ⟨before, after, rfl, -⟩ := List.lookup_eq_some_iff.1 h
  simp

/-- Values that are looked up stand where their names stand. -/
theorem arranged?_getElem {given : List (String × α)} :
    ∀ {names : List String} {vs : List α}, arranged? given names = some vs →
      vs.length = names.length ∧ ∀ (i : Nat) name, names[i]? = some name →
        ∃ v, vs[i]? = some v ∧ given.lookup name = some v
  | [], vs, h => by
    cases h
    exact ⟨rfl, nofun⟩
  | name :: rest, vs, h => by
    rw [arranged?_cons] at h
    obtain ⟨v, hv, h⟩ := Option.bind_eq_some_iff.1 h
    obtain ⟨ws, hws, rfl⟩ := Option.map_eq_some_iff.1 h
    obtain ⟨hlength, hrest⟩ := arranged?_getElem hws
    refine ⟨congrArg (· + 1) hlength, ?_⟩
    intro i other hi
    cases i with
    | zero =>
      cases hi
      exact ⟨v, rfl, hv⟩
    | succ i => exact hrest i other hi

end

namespace Lower

variable {k : Checked} {l l' : Lowering}

/-! ## Kept values -/

/-- A new variable is declared, and it holds nothing yet. -/
theorem runs_temporary {t : Ty} {x : C.VarId} (h : Runs (temporary t) l x l') :
    x.index = l.c.vars.size ∧ ∃ ct name,
      Changes l [.declare x ct name none] l' ∧ l'.c.varExpr x = .var x name := by
  obtain ⟨ct, l₁, hct, h₁⟩ := runs_bind.1 h
  obtain ⟨hc, hq⟩ := quiet_type hct
  obtain ⟨a, l₂, ha, h₂⟩ := runs_bind.1 h₁
  obtain ⟨_, rfl⟩ := runs_activation.1 ha
  obtain ⟨y, l₃, hy, h₃⟩ := runs_bind.1 h₂
  obtain ⟨s, l₄, hd, h₄⟩ := runs_bind.1 h₃
  obtain ⟨rfl, rfl⟩ := runs_look.1 hd
  obtain ⟨_, l₅, hadd, hp⟩ := runs_bind.1 h₄
  obtain ⟨rfl, rfl⟩ := runs_pure.1 hp
  obtain ⟨hx, hnew, -⟩ := changes_newLocal hy
  have hindex : x.index = l.c.vars.size := by
    rw [hx, hq.slots]
    rfl
  -- the variable that was just made has a name, which declaration and uses share
  have hnamed : ∃ v, l₄.c.vars[x.index]? = some v := by
    obtain ⟨rfl, rfl⟩ := runs_build.1 hy
    exact ⟨_, Array.getElem?_push_size⟩
  obtain ⟨v, hv⟩ := hnamed
  have hdeclare : l₄.c.declareStmt x none = .declare x v.type v.name none := by
    unfold C.Program.declareStmt
    rw [hv]
  rw [hdeclare] at hadd
  refine ⟨hindex, v.type, v.name, ((hq.changes.trans hnew).addPlain hadd rfl).1, ?_⟩
  obtain ⟨o, rest, -, rfl⟩ := runs_addStmt.1 hadd
  show l₄.c.varExpr x = _
  unfold C.Program.varExpr
  rw [hv]
  rfl

/-- A value that is kept stays what it is, or moves to a new variable. -/
theorem runs_keep {t : Ty} {v w : C.Expr} (h : Runs (keep t v) l w l') :
    (w = v ∧ l' = l) ∨ ∃ x ct name, x.index = l.c.vars.size ∧ w = .var x name ∧
      Changes l [.declare x ct name none, .assign (.var x name) v] l' := by
  obtain ⟨target, l₁, ht, h₁⟩ := runs_bind.1 h
  unfold temporary? at ht
  cases hunit : t.isUnit with
  | true =>
    rw [hunit] at ht
    obtain ⟨rfl, rfl⟩ := runs_pure.1 ht
    exact .inl (runs_pure.1 h₁)
  | false =>
    rw [hunit] at ht
    obtain ⟨x, l₂, hx, hp⟩ := runs_bind.1 ht
    obtain ⟨rfl, rfl⟩ := runs_pure.1 hp
    obtain ⟨hindex, ct, name, hdeclared, hname⟩ := runs_temporary hx
    obtain ⟨_, l₃, hstore, hv⟩ := runs_bind.1 h₁
    obtain ⟨e, l₄, he, hassign⟩ := runs_bind.1 hstore
    obtain ⟨rfl, rfl⟩ := runs_look.1 he
    obtain ⟨rfl, rfl⟩ := runs_look.1 hv
    rw [hname] at hassign
    have hchanges := (hdeclared.addPlain hassign rfl).1
    obtain ⟨o, rest, -, rfl⟩ := runs_addStmt.1 hassign
    exact .inr ⟨x, ct, name, hindex, hname, hchanges⟩

/-! ## Fields in the order of the literal -/

/-- The value of one field is lowered: `w` is what became of it, and `a` what was added to the
innermost open block. Either the value stays what it is, or a new variable is declared after its
statements and the value assigned to it. -/
inductive Places (k : Checked) (value : Expr) :
    Lowering → C.Expr → List C.Stmt → Lowering → Prop
  | stays {l l' : Lowering} {v : C.Expr} {a : List C.Stmt} :
    Runs (expr k value) l v l' → Changes l a l' → Places k value l v a l'
  | moves {l l₁ l' : Lowering} {v : C.Expr} {a : List C.Stmt} {x : C.VarId} (ct : C.Ty)
    {name : String} :
    Runs (expr k value) l v l₁ → Changes l a l₁ → x.index = l₁.c.vars.size →
    Changes l₁ [.declare x ct name none, .assign (.var x name) v] l' →
    Places k value l (.var x name) (a ++ [.declare x ct name none, .assign (.var x name) v]) l'

/-- The values of fields are lowered one after the other, and what is given to each field is what
became of its value. -/
inductive PlacesAll (k : Checked) :
    Lowering → List FieldInit → List (String × C.Expr) → List C.Stmt → Lowering → Prop
  | nil (l : Lowering) : PlacesAll k l [] [] [] l
  | cons {l l₁ l' : Lowering} (h : Head) (name : String) {value : Expr} {rest : List FieldInit}
    {w : C.Expr} {given : List (String × C.Expr)} {a b : List C.Stmt} :
    Places k value l w a l₁ → PlacesAll k l₁ rest given b l' →
    PlacesAll k l (.mk h name value :: rest) ((name, w) :: given) (a ++ b) l'

theorem Places.changes {value : Expr} {w : C.Expr} {a : List C.Stmt}
    (h : Places k value l w a l') : Changes l a l' := by
  cases h with
  | stays _ ha => exact ha
  | moves _ _ ha _ hb => exact ha.trans hb

theorem PlacesAll.changes {fields : List FieldInit} {given : List (String × C.Expr)}
    {a : List C.Stmt} (h : PlacesAll k l fields given a l') : Changes l a l' := by
  induction h with
  | nil l => exact .refl l
  | cons h name hvalue _ ih => exact hvalue.changes.trans ih

theorem PlacesAll.names {fields : List FieldInit} {given : List (String × C.Expr)}
    {a : List C.Stmt} (h : PlacesAll k l fields given a l') :
    given.map Prod.fst = fields.map FieldInit.name := by
  induction h with
  | nil l => rfl
  | cons h name _ _ ih => exact congrArg (name :: ·) ih

theorem changes_of_runs {e : Expr} {v : C.Expr} (hr : Runs (expr k e) l v l') :
    ∃ a, Changes l a l' := by
  obtain ⟨a, ha, -⟩ := (emitsAll e).1 hr
  exact ⟨a, ha⟩

theorem placesAll_of_runs {inOrder : Bool} : ∀ {fields : List FieldInit}
    {given : List (String × C.Expr)} {l l' : Lowering},
    Runs (fieldInits k inOrder fields) l given l' → ∃ a, PlacesAll k l fields given a l'
  | [], given, l, l', hr => by
    obtain ⟨rfl, rfl⟩ := runs_pure.1 hr
    exact ⟨[], .nil l'⟩
  | .mk h name value :: rest, given, l, l', hr => by
    obtain ⟨v, l₁, hvalue, h₁⟩ := runs_bind.1 hr
    obtain ⟨a, ha⟩ := changes_of_runs hvalue
    cases hstays : inOrder || isInert value with
    | true =>
      rw [hstays] at h₁
      obtain ⟨ws, l₂, hrest, h₂⟩ := runs_bind.1 h₁
      obtain ⟨rfl, rfl⟩ := runs_pure.1 h₂
      obtain ⟨b, hb⟩ := placesAll_of_runs hrest
      exact ⟨a ++ b, .cons h name (.stays hvalue ha) hb⟩
    | false =>
      rw [hstays] at h₁
      obtain ⟨t, l₂, ht, h₂⟩ := runs_bind.1 h₁
      obtain ⟨-, rfl⟩ := runs_typeOf.1 ht
      obtain ⟨w, l₃, hkeep, h₃⟩ := runs_bind.1 h₂
      obtain ⟨ws, l₄, hrest, h₄⟩ := runs_bind.1 h₃
      obtain ⟨rfl, rfl⟩ := runs_pure.1 h₄
      obtain ⟨b, hb⟩ := placesAll_of_runs hrest
      obtain ⟨rfl, rfl⟩ | ⟨x, ct, spelled, hx, rfl, hmoved⟩ := runs_keep hkeep
      · exact ⟨a ++ b, .cons h name (.stays hvalue ha) hb⟩
      · exact ⟨_, .cons h name (.moves ct hvalue ha hx hmoved) hb⟩

/-! ## Arguments in the order of the declaration -/

/-- Struct constructors put every value in its own field. Where a struct literal of a struct type
with distinct field names gives every declared field once, in whatever order, and lowering it
succeeds, it becomes a constructor. Its values are lowered one after the other in the order of the
literal; the constructor has one argument for each declared field, in the order of the declaration,
and the argument is what became of the value that the literal gives to that field. -/
theorem struct_arguments {h : Head} {path : StructPath} {fields : List FieldInit} {v : C.Expr}
    {r : IrId} {name : String} {decls : Members}
    (htype : k.types.get? h.id.ir = some (.struct r name decls)) (hnames : decls.names.Nodup)
    (hgiven : (fields.map FieldInit.name).Perm decls.names)
    (hr : Runs (expr k (.struct h path fields)) l v l') :
    ∃ ct vs l₀ given a, v = .struct ct vs ∧
      Runs (type (.struct r name decls)) l ct l₀ ∧ Changes l [] l₀ ∧
      PlacesAll k l₀ fields given a l' ∧ Changes l a l' ∧
      vs.length = decls.names.length ∧
      ∀ (i : Nat) field, decls.names[i]? = some field → ∃ w, vs[i]? = some w ∧
        ∀ u, (field, u) ∈ given ↔ u = w := by
  obtain ⟨t, l₁, ht, h₁⟩ := runs_bind.1 hr
  obtain ⟨hget, rfl⟩ := runs_typeOf.1 ht
  cases htype.symm.trans hget
  obtain ⟨ct, l₂, hct, h₂⟩ := runs_bind.1 h₁
  obtain ⟨given, l₃, hfields, h₃⟩ := runs_bind.1 h₂
  obtain ⟨vs, l₄, horder, h₄⟩ := runs_bind.1 h₃
  obtain ⟨rfl, rfl⟩ := runs_pure.1 h₄
  obtain ⟨hordered, rfl⟩ := runs_inDeclaredOrder horder
  obtain ⟨a, ha⟩ := placesAll_of_runs hfields
  have hquiet := (quiet_type hct).2.changes
  obtain ⟨-, harranged⟩ := declaredOrder?_nodup hordered
  obtain ⟨hlength, hplaced⟩ := arranged?_getElem harranged
  -- no two values are given to one field, so the last one is the only one
  have hdistinct : (given.map Prod.fst).Nodup := by
    rw [ha.names]
    exact hgiven.nodup_iff.2 hnames
  refine ⟨ct, vs, l₂, given, a, rfl, hct, hquiet, ha, hquiet.trans ha.changes, hlength, ?_⟩
  intro i field hi
  obtain ⟨w, hw, hlookup⟩ := hplaced i field hi
  have hmem : (field, w) ∈ given := List.mem_reverse.1 (mem_of_lookup hlookup)
  refine ⟨w, hw, fun u => ⟨fun hu => ?_, fun hu => hu ▸ hmem⟩⟩
  exact Option.some.inj ((lookup_of_mem hdistinct hu).symm.trans (lookup_of_mem hdistinct hmem))

end Lower

namespace Session

open Samples in
/-- Lowering of `staling` up to the struct literal: `struct P { a: i32, b: i32 }` and the
declaration `let x = 1`. -/
def stalingStart : Lower Unit := do
  Lower.enterPrimitives ((ofUnit staling).checks 1).checked
  staling.program.items.forM fun i =>
    match i.kind with
    | .struct d => Lower.structItem ((ofUnit staling).checks 1).checked i d
    | .function d => Lower.functionSignature ((ofUnit staling).checks 1).checked i d
    | _ => return ()
  Lower.pushFunction ⟨⟨0⟩, none⟩
  Lower.pushBlock (← Lower.build (·.newBlock))
  Lower.stmt ((ofUnit staling).checks 1).checked (bind 8 9 "x" (some (number 10 "1")))

open Samples in
/-- `P { b: x, a: { x = 2; 3 } }` with the fields `a` and `b` declared in this order: the value of
the block moves to a variable, and the variable is the first argument. -/
theorem struct_arguments_staling : ∃ l l₀ l' path fields ct vs given a,
    staleLiteral = .struct (head 13) path fields ∧
    Lower.Runs (Lower.expr ((ofUnit staling).checks 1).checked staleLiteral) l (.struct ct vs) l' ∧
    (C.Expr.struct ct vs).text = "(P)\x7b __tmp_1, x \x7d" ∧
    Lower.PlacesAll ((ofUnit staling).checks 1).checked l₀ fields given a l' ∧
    given.map Prod.fst = ["b", "a"] ∧ ∃ w, vs[0]? = some w ∧ ("a", w) ∈ given := by
  have hget : ((ofUnit staling).checks 1).checked.types.get? (head 13).id.ir = some (.struct ⟨1⟩ "P"
      (.cons "a" (.int ⟨30⟩ .w32) (.cons "b" (.int ⟨30⟩ .w32) .nil))) := by
    decide +kernel
  have hgets : staleLiteral = .struct (head 13) ⟨identity 14, "P"⟩ _ := rfl
  have htext : ((Lower.expr ((ofUnit staling).checks 1).checked staleLiteral).run.run
      (stalingStart.run.run (.empty "linux")).2).1.toOption.map C.Expr.text =
        some "(P)\x7b __tmp_1, x \x7d" := by
    decide +kernel
  rcases hrun : (Lower.expr ((ofUnit staling).checks 1).checked staleLiteral).run.run
    (stalingStart.run.run (.empty "linux")).2 with ⟨e | v, l'⟩ <;> rw [hrun] at htext
  · cases htext
  rw [hgets] at hrun
  obtain ⟨ct, vs, l₀, given, a, rfl, hct, -, hplaces, -, -, harguments⟩ :=
    Lower.struct_arguments hget (by decide) (by decide) hrun
  obtain ⟨w, hw, hgiven⟩ := harguments 0 "a" rfl
  exact ⟨_, l₀, l', _, _, ct, vs, given, a, hgets, hrun, Option.some.inj htext, hplaces,
    hplaces.names, w, hw, (hgiven w).2 rfl⟩

end Session

end MiddleEnd
