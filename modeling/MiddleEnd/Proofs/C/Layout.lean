/-
  The text of a program line by line. A line keeps what it was made from (`Line`), so that what it
  declares and what it mentions can be read off it; the lines of a program that is written without
  a fault have its text (`text_layout`).

  An expression mentions the types that it spells and the constants, variables and functions that
  it refers to (`Expr.mentions`).
-/
import MiddleEnd.Proofs.C.Capture
import MiddleEnd.Proofs.C.Forest

namespace MiddleEnd.C

/-! ## Mentions -/

/-- What the text of an expression, a statement or a line refers to. -/
inductive Mention
  | type (t : Ty)
  | constant (name : String)
  | var (v : VarId) (name : String)
  /-- A variable that has not been spelled yet. -/
  | slot (v : VarId)
  | function (f : FunctionId) (name : String)
  /-- Text supplied by someone else. -/
  | foreign (text : String)

mutual

def Expr.mentions : Expr → List Mention
  | .verbatim text => [.foreign text]
  | .int t _ => [.type t]
  | .float t _ => [.type t]
  | .bool _ => []
  | .unit => []
  | .constant name => [.constant name]
  | .var v name => [.var v name]
  | .binary _ lhs rhs => lhs.mentions ++ rhs.mentions
  | .call f name args => .function f name :: Expr.mentionsAll args
  | .index base position => base.mentions ++ position.mentions
  | .array t values => .type t :: Expr.mentionsAll values
  | .struct t values => .type t :: Expr.mentionsAll values

def Expr.mentionsAll : List Expr → List Mention
  | [] => []
  | e :: rest => e.mentions ++ Expr.mentionsAll rest

end

theorem Expr.mem_mentionsAll {m : Mention} {es : List Expr} :
    m ∈ Expr.mentionsAll es ↔ ∃ e ∈ es, m ∈ e.mentions := by
  induction es with
  | nil => simp [Expr.mentionsAll]
  | cons e rest ih => simp [Expr.mentionsAll, ih]

/-- What the statement itself mentions, not its blocks. -/
def Stmt.mentions : Stmt → List Mention
  | .expr e => e.mentions
  | .declare v t name init => .type t :: .var v name :: Expr.mentionsAll init.toList
  | .assign target value => target.mentions ++ value.mentions
  | .ret value => Expr.mentionsAll value.toList
  | .block _ => []
  | .branch condition _ _ => condition.mentions

namespace TypeDef

def name : TypeDef → String
  | struct name _ => name
  | array name _ _ => name

/-- What the members of the definition mention. -/
def mentions : TypeDef → List Mention
  | struct _ fields => fields.map fun field => .type field.2
  | array _ element length => .type element :: length.mentions

end TypeDef

/-- What the result type of a function mentions. -/
def Ty.mentions : Ty → List Mention
  | .void => []
  | t => [.type t]

/-- The name of the whole program that is referred to. -/
def Program.reference? (p : Program) : Mention → Option String
  | .constant name => some name
  | .var v name => if p.isGlobal v then some name else none
  | .function _ name => some name
  | _ => none

/-! ## Lines -/

inductive Line
  /-- A line that names nothing of the program: of the header, a blank one or the end of a block. -/
  | plain (text : String)
  /-- The announcement of a struct type. -/
  | forward (name : String)
  | typeDef (d : TypeDef)
  | constant (name : String) (c : Constant)
  | global (x : Variable) (g : Global)
  | prototype (f : Function)
  /-- The start of the definition of a function. -/
  | head (f : Function)
  /-- The first line of a statement, so many blocks deep. -/
  | stmt (level : Nat) (s : Stmt)

namespace Line

/-- The text of a line of the program. -/
def text (p : Program) : Line → String
  | plain text => text
  | forward name => s!"typedef struct {name} {name};"
  | typeDef d => d.text
  | constant name c => s!"static const {c.type.declare name} = {c.value.text};"
  | global x g =>
    let qualifier := if g.isMutable then "static" else "static const"
    s!"{qualifier} {x.type.declare x.name} = {g.init.text};"
  | prototype f => s!"{p.prototype f};"
  | head f => s!"{p.prototype f} \x7b"
  | stmt level s => indentLine level (s.firstLine?.getD "\x7b")

theorem text_head (p : Program) (f : Function) : (head f).text p = s!"{p.prototype f} \x7b" := rfl

theorem text_stmt (p : Program) (level : Nat) (s : Stmt) :
    (stmt level s).text p = indentLine level (s.firstLine?.getD "\x7b") :=
  rfl

/-- What the line mentions apart from what it declares or defines. -/
def mentions (p : Program) : Line → List Mention
  | plain _ => []
  | forward name => [.type (.named name)]
  | typeDef d => d.mentions
  | constant _ c => .type c.type :: c.value.mentions
  | global x g => .type x.type :: g.init.mentions
  | prototype f | head f =>
    f.result.mentions ++ f.params.filterMap fun v => (p.vars[v.index]?).map (.type ·.type)
  | stmt _ s => s.mentions

/-- The names by which the line refers to the whole program. -/
def references (p : Program) (line : Line) : List String :=
  (line.mentions p).filterMap p.reference?

/-- The constant, variable or function of the whole program that is declared. -/
def declares? : Line → Option String
  | constant name _ => some name
  | global x _ => some x.name
  | prototype f => some f.name
  | _ => none

/-- The type that is defined. -/
def defines? : Line → Option String
  | typeDef d => some d.name
  | _ => none

end Line

namespace Program

variable {p : Program}

/-! ## Lines of a program -/

/-- The lines of a statement, if `inner` has those of its blocks. -/
def stmtLayout (inner : BlockId → List Line) (level : Nat) (s : Stmt) : List Line :=
  match s with
  | .block b => .stmt level s :: (inner b ++ [.plain (indentLine level "\x7d")])
  | .branch _ thenBody elseBody =>
    let otherwise := match elseBody with
      | some e => .plain (indentLine level "\x7d else \x7b") :: inner e
      | none => []
    .stmt level s :: (inner thenBody ++ otherwise ++ [.plain (indentLine level "\x7d")])
  | _ => [.stmt level s]

/-- The lines of a block and of the blocks in it, down to a depth. -/
def blockLayout (p : Program) : (depth : Nat) → (level : Nat) → BlockId → List Line
  | 0, _, _ => []
  | depth + 1, level, b =>
    (p.statements b).flatMap (stmtLayout (p.blockLayout depth (level + 1)) level)

/-- The lines of the definition of a function. -/
def functionLayout (p : Program) (f : FunctionId) : List Line :=
  match p.functions[f.index]? with
  | some f =>
    match f.body with
    | some body => .head f :: (p.blockLayout p.blocks.size 1 body ++ [.plain "\x7d", .plain ""])
    | none => []
  | none => []

/-- The struct type that is announced for a declared type. -/
def announced? (p : Program) : Ty → Option Line
  | .named name => if p.structNames.contains name then some (.forward name) else none
  | _ => none

/-- The line of a constant. -/
def constant? (p : Program) (e : Expr) : Option Line :=
  (p.constants.lookup e.text).map (.constant e.text)

/-- The line of a variable of the whole program. -/
def global? (p : Program) (v : VarId) : Option Line :=
  (p.vars[v.index]?).bind fun x => x.global.map (.global x)

/-- The line that announces a function. -/
def prototype? (p : Program) (f : FunctionId) : Option Line :=
  (p.functions[f.index]?).map .prototype

/-- The lines about types. -/
def typeLayout (p : Program) (types : List Ty) : List Line :=
  types.filterMap p.announced? ++ p.typeDefs.map .typeDef ++ [.plain ""]

/-- The lines that announce functions. -/
def prototypeLayout (p : Program) (fs : List FunctionId) : List Line :=
  fs.filterMap p.prototype? ++ [.plain ""]

/-- All lines of the program; those that cannot be written are left out. -/
def layout (p : Program) (d : Declarations) : List Line :=
  p.headerLines.map .plain ++ p.typeLayout d.types ++ d.constants.filterMap p.constant? ++
    d.vars.filterMap p.global? ++ [.plain ""] ++
    (p.prototypeLayout d.functions ++ d.functions.flatMap p.functionLayout)

theorem text_stmtLayout {inner : BlockId → List Line} {depth level : Nat} (s : Stmt)
    (h : ∀ b, (inner b).map (Line.text p) = p.blockLines depth (level + 1) b) :
    (stmtLayout inner level s).map (Line.text p) = p.stmtLines depth level s := by
  cases s with
  | block b =>
    rw [stmtLayout, List.map_cons, List.map_append, h, Line.text_stmt]
    rfl
  | branch condition x y =>
    cases y with
    | none =>
      rw [stmtLayout, List.map_cons, List.map_append, List.map_append, h, Line.text_stmt]
      rfl
    | some y =>
      rw [stmtLayout, List.map_cons, List.map_append, List.map_append, h, List.map_cons, h,
        Line.text_stmt]
      rfl
  | declare v t name init => cases init <;> exact congrArg (fun t => [t]) (Line.text_stmt ..)
  | ret value => cases value <;> exact congrArg (fun t => [t]) (Line.text_stmt ..)
  | _ => exact congrArg (fun t => [t]) (Line.text_stmt ..)

theorem text_blockLayout : ∀ (depth level : Nat) (b : BlockId),
    (p.blockLayout depth level b).map (Line.text p) = p.blockLines depth level b
  | 0, _, _ => rfl
  | depth + 1, level, b => by
    rw [blockLayout, blockLines_succ, List.map_flatMap]
    exact List.flatMap_congr fun s _ => text_stmtLayout s (text_blockLayout depth (level + 1))

theorem text_functionLayout (f : FunctionId) :
    (p.functionLayout f).map (Line.text p) = p.functionLines f := by
  unfold functionLayout functionLines
  cases p.functions[f.index]? with
  | none => rfl
  | some x =>
    cases hbody : x.body with
    | none =>
      dsimp only
      rw [hbody]
      rfl
    | some body =>
      dsimp only
      rw [hbody]
      dsimp only
      unfold bodyLines
      rw [List.map_cons, List.map_append, text_blockLayout, Line.text_head]
      rfl

/-- The lines of declarations that can all be written. -/
theorem text_declarations {α : Type} {line : α → Except Defect String} {typed : α → Option Line}
    (h : ∀ a text, line a = .ok text → ∃ l, typed a = some l ∧ l.text p = text) :
    ∀ {xs : List α} {texts : List String}, xs.map line = texts.map .ok →
      (xs.filterMap typed).map (Line.text p) = texts
  | [], texts, hall => by
    rw [List.map_nil, eq_comm, List.map_eq_nil_iff] at hall
    rw [hall]
    rfl
  | a :: rest, [], hall => by cases hall
  | a :: rest, text :: texts, hall => by
    rw [List.map_cons, List.map_cons, List.cons.injEq] at hall
    obtain ⟨l, hl, rfl⟩ := h a text hall.1
    rw [List.filterMap_cons, hl, List.map_cons, text_declarations h hall.2]

theorem text_constant? (e : Expr) (text : String) (h : p.constantLine e = .ok text) :
    ∃ l, p.constant? e = some l ∧ l.text p = text := by
  unfold constantLine at h
  unfold constant?
  cases hc : p.constants.lookup e.text with
  | none =>
    rw [hc] at h
    cases h
  | some c =>
    rw [hc] at h
    cases h
    exact ⟨_, rfl, rfl⟩

theorem text_global? (v : VarId) (text : String) (h : p.globalLine v = .ok text) :
    ∃ l, p.global? v = some l ∧ l.text p = text := by
  unfold globalLine at h
  unfold global?
  rcases hx : p.vars[v.index]? with _ | ⟨name, type, _ | g⟩
  · rw [hx] at h
    cases h
  · rw [hx] at h
    cases h
  · rw [hx] at h
    cases h
    exact ⟨_, rfl, rfl⟩

theorem text_typeLayout (types : List Ty) :
    (p.typeLayout types).map (Line.text p) = p.typeLines types := by
  have hone : ∀ t, (p.announced? t).map (Line.text p) = match t with
      | .named name =>
        if p.structNames.contains name then some s!"typedef struct {name} {name};" else none
      | _ => none := by
    intro t
    cases t with
    | named name =>
      unfold announced?
      dsimp only
      split <;> rfl
    | _ => rfl
  unfold typeLines typeLayout
  rw [List.map_append, List.map_append, List.map_filterMap, List.map_map, funext hone]
  rfl

theorem text_prototypeLayout (fs : List FunctionId) :
    (p.prototypeLayout fs).map (Line.text p) = p.prototypeLines fs := by
  have hone : ∀ f, (p.prototype? f).map (Line.text p) =
      (p.functions[f.index]?).map fun f => s!"{p.prototype f};" := by
    intro f
    unfold prototype?
    rw [Option.map_map]
    rfl
  unfold prototypeLines prototypeLayout
  rw [List.map_append, List.map_filterMap, funext hone]
  rfl

/-- The lines of blocks are those of statements, and ends of blocks. -/
theorem mem_blockLayout {line : Line} : ∀ {depth level : Nat} {b : BlockId},
    line ∈ p.blockLayout depth level b →
      (∃ t, line = .plain t) ∨ ∃ n c, ∃ s ∈ p.statements c, line = .stmt n s
  | 0, _, _, h => absurd h List.not_mem_nil
  | depth + 1, level, b, h => by
    obtain ⟨s, hs, h⟩ := List.mem_flatMap.1 h
    have first : ∀ {rest}, line ∈ .stmt level s :: rest → line ∈ rest ∨
        ∃ n c, ∃ s ∈ p.statements c, line = .stmt n s := by
      intro rest h
      rcases List.mem_cons.1 h with rfl | h
      · exact .inr ⟨level, b, s, hs, rfl⟩
      · exact .inl h
    have last : ∀ {t}, line ∈ [Line.plain t] → ∃ t, line = .plain t := fun h =>
      ⟨_, List.mem_singleton.1 h⟩
    cases s with
    | block c =>
      refine (first h).elim (fun h => ?_) .inr
      exact (List.mem_append.1 h).elim mem_blockLayout fun h => .inl (last h)
    | branch condition x y =>
      refine (first h).elim (fun h => ?_) .inr
      rcases List.mem_append.1 h with h | h
      · rcases List.mem_append.1 h with h | h
        · exact mem_blockLayout h
        · cases y with
          | none => exact absurd h List.not_mem_nil
          | some e =>
            rcases List.mem_cons.1 h with rfl | h
            · exact .inl ⟨_, rfl⟩
            · exact mem_blockLayout h
      · exact .inl (last h)
    | _ => exact (first h).elim (fun h => absurd h List.not_mem_nil) .inr

/-- The lines of the definition of a function are its head, those of statements, and ends. -/
theorem mem_functionLayout {line : Line} {f : FunctionId} (h : line ∈ p.functionLayout f) :
    (∃ t, line = .plain t) ∨ (∃ x, p.functions[f.index]? = some x ∧ line = .head x) ∨
      ∃ n c, ∃ s ∈ p.statements c, line = .stmt n s := by
  unfold functionLayout at h
  cases hx : p.functions[f.index]? with
  | none =>
    rw [hx] at h
    exact absurd h List.not_mem_nil
  | some x =>
    rw [hx] at h
    dsimp only at h
    cases hbody : x.body with
    | none =>
      rw [hbody] at h
      exact absurd h List.not_mem_nil
    | some body =>
      rw [hbody] at h
      rcases List.mem_cons.1 h with rfl | h
      · exact .inr (.inl ⟨x, rfl, rfl⟩)
      · rcases List.mem_append.1 h with h | h
        · exact (mem_blockLayout h).imp_right .inr
        · rcases List.mem_cons.1 h with rfl | h
          · exact .inl ⟨_, rfl⟩
          · exact .inl ⟨_, List.mem_singleton.1 h⟩

/-- The lines of a program in which nothing is missing have its text. -/
theorem text_layout {d : Declarations} {texts : List String} (h : p.lines d = texts.map .ok) :
    (p.layout d).map (Line.text p) = texts := by
  have hok : Function.Injective (List.map (Except.ok (ε := Defect) (α := String))) :=
    List.map_injective_iff.2 fun _ _ h => Except.ok.inj h
  unfold lines at h
  obtain ⟨t₁, back, rfl, h, hback⟩ := List.append_eq_map_iff.1 h
  obtain ⟨t₁, blank, rfl, h, hblank⟩ := List.append_eq_map_iff.1 h.symm
  obtain ⟨t₁, globals, rfl, h, hglobals⟩ := List.append_eq_map_iff.1 h.symm
  obtain ⟨front, constants, rfl, hfront, hconstants⟩ := List.append_eq_map_iff.1 h.symm
  have hblank : blank = [""] := hok hblank
  have hheader : (p.headerLines.map Line.plain).map (Line.text p) = p.headerLines := by
    rw [List.map_map]
    exact List.map_id _
  have hfunctions : (d.functions.flatMap p.functionLayout).map (Line.text p) =
      d.functions.flatMap p.functionLines := by
    rw [List.map_flatMap]
    exact List.flatMap_congr fun f _ => text_functionLayout f
  unfold layout
  simp only [List.map_append, hheader, text_typeLayout, text_prototypeLayout, hfunctions]
  rw [text_declarations text_constant? hconstants.symm,
    text_declarations text_global? hglobals.symm, hok hback, hok hfront, hblank]
  rfl

/-- The lines of a program do not depend on what was written before. -/
theorem lines_output (output : String) (d : Declarations) :
    { p with output := output }.lines d = p.lines d := by
  unfold lines
  rw [funext (functionLines_output output)]
  rfl

/-- A program that is written without a fault has the text of its lines. -/
theorem output_of_layout {d : Declarations} (h : (p.write d).1 = .ok ()) : (p.write d).2.output =
    String.join (((p.write d).2.layout d).map fun line => line.text (p.write d).2 ++ "\n") := by
  unfold write at h ⊢
  rcases hd : untilDefect (p.lines d) with ⟨texts, defect⟩
  rw [hd] at h
  cases defect with
  | some e => cases h
  | none =>
    have hlines := lines_of_untilDefect hd
    rw [← lines_output (String.join (texts.map (· ++ "\n")))] at hlines
    dsimp only
    conv_lhs => rw [← text_layout hlines, List.map_map]
    rfl

end Program

end MiddleEnd.C
