/-
  Where calls stand in the text of a C program: the text of a call is part of the text of every
  expression that makes it (`Expr.contains_text`), and every statement in the blocks of a function
  has a line of its own in the text of the function (`mem_bodyLines`).
-/
import MiddleEnd.Proofs.Lower.Calls

namespace MiddleEnd

/-- The second text is part of the first. -/
def Contains (s t : String) : Prop := ∃ x y, s = x ++ t ++ y

namespace Contains

variable {s t : String}

theorem refl (s : String) : Contains s s :=
  ⟨"", "", by rw [String.empty_append, String.append_empty]⟩

theorem append (h : Contains s t) (x : String) : Contains (s ++ x) t := by
  obtain ⟨a, b, rfl⟩ := h
  exact ⟨a, b ++ x, String.append_assoc ..⟩

theorem prepend (h : Contains s t) (x : String) : Contains (x ++ s) t := by
  obtain ⟨a, b, rfl⟩ := h
  refine ⟨x ++ a, b, ?_⟩
  rw [String.append_assoc, String.append_assoc, String.append_assoc]

end Contains

namespace C

mutual

theorem Expr.contains_text {c : Expr} : ∀ {e : Expr}, c ∈ e.calls → Contains e.text c.text
  | .call f name args, h => by
    rcases Multiset.mem_cons.1 h with rfl | h
    · exact .refl _
    · exact ((Expr.contains_texts h).prepend _).append _
  | .binary op lhs rhs, h => by
    rcases Multiset.mem_add.1 h with h | h
    · exact (((((Expr.contains_text h).prepend _).append _).append _).append _).append _ |>.append _
    · exact ((Expr.contains_text h).prepend _).append _
  | .index base position, h => by
    rcases Multiset.mem_add.1 h with h | h
    · exact (((Expr.contains_text h).append _).append _).append _
    · exact ((Expr.contains_text h).prepend _).append _
  | .array t values, h => ((Expr.contains_texts h).prepend _).append _
  | .struct t values, h => ((Expr.contains_texts h).prepend _).append _
  | .verbatim _, h | .int _ _, h | .float _ _, h | .bool _, h | .unit, h | .constant _, h
  | .var _ _, h => absurd h (Multiset.notMem_zero _)

theorem Expr.contains_texts {c : Expr} : ∀ {es : List Expr}, c ∈ Expr.callsAll es →
    Contains (Expr.texts es) c.text
  | [], h => absurd h (Multiset.notMem_zero _)
  | [e], h => by
    rcases Multiset.mem_add.1 h with h | h
    · exact Expr.contains_text h
    · exact absurd h (Multiset.notMem_zero _)
  | e :: f :: rest, h => by
    rcases Multiset.mem_add.1 h with h | h
    · exact ((Expr.contains_text h).append _).append _
    · exact (Expr.contains_texts h).prepend _

end

/-! ## Lines of statements -/

/-- The first line of a statement, if it starts one. -/
def Stmt.firstLine? : Stmt → Option String
  | .branch condition _ _ => some s!"if ({condition.text}) \x7b"
  | s => s.line?

/-- The text of a call stands in the first line of the statement that makes it. -/
theorem Stmt.contains_firstLine {c : Expr} {s : Stmt} (h : c ∈ s.calls) :
    ∃ line, s.firstLine? = some line ∧ Contains line c.text := by
  cases s with
  | expr e => exact ⟨_, rfl, (Expr.contains_text h).append _⟩
  | declare v t name init =>
    cases init with
    | none => exact absurd h (Multiset.notMem_zero _)
    | some e => exact ⟨_, rfl, ((Expr.contains_text h).prepend _).append _⟩
  | assign target value =>
    rcases Multiset.mem_add.1 h with h | h
    · exact ⟨_, rfl, (((Expr.contains_text h).append _).append _).append _⟩
    · exact ⟨_, rfl, ((Expr.contains_text h).prepend _).append _⟩
  | ret value =>
    cases value with
    | none => exact absurd h (Multiset.notMem_zero _)
    | some e => exact ⟨_, rfl, ((Expr.contains_text h).prepend _).append _⟩
  | block b => exact absurd h (Multiset.notMem_zero _)
  | branch condition x y => exact ⟨_, rfl, ((Expr.contains_text h).prepend _).append _⟩

namespace Program

variable {p : Program}

/-- The lines of a statement, and of the blocks in it, down to a depth. -/
def stmtLines (p : Program) (depth level : Nat) : Stmt → List String
  | .block inner =>
    indentLine level "\x7b" :: (p.blockLines depth (level + 1) inner ++ [indentLine level "\x7d"])
  | .branch condition thenBody elseBody =>
    let otherwise := match elseBody with
      | some e => indentLine level "\x7d else \x7b" :: p.blockLines depth (level + 1) e
      | none => []
    indentLine level s!"if ({condition.text}) \x7b" ::
      (p.blockLines depth (level + 1) thenBody ++ otherwise ++ [indentLine level "\x7d"])
  | s => (s.line?.map (indentLine level)).toList

theorem blockLines_succ (depth level : Nat) (b : BlockId) :
    p.blockLines (depth + 1) level b = (p.statements b).flatMap (p.stmtLines depth level) := by
  rw [blockLines]
  refine congrArg (fun f => (p.statements b).flatMap f) (funext fun s => ?_)
  cases s <;> rfl

theorem firstLine_mem {depth level : Nat} {s : Stmt} {line : String}
    (h : s.firstLine? = some line) : indentLine level line ∈ p.stmtLines depth level s := by
  cases s with
  | block b => cases h
  | branch condition x y =>
    cases h
    exact List.mem_cons_self ..
  | declare v t name init =>
    cases init <;> (cases h; exact List.mem_cons_self ..)
  | ret value =>
    cases value <;> (cases h; exact List.mem_cons_self ..)
  | _ =>
    cases h
    exact List.mem_cons_self ..

/-- The lines of a block stand among those of the statement that has it. -/
theorem block_mem {depth level : Nat} {s : Stmt} {x : BlockId} {line : String} (hx : x ∈ s.blocks)
    (h : line ∈ p.blockLines depth (level + 1) x) : line ∈ p.stmtLines depth level s := by
  cases s with
  | block b =>
    rw [List.mem_singleton.1 hx] at h
    exact List.mem_cons_of_mem _ (List.mem_append_left _ h)
  | branch condition y z =>
    refine List.mem_cons_of_mem _ (List.mem_append_left _ ?_)
    cases z with
    | none =>
      rw [List.mem_singleton.1 hx] at h
      exact List.mem_append_left _ h
    | some z =>
      rcases List.mem_cons.1 hx with rfl | hx
      · exact List.mem_append_left _ h
      · rw [List.mem_singleton.1 hx] at h
        exact List.mem_append_right _ (List.mem_cons_of_mem _ h)
  | _ => exact absurd hx List.not_mem_nil

/-- Every statement in the blocks has its line, if the depth is enough for blocks that are numbered
in the order of nesting, from `low` up to `high`. -/
theorem mem_lines {low high : Nat} {ss all : List Stmt}
    (hdeeper : ∀ c : BlockId, low ≤ c.index → c.index < high →
      ∀ s ∈ p.statements c, ∀ x ∈ s.blocks, c.index < x.index ∧ x.index < high)
    (h : Lower.Nested p.statements ss all) : ∀ {depth level : Nat},
    (∀ s ∈ ss, ∀ x ∈ s.blocks, low ≤ x.index ∧ x.index < high ∧ high ≤ x.index + depth) →
    ∀ s ∈ all, ∀ line, s.firstLine? = some line →
      ∃ level', indentLine level' line ∈ ss.flatMap (p.stmtLines depth level) := by
  induction h with
  | nil => exact fun _ s hs => absurd hs List.not_mem_nil
  | @cons s rest inner all hi hr ihi ihr =>
    intro depth level hfits t ht line hline
    obtain ⟨hs, hrest⟩ := List.forall_mem_cons.1 hfits
    rcases List.mem_cons.1 ht with rfl | ht
    · exact ⟨level, List.mem_flatMap.2 ⟨t, List.mem_cons_self .., firstLine_mem hline⟩⟩
    rcases List.mem_append.1 ht with ht | ht
    · cases hb : s.blocks with
      | nil =>
        rw [hb] at hi
        cases hi
        exact absurd ht List.not_mem_nil
      | cons x xs =>
        have hx := hs x (by rw [hb]; exact List.mem_cons_self ..)
        obtain ⟨d, rfl⟩ : ∃ d, depth = d + 1 := ⟨depth - 1, by omega⟩
        have hinner : ∀ u ∈ s.blocks.flatMap p.statements, ∀ y ∈ u.blocks,
            low ≤ y.index ∧ y.index < high ∧ high ≤ y.index + d := by
          intro u hu y hy
          obtain ⟨z, hz, hu⟩ := List.mem_flatMap.1 hu
          have hbound := hs z hz
          have hnext := hdeeper z hbound.1 hbound.2.1 u hu y hy
          omega
        have hlines := @ihi d (level + 1) hinner t ht line hline
        obtain ⟨level', hin⟩ := hlines
        obtain ⟨u, hu, hin⟩ := List.mem_flatMap.1 hin
        obtain ⟨z, hz, hu⟩ := List.mem_flatMap.1 hu
        refine ⟨level', List.mem_flatMap.2 ⟨s, List.mem_cons_self .., block_mem hz ?_⟩⟩
        rw [blockLines_succ]
        exact List.mem_flatMap.2 ⟨u, hu, hin⟩
    · obtain ⟨level', hin⟩ := ihr hrest t ht line hline
      rw [List.flatMap_cons]
      exact ⟨level', List.mem_append_right _ hin⟩

/-- Every statement in the blocks of a function has its line in the text of the body. -/
theorem mem_bodyLines {high : Nat} {b : BlockId} {all : List Stmt} (hhigh : high ≤ p.blocks.size)
    (hb : b.index < high)
    (hdeeper : ∀ c : BlockId, b.index ≤ c.index → c.index < high →
      ∀ s ∈ p.statements c, ∀ x ∈ s.blocks, c.index < x.index ∧ x.index < high)
    (h : Lower.Nested p.statements (p.statements b) all) :
    ∀ s ∈ all, ∀ line, s.firstLine? = some line →
      ∃ level, indentLine level line ∈ p.bodyLines b := by
  obtain ⟨depth, hdepth⟩ : ∃ depth, p.blocks.size = depth + 1 := ⟨p.blocks.size - 1, by omega⟩
  unfold bodyLines
  rw [hdepth, blockLines_succ]
  refine mem_lines hdeeper h ?_
  intro s hs x hx
  have hbound := hdeeper b (Nat.le_refl _) hb s hs x hx
  omega

end Program

end C

end MiddleEnd
