/-
  Blocks that form a forest: each one is the body of a function or stands in a statement of an
  earlier block, and there is one reference to each (`Program.Forest`). Such blocks can be written
  without a limit on the depth, and every statement is then written exactly once.
-/
import Mathlib.Data.Multiset.Bind
import Mathlib.Data.Multiset.Range
import MiddleEnd.Proofs.C.Lines

namespace MiddleEnd.C

namespace Program

variable {p : Program}

/-! ## References -/

/-- The blocks that have been made. -/
def handles (p : Program) : Multiset BlockId := (Multiset.range p.blocks.size).map BlockId.mk

/-- The blocks in the statements of a block. -/
def inner (p : Program) (b : BlockId) : Multiset BlockId := (p.statements b).flatMap Stmt.blocks

/-- The blocks that are bodies of functions. -/
def bodies (p : Program) : Multiset BlockId := p.functions.toList.filterMap (·.body)

/-- All references to blocks, by functions and by statements of blocks. -/
def blockReferences (p : Program) : Multiset BlockId := p.bodies + p.handles.bind p.inner

/-- Every block is referred to exactly once, and a block in a statement is newer than the block
which that statement stands in. -/
structure Forest (p : Program) : Prop where
  once : ∀ b : BlockId, b.index < p.blocks.size → p.blockReferences.count b = 1
  inside : ∀ b ∈ p.blockReferences, b.index < p.blocks.size
  deeper : ∀ b : BlockId, ∀ x ∈ p.inner b, b.index < x.index

theorem mem_handles {b : BlockId} : b ∈ p.handles ↔ b.index < p.blocks.size := by
  unfold handles
  rw [Multiset.mem_map]
  constructor
  · rintro ⟨i, hi, rfl⟩
    exact Multiset.mem_range.1 hi
  · exact fun hb => ⟨b.index, Multiset.mem_range.2 hb, rfl⟩

theorem nodup_handles (p : Program) : p.handles.Nodup :=
  (Multiset.nodup_range _).map fun _ _ h => congrArg BlockId.index h

/-- Blocks that were never made have no statements. -/
theorem statements_of_le {b : BlockId} (h : p.blocks.size ≤ b.index) : p.statements b = [] := by
  unfold statements
  rw [Array.getElem?_eq_none h]
  rfl

theorem mem_inner {b x : BlockId} : x ∈ p.inner b ↔ ∃ s ∈ p.statements b, x ∈ s.blocks :=
  List.mem_flatMap

theorem lt_of_mem_inner {b x : BlockId} (h : x ∈ p.inner b) : b.index < p.blocks.size := by
  obtain ⟨s, hs, _⟩ := mem_inner.1 h
  by_contra hb
  rw [statements_of_le (Nat.le_of_not_lt hb)] at hs
  exact absurd hs List.not_mem_nil

theorem Forest.of_blockReferences (h : p.blockReferences = p.handles)
    (hd : ∀ b : BlockId, ∀ x ∈ p.inner b, b.index < x.index) : p.Forest where
  once b hb := by
    rw [h]
    exact Multiset.count_eq_one_of_mem p.nodup_handles (mem_handles.2 hb)
  inside b hb := by
    rw [h] at hb
    exact mem_handles.1 hb
  deeper := hd

theorem Forest.blockReferences (h : p.Forest) : p.blockReferences = p.handles := by
  ext b
  by_cases hb : b.index < p.blocks.size
  · rw [h.once b hb, Multiset.count_eq_one_of_mem p.nodup_handles (mem_handles.2 hb)]
  · rw [Multiset.count_eq_zero_of_notMem fun hm => hb (h.inside b hm),
      Multiset.count_eq_zero_of_notMem fun hm => hb (mem_handles.1 hm)]

/-! ## Depth -/

/-- No block contains itself, however deep one looks. -/
theorem Forest.wellFounded (h : p.Forest) : WellFounded fun x b : BlockId => x ∈ p.inner b := by
  refine Subrelation.wf (r := InvImage (· < ·) fun b : BlockId => p.blocks.size - b.index) ?_
    (InvImage.wf _ Nat.lt_wfRel.wf)
  intro x b hx
  have hdeeper := h.deeper b x hx
  have hlt := lt_of_mem_inner hx
  show p.blocks.size - x.index < p.blocks.size - b.index
  omega

theorem stmtLines_congr {depth depth' level : Nat} {s : Stmt}
    (h : ∀ x ∈ s.blocks, p.blockLines depth (level + 1) x = p.blockLines depth' (level + 1) x) :
    p.stmtLines depth level s = p.stmtLines depth' level s := by
  cases s with
  | block b => rw [stmtLines, stmtLines, h b (List.mem_singleton_self b)]
  | branch condition x y =>
    cases y with
    | none => rw [stmtLines, stmtLines, h x (List.mem_singleton_self x)]
    | some y =>
      rw [stmtLines, stmtLines, h x (List.mem_cons_self ..),
        h y (List.mem_cons_of_mem _ (List.mem_singleton_self y))]
  | _ => rfl

/-- Nothing is gained by going deeper than there are newer blocks. -/
theorem Forest.blockLines_enough (h : p.Forest) : ∀ (depth level : Nat) (b : BlockId),
    p.blocks.size ≤ b.index + depth →
      p.blockLines (depth + 1) level b = p.blockLines depth level b
  | 0, level, b, hb => by
    have hnone : p.statements b = [] := statements_of_le hb
    rw [blockLines_succ, hnone]
    rfl
  | depth + 1, level, b, hb => by
    rw [blockLines_succ, blockLines_succ]
    refine List.flatMap_congr fun s hs => stmtLines_congr fun x hx => ?_
    have hdeeper := h.deeper b x (mem_inner.2 ⟨s, hs, hx⟩)
    exact h.blockLines_enough depth (level + 1) x (by omega)

/-- The lines of a block are those of its statements, with nothing cut off. -/
theorem Forest.blockLines_eq (h : p.Forest) (level : Nat) (b : BlockId) :
    p.blockLines p.blocks.size level b =
      (p.statements b).flatMap (p.stmtLines p.blocks.size level) := by
  rw [← h.blockLines_enough p.blocks.size level b (Nat.le_add_left ..), blockLines_succ]

/-! ## Places -/

end Program

/-- Where a statement stands: the block, and the number of statements before it there. -/
structure Place where
  block : BlockId
  position : Nat
  deriving DecidableEq, Repr

/-- Lines of text; the first line of a statement is marked with its place. -/
abbrev Marked := List (Option Place × String)

/-- The places that are marked. -/
def Marked.places (m : Marked) : List Place := m.filterMap (·.1)

/-- The text alone. -/
def Marked.text (m : Marked) : List String := m.map (·.2)

/-- The lines of a statement, if `inner` has those of its blocks. -/
def Stmt.marked (inner : BlockId → Marked) (level : Nat) (place : Place) : Stmt → Marked
  | .block b =>
    (some place, indentLine level "\x7b") :: (inner b ++ [(none, indentLine level "\x7d")])
  | .branch condition thenBody elseBody =>
    let otherwise := match elseBody with
      | some e => (none, indentLine level "\x7d else \x7b") :: inner e
      | none => []
    (some place, indentLine level s!"if ({condition.text}) \x7b") ::
      (inner thenBody ++ otherwise ++ [(none, indentLine level "\x7d")])
  | s => (s.line?.map fun line => (some place, indentLine level line)).toList

namespace Program

variable {p : Program}

/-- The lines of a block and of the blocks in it, down to a depth. -/
def markedLines (p : Program) : (depth : Nat) → (level : Nat) → BlockId → Marked
  | 0, _, _ => []
  | depth + 1, level, b => (p.statements b).zipIdx.flatMap fun (s, i) =>
    s.marked (p.markedLines depth (level + 1)) level ⟨b, i⟩

/-- The lines of a function. -/
def markedFunction (p : Program) (f : FunctionId) : Marked :=
  match p.functions[f.index]? with
  | some f =>
    match f.body with
    | some body => (none, s!"{p.prototype f} \x7b") ::
      (p.markedLines p.blocks.size 1 body ++ [(none, "\x7d"), (none, "")])
    | none => []
  | none => []

/-- The lines of functions. -/
def markedFunctions (p : Program) (fs : List FunctionId) : Marked := fs.flatMap p.markedFunction

/-- The places of the statements of a block. -/
def placesIn (p : Program) (b : BlockId) : Multiset Place :=
  (Multiset.range (p.statements b).length).map (Place.mk b)

/-- The places of all statements. -/
def places (p : Program) : Multiset Place := p.handles.bind p.placesIn

/-- The places of the statements of a block and of the blocks in it, down to a depth. -/
def placesWithin (p : Program) : (depth : Nat) → BlockId → Multiset Place
  | 0, _ => 0
  | depth + 1, b => p.placesIn b + (p.inner b).bind (p.placesWithin depth)

/-! ### Marks and text -/

theorem text_marked {depth level : Nat} {inner : BlockId → Marked} (place : Place) (s : Stmt)
    (h : ∀ b, (inner b).text = p.blockLines depth (level + 1) b) :
    (s.marked inner level place).text = p.stmtLines depth level s := by
  unfold Marked.text at h ⊢
  cases s with
  | block b => simp [Stmt.marked, stmtLines, h]
  | branch condition x y => cases y <;> simp [Stmt.marked, stmtLines, h]
  | declare v t name init => cases init <;> rfl
  | ret value => cases value <;> rfl
  | _ => rfl

/-- Without the marks the lines are those of the block. -/
theorem text_markedLines : ∀ (depth level : Nat) (b : BlockId),
    (p.markedLines depth level b).text = p.blockLines depth level b
  | 0, _, _ => rfl
  | depth + 1, level, b => by
    have hall : ∀ (ss : List Stmt) (n : Nat), Marked.text ((ss.zipIdx n).flatMap fun (s, i) =>
        s.marked (p.markedLines depth (level + 1)) level ⟨b, i⟩) =
          ss.flatMap (p.stmtLines depth level) := by
      intro ss
      induction ss with
      | nil => exact fun _ => rfl
      | cons s rest ih =>
        intro n
        have hs := text_marked ⟨b, n⟩ s (text_markedLines depth (level + 1))
        rw [List.zipIdx_cons, List.flatMap_cons, List.flatMap_cons, ← ih (n + 1), ← hs]
        exact List.map_append ..
    rw [markedLines, blockLines_succ]
    exact hall _ 0

/-- Without the marks the lines are those of the function. -/
theorem text_markedFunction (f : FunctionId) : (p.markedFunction f).text = p.functionLines f := by
  unfold markedFunction functionLines
  cases p.functions[f.index]? with
  | none => rfl
  | some x =>
    cases hbody : x.body with
    | none =>
      dsimp only
      rw [hbody]
      rfl
    | some body =>
      have htext := text_markedLines (p := p) p.blocks.size 1 body
      unfold Marked.text at htext
      simp [hbody, Marked.text, bodyLines, htext]

theorem text_markedFunctions (fs : List FunctionId) :
    (p.markedFunctions fs).text = fs.flatMap p.functionLines := by
  unfold markedFunctions Marked.text
  rw [List.map_flatMap]
  exact List.flatMap_congr fun f _ => text_markedFunction f

theorem places_marked (inner : BlockId → Marked) (level : Nat) (place : Place) (s : Stmt) :
    (s.marked inner level place).places = place :: s.blocks.flatMap fun b => (inner b).places := by
  unfold Marked.places
  cases s with
  | block b => simp [Stmt.marked, Stmt.blocks]
  | branch condition x y => cases y <;> simp [Stmt.marked, Stmt.blocks]
  | declare v t name init => cases init <;> rfl
  | ret value => cases value <;> rfl
  | _ => rfl

/-- Every statement of a block and of the blocks in it is marked once for each time it is reached. -/
theorem places_markedLines : ∀ (depth level : Nat) (b : BlockId),
    ((p.markedLines depth level b).places : Multiset Place) = p.placesWithin depth b
  | 0, _, _ => rfl
  | depth + 1, level, b => by
    have hinner : ∀ bs : List BlockId, (bs.flatMap fun x =>
        (p.markedLines depth (level + 1) x).places : Multiset Place) =
          (bs : Multiset BlockId).bind (p.placesWithin depth) := by
      intro bs
      rw [← Multiset.coe_bind]
      exact Multiset.bind_congr fun x _ => places_markedLines depth (level + 1) x
    have hall : ∀ (ss : List Stmt) (n : Nat),
        (Marked.places ((ss.zipIdx n).flatMap fun (s, i) =>
          s.marked (p.markedLines depth (level + 1)) level ⟨b, i⟩) : Multiset Place) =
          (List.range' n ss.length).map (Place.mk b) +
            (ss.flatMap Stmt.blocks : Multiset BlockId).bind (p.placesWithin depth) := by
      intro ss
      induction ss with
      | nil => exact fun _ => rfl
      | cons s rest ih =>
        intro n
        have happend : ∀ x y : Marked, (x ++ y).places = x.places ++ y.places :=
          fun _ _ => List.filterMap_append
        rw [List.zipIdx_cons, List.flatMap_cons, happend, places_marked, List.length_cons,
          List.range'_succ, List.map_cons, List.flatMap_cons, ← Multiset.coe_add,
          ← Multiset.coe_add, Multiset.add_bind, ← Multiset.cons_coe, ← Multiset.cons_coe, ih,
          hinner, Multiset.cons_add, Multiset.cons_add, add_left_comm]
    rw [markedLines, placesWithin, hall]
    unfold placesIn
    rw [← Multiset.coe_range, Multiset.map_coe, List.range_eq_range']
    rfl

/-! ### Once each -/

theorem nodup_places (p : Program) : p.places.Nodup := by
  refine Multiset.nodup_bind.2 ⟨fun b _ => ?_, p.nodup_handles.pairwise fun b _ c _ hne => ?_⟩
  · exact (Multiset.nodup_range _).map fun _ _ h => congrArg Place.position h
  · refine Multiset.disjoint_left.mpr ?_
    intro place hb hc
    obtain ⟨_, _, rfl⟩ := Multiset.mem_map.1 hb
    obtain ⟨_, _, hplace⟩ := Multiset.mem_map.1 hc
    exact hne (congrArg Place.block hplace).symm

theorem mem_places {place : Place} :
    place ∈ p.places ↔ place.position < (p.statements place.block).length := by
  unfold places placesIn
  rw [Multiset.mem_bind]
  constructor
  · rintro ⟨b, _, hp⟩
    obtain ⟨i, hi, rfl⟩ := Multiset.mem_map.1 hp
    exact Multiset.mem_range.1 hi
  · intro hlt
    refine ⟨place.block, mem_handles.2 ?_, Multiset.mem_map.2 ⟨_, Multiset.mem_range.2 hlt, rfl⟩⟩
    by_contra hb
    rw [statements_of_le (Nat.le_of_not_lt hb)] at hlt
    exact absurd hlt (Nat.not_lt_zero _)

theorem Forest.placesWithin_enough (h : p.Forest) : ∀ (depth : Nat) (b : BlockId),
    p.blocks.size ≤ b.index + depth → p.placesWithin (depth + 1) b = p.placesWithin depth b
  | 0, b, hb => by
    have hnone : p.statements b = [] := statements_of_le hb
    unfold placesWithin placesIn inner
    rw [hnone]
    rfl
  | depth + 1, b, hb => by
    rw [placesWithin, placesWithin]
    refine congrArg (p.placesIn b + ·) (Multiset.bind_congr fun x hx => ?_)
    have hdeeper := h.deeper b x hx
    exact h.placesWithin_enough depth x (by omega)

/-- The blocks of all functions together have every statement once. -/
theorem Forest.bodies_bind (h : p.Forest) :
    p.bodies.bind (p.placesWithin p.blocks.size) = p.places := by
  have hstep : ∀ b, p.placesWithin p.blocks.size b =
      p.placesIn b + (p.inner b).bind (p.placesWithin p.blocks.size) := by
    intro b
    rw [← h.placesWithin_enough p.blocks.size b (Nat.le_add_left ..), placesWithin]
  -- every block is a body or stands in a statement, so both sides differ by the latter
  have hall : p.handles.bind (p.placesWithin p.blocks.size) =
      p.places + (p.handles.bind p.inner).bind (p.placesWithin p.blocks.size) := by
    rw [Multiset.bind_assoc]
    unfold places
    rw [← Multiset.bind_add]
    exact Multiset.bind_congr fun b _ => hstep b
  have hrefs : p.handles.bind (p.placesWithin p.blocks.size) =
      p.bodies.bind (p.placesWithin p.blocks.size) +
        (p.handles.bind p.inner).bind (p.placesWithin p.blocks.size) := by
    rw [← Multiset.add_bind]
    exact congrArg (Multiset.bind · _) h.blockReferences.symm
  exact add_right_cancel (hrefs.symm.trans hall)

/-- The body of a function, if there is one. -/
def body? (p : Program) (f : FunctionId) : Option BlockId := (p.functions[f.index]?).bind (·.body)

theorem places_markedFunction (f : FunctionId) : ((p.markedFunction f).places : Multiset Place) =
    ((p.body? f).toList : Multiset BlockId).bind (p.placesWithin p.blocks.size) := by
  unfold markedFunction body?
  cases p.functions[f.index]? with
  | none => rfl
  | some x =>
    cases hbody : x.body with
    | none =>
      dsimp only
      rw [hbody, Option.bind_some, hbody]
      rfl
    | some body =>
      dsimp only
      rw [hbody, Option.bind_some, hbody, Option.toList_some, Multiset.coe_singleton,
        Multiset.singleton_bind, ← places_markedLines p.blocks.size 1 body]
      simp [Marked.places]

theorem places_markedFunctions (fs : List FunctionId) :
    ((p.markedFunctions fs).places : Multiset Place) =
      (fs.filterMap p.body? : Multiset BlockId).bind (p.placesWithin p.blocks.size) := by
  induction fs with
  | nil => rfl
  | cons f rest ih =>
    have happend : (p.markedFunctions (f :: rest)).places =
        (p.markedFunction f).places ++ (p.markedFunctions rest).places :=
      List.filterMap_append
    have hcons : (f :: rest).filterMap p.body? =
        (p.body? f).toList ++ rest.filterMap p.body? := by
      rw [List.filterMap_cons]
      cases p.body? f <;> rfl
    rw [happend, hcons, ← Multiset.coe_add, ← Multiset.coe_add, Multiset.add_bind, ih,
      places_markedFunction]

/-- If these functions have all bodies, every statement starts exactly one of their lines. -/
theorem Forest.count_places (h : p.Forest) {fs : List FunctionId}
    (hfs : (fs.filterMap p.body? : Multiset BlockId) = p.bodies) (place : Place) :
    (p.markedFunctions fs).places.count place =
      if place.position < (p.statements place.block).length then 1 else 0 := by
  rw [← Multiset.coe_count, places_markedFunctions, hfs, h.bodies_bind]
  split
  · exact Multiset.count_eq_one_of_mem p.nodup_places (mem_places.2 ‹_›)
  · exact Multiset.count_eq_zero_of_notMem fun hm => absurd (mem_places.1 hm) ‹_›

/-! ## The text of a program -/

theorem lines_of_untilDefect : ∀ {xs : List (Except Defect String)} {ls : List String},
    untilDefect xs = (ls, none) → xs = ls.map .ok
  | [], ls, h => by
    cases h
    rfl
  | .error d :: _, _, h => by cases h
  | .ok line :: rest, ls, h => by
    unfold untilDefect at h
    rcases hrest : untilDefect rest with ⟨lines, defect⟩
    rw [hrest] at h
    cases h
    rw [lines_of_untilDefect hrest]
    rfl

/-- The text of a program that is written without a fault ends with the lines of the functions. -/
theorem output_of_written {d : Declarations} (h : (p.write d).1 = .ok ()) :
    ∃ front, (p.write d).2.output =
      String.join ((front ++ d.functions.flatMap p.functionLines).map (· ++ "\n")) := by
  unfold write at h ⊢
  rcases hd : untilDefect (p.lines d) with ⟨ls, defect⟩
  rw [hd] at h
  cases defect with
  | some e => cases h
  | none =>
    have hlines := lines_of_untilDefect hd
    unfold lines at hlines
    obtain ⟨x, y, rfl, _, hy⟩ := List.append_eq_map_iff.1 hlines
    have hback : y = p.prototypeLines d.functions ++ d.functions.flatMap p.functionLines :=
      List.map_injective_iff.2 (fun _ _ h => Except.ok.inj h) hy
    exact ⟨x ++ p.prototypeLines d.functions, by rw [hback, List.append_assoc]⟩

theorem blockLines_output (output : String) : ∀ (depth level : Nat) (b : BlockId),
    { p with output := output }.blockLines depth level b = p.blockLines depth level b
  | 0, _, _ => rfl
  | depth + 1, level, b => by
    rw [blockLines_succ, blockLines_succ]
    refine List.flatMap_congr fun s _ => ?_
    have ih := blockLines_output output depth (level + 1)
    cases s with
    | block c => rw [stmtLines, stmtLines, ih]
    | branch condition x y => cases y <;> simp only [stmtLines, ih]
    | _ => rfl

/-- The lines of a function do not depend on what was written before. -/
theorem functionLines_output (output : String) (f : FunctionId) :
    { p with output := output }.functionLines f = p.functionLines f := by
  unfold functionLines bodyLines
  simp only [blockLines_output]
  rfl

/-- The definitions of these functions, which end the text of the program, have every statement of
every block exactly once. -/
structure Printed (p : Program) (fs : List FunctionId) : Prop where
  /-- The blocks in a block can be written before it is. -/
  wellFounded : WellFounded fun x b : BlockId => x ∈ p.inner b
  /-- The lines of a block are those of its statements, with nothing cut off. -/
  lines : ∀ (level : Nat) (b : BlockId), p.blockLines p.blocks.size level b =
    (p.statements b).flatMap (p.stmtLines p.blocks.size level)
  text : ∃ front, p.output =
    String.join ((front ++ (p.markedFunctions fs).text).map (· ++ "\n"))
  once : ∀ place : Place, (p.markedFunctions fs).places.count place =
    if place.position < (p.statements place.block).length then 1 else 0

/-- A forest that is written with all its functions is printed. -/
theorem Forest.printed (h : p.Forest) {fs : List FunctionId}
    (hfs : (fs.filterMap p.body? : Multiset BlockId) = p.bodies)
    (ho : ∃ front, p.output = String.join ((front ++ fs.flatMap p.functionLines).map (· ++ "\n"))) :
    p.Printed fs := by
  refine ⟨h.wellFounded, h.blockLines_eq, ?_, h.count_places hfs⟩
  rw [text_markedFunctions]
  exact ho

end Program

end MiddleEnd.C
