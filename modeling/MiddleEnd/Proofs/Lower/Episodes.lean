/-
  What happens to statements over any sequence of the operations on open blocks and on functions
  being filled, whether they succeed or fail. A block may be opened several times, so a statement
  belongs to an opening of a block and not just to a block: to the one that is innermost when the
  statement is added. Which opening that is can be read off the operations alone, by going back
  from the last one and stepping over what was opened and closed again (`opening`).

  Every open block holds exactly the statements added while its opening was innermost, and closing
  it puts these at the end of the block (`block_gets_what_was_added`). The blocks and their
  statements may as well be kept on two stacks of their own, as these never differ in depth.
-/
import MiddleEnd.Proofs.Lower.Run

namespace MiddleEnd.Lower

/-! ## Operations -/

inductive Operation
  | newBlock
  | pushBlock (b : C.BlockId)
  | addStmt (s : C.Stmt)
  | popBlock
  | enclosing
  | pushFunction (a : Activation)
  | popFunction
  | activation

namespace Operation

/-- The operation as a step of lowering, without its answer. -/
def act : Operation → Lower Unit
  | newBlock => discard (build (·.newBlock))
  | pushBlock b => Lower.pushBlock b
  | addStmt s => Lower.addStmt s
  | popBlock => discard Lower.popBlock
  | enclosing => discard (return (← get).enclosing?)
  | pushFunction a => Lower.pushFunction a
  | popFunction => discard Lower.popFunction
  | activation => discard Lower.activation

/-- What the operation ends with. -/
def outcome (op : Operation) (l : Lowering) : Except Fault Unit := (op.act.run.run l).1

/-- The state that the operation leaves, also where it fails. -/
def next (op : Operation) (l : Lowering) : Lowering := (op.act.run.run l).2

end Operation

/-- The state after operations, the last of which comes first in the list. -/
def after (l : Lowering) : List Operation → Lowering
  | [] => l
  | op :: past => op.next (after l past)

/-! ## Two stacks -/

/-- The open blocks and their statements so far on stacks of their own, beside the functions being
filled and the program. -/
structure Stacks where
  scopes : List C.BlockId
  pending : List (List C.Stmt)
  active : List Activation
  c : C.Program

namespace Stacks

def ofLowering (l : Lowering) : Stacks :=
  ⟨l.blocks.map (·.block), l.blocks.map (·.pending), l.active, l.c⟩

/-- What an operation on the stacks ends with and leaves. Adding a statement looks at the lists of
statements only, and closing a block takes the top off each stack before it turns out whether there
are both. -/
def step (p : Stacks) : Operation → Except Fault Unit × Stacks
  | .newBlock => (.ok (), { p with c := p.c.newBlock.2 })
  | .pushBlock b => (.ok (), { p with scopes := b :: p.scopes, pending := [] :: p.pending })
  | .addStmt s =>
    match p.pending with
    | [] => (.error (.internal .statementOutsideBlock), p)
    | ss :: rest => (.ok (), { p with pending := (ss ++ [s]) :: rest })
  | .popBlock =>
    let popped := { p with scopes := p.scopes.tail, pending := p.pending.tail }
    match p.scopes.head?, p.pending.head? with
    | some b, some ss => (.ok (), { popped with c := p.c.extendBlock b ss })
    | _, _ => (.error (.internal .noOpenBlock), popped)
  | .enclosing => (.ok (), p)
  | .pushFunction a => (.ok (), { p with active := a :: p.active })
  | .popFunction =>
    match p.active with
    | [] => (.error (.internal .noFunctionToLeave), p)
    | _ :: rest => (.ok (), { p with active := rest })
  | .activation =>
    match p.active with
    | [] => (.error (.internal .noActiveFunction), p)
    | _ :: _ => (.ok (), p)

/-- The stacks after operations, the last of which comes first in the list. -/
def after (p : Stacks) : List Operation → Stacks
  | [] => p
  | op :: past => ((p.after past).step op).2

end Stacks

/-! ## Openings -/

/-- An opening of a block: the one of the block that is open at the start with so many open blocks
inside it, or the one by the operation that comes after so many others. -/
inductive Opening
  | initial (position : Nat)
  | later (time : Nat) (block : C.BlockId)
  deriving DecidableEq

namespace Opening

/-- The block that is opened; none, if fewer blocks than that are open at the start. -/
def block? (l : Lowering) : Opening → Option C.BlockId
  | initial position => l.blocks[position]?.map (·.block)
  | later _ b => some b

/-- The statements that wait at the start. -/
def initially (l : Lowering) : Opening → List C.Stmt
  | initial position => (l.blocks[position]?.map (·.pending)).getD []
  | later .. => []

end Opening

/-- The opening of the block that is open after these operations with so many open blocks inside
it. -/
def opening : List Operation → Nat → Opening
  | [], n => .initial n
  | .pushBlock b :: past, 0 => .later past.length b
  | .pushBlock _ :: past, n + 1 => opening past n
  | .popBlock :: past, n => opening past (n + 1)
  | _ :: past, n => opening past n

/-- The statements added while this opening was innermost, in the order in which they were added,
after those that waited at the start. -/
def added (l : Lowering) (o : Opening) : List Operation → List C.Stmt
  | [] => o.initially l
  | .addStmt s :: past => added l o past ++ if opening past 0 = o then [s] else []
  | _ :: past => added l o past

/-- The statements of the openings of `b` that were closed, in the order in which they were
closed. -/
def attached (l : Lowering) (b : C.BlockId) : List Operation → List C.Stmt
  | [] => []
  | .popBlock :: past =>
    attached l b past ++
      if (opening past 0).block? l = some b then added l (opening past 0) past else []
  | _ :: past => attached l b past

/-- Every block that is open at the start or opened by an operation exists by then. -/
def BlocksExist (l : Lowering) : List Operation → Prop
  | [] => ∀ o ∈ l.blocks, o.block.index < l.c.blocks.size
  | .pushBlock b :: past => b.index < (after l past).c.blocks.size ∧ BlocksExist l past
  | _ :: past => BlocksExist l past

/-! ## What an operation leaves -/

namespace Operation

variable {l : Lowering} {o : OpenBlock} {rest : List OpenBlock}

theorem run_addStmt_nil (s : C.Stmt) (h : l.blocks = []) :
    (addStmt s).act.run.run l = (.error (.internal .statementOutsideBlock), l) := by
  cases l
  cases h
  rfl

theorem run_addStmt_cons (s : C.Stmt) (h : l.blocks = o :: rest) :
    (addStmt s).act.run.run l =
      (.ok (), { l with blocks := ⟨o.block, o.pending ++ [s]⟩ :: rest }) :=
  runs_addStmt.2 ⟨o, rest, h, rfl⟩

theorem run_popBlock_nil (h : l.blocks = []) :
    popBlock.act.run.run l = (.error (.internal .noOpenBlock), l) := by
  cases l
  cases h
  rfl

theorem run_popBlock_cons (h : l.blocks = o :: rest) :
    popBlock.act.run.run l = (.ok (), { l with
      blocks := rest
      events := l.events ++ [.blockClosed o.pending.length]
      c := l.c.extendBlock o.block o.pending }) :=
  runs_discard.2 ⟨o.block, runs_popBlock.2 ⟨o, rest, h, rfl, rfl⟩⟩

theorem run_popFunction_nil (h : l.active = []) :
    popFunction.act.run.run l = (.error (.internal .noFunctionToLeave), l) := by
  cases l
  cases h
  rfl

theorem run_popFunction_cons {a : Activation} {rest : List Activation} (h : l.active = a :: rest) :
    popFunction.act.run.run l = (.ok (), { l with active := rest }) :=
  runs_discard.2 ⟨a, runs_popFunction.2 ⟨rest, h, rfl⟩⟩

theorem run_activation_nil (h : l.active = []) :
    activation.act.run.run l = (.error (.internal .noActiveFunction), l) := by
  cases l
  cases h
  rfl

theorem run_activation_cons {a : Activation} {rest : List Activation} (h : l.active = a :: rest) :
    activation.act.run.run l = (.ok (), l) :=
  runs_discard.2 ⟨a, runs_activation.2 ⟨by rw [h]; rfl, rfl⟩⟩

end Operation

/-- The stacks go through an operation as the open blocks do. -/
theorem Stacks.step_ofLowering (l : Lowering) (op : Operation) :
    (ofLowering l).step op = (op.outcome l, ofLowering (op.next l)) := by
  unfold Operation.outcome Operation.next
  cases op with
  | newBlock => rfl
  | pushBlock b => rfl
  | enclosing => rfl
  | pushFunction a => rfl
  | addStmt s =>
    cases h : l.blocks with
    | nil => simp [Operation.run_addStmt_nil s h, step, ofLowering, h]
    | cons o rest => simp [Operation.run_addStmt_cons s h, step, ofLowering, h]
  | popBlock =>
    cases h : l.blocks with
    | nil => simp [Operation.run_popBlock_nil h, step, ofLowering, h]
    | cons o rest => simp [Operation.run_popBlock_cons h, step, ofLowering, h]
  | popFunction =>
    cases h : l.active with
    | nil => simp [Operation.run_popFunction_nil h, step, ofLowering, h]
    | cons a rest => simp [Operation.run_popFunction_cons h, step, ofLowering, h]
  | activation =>
    cases h : l.active with
    | nil => simp [Operation.run_activation_nil h, step, ofLowering, h]
    | cons a rest => simp [Operation.run_activation_cons h, step, ofLowering, h]

theorem Stacks.after_ofLowering (l : Lowering) (history : List Operation) :
    (ofLowering l).after history = ofLowering (Lower.after l history) := by
  induction history with
  | nil => rfl
  | cons op past ih =>
    rw [after, ih, step_ofLowering]
    rfl

/-- An operation that fails changes nothing. -/
theorem Operation.next_of_error {op : Operation} {l : Lowering} {f : Fault}
    (h : op.outcome l = .error f) : op.next l = l := by
  unfold Operation.outcome at h
  unfold Operation.next
  cases op with
  | newBlock => cases h
  | pushBlock b => cases h
  | enclosing => cases h
  | pushFunction a => cases h
  | addStmt s =>
    cases hb : l.blocks with
    | nil => rw [run_addStmt_nil s hb]
    | cons o rest =>
      rw [run_addStmt_cons s hb] at h
      cases h
  | popBlock =>
    cases hb : l.blocks with
    | nil => rw [run_popBlock_nil hb]
    | cons o rest =>
      rw [run_popBlock_cons hb] at h
      cases h
  | popFunction =>
    cases ha : l.active with
    | nil => rw [run_popFunction_nil ha]
    | cons a rest =>
      rw [run_popFunction_cons ha] at h
      cases h
  | activation =>
    cases ha : l.active with
    | nil => rw [run_activation_nil ha]
    | cons a rest =>
      rw [run_activation_cons ha] at h
      cases h

/-! ## Openings and what was added during them -/

theorem time_lt_length {past : List Operation} {n time : Nat} {b : C.BlockId}
    (h : opening past n = .later time b) : time < past.length := by
  induction past generalizing n with
  | nil => cases h
  | cons op past ih =>
    rw [List.length_cons]
    cases op with
    | pushBlock c =>
      cases n with
      | zero =>
        cases h
        exact Nat.lt_succ_self _
      | succ n => exact Nat.lt_succ_of_lt (ih h)
    | _ => exact Nat.lt_succ_of_lt (ih h)

/-- Blocks that are open at a time are open through different openings. -/
theorem opening_injective {past : List Operation} {n m : Nat}
    (h : opening past n = opening past m) : n = m := by
  induction past generalizing n m with
  | nil => exact Opening.initial.inj h
  | cons op past ih =>
    cases op with
    | pushBlock b =>
      cases n with
      | zero =>
        cases m with
        | zero => rfl
        | succ m =>
          have hlt : past.length < past.length := time_lt_length h.symm
          exact absurd hlt (Nat.lt_irrefl _)
      | succ n =>
        cases m with
        | zero =>
          have hlt : past.length < past.length := time_lt_length h
          exact absurd hlt (Nat.lt_irrefl _)
        | succ m => exact congrArg Nat.succ (ih h)
    | popBlock => exact Nat.succ.inj (ih h)
    | _ => exact ih h

/-- Nothing has been added during an opening that is still to come. -/
theorem added_eq_nil {l : Lowering} {past : List Operation} {time : Nat} {b : C.BlockId}
    (h : past.length ≤ time) : added l (.later time b) past = [] := by
  induction past with
  | nil => rfl
  | cons op past ih =>
    have hlt : past.length ≤ time := Nat.le_of_succ_le h
    cases op with
    | addStmt s =>
      have hne : opening past 0 ≠ .later time b := fun he =>
        absurd (time_lt_length he) (Nat.not_lt.2 hlt)
      rw [added, ih hlt, if_neg hne, List.nil_append]
    | _ => exact ih hlt

variable {l : Lowering}

theorem next_popFunction : (Operation.popFunction.next l).blocks = l.blocks ∧
    (Operation.popFunction.next l).c = l.c := by
  unfold Operation.next
  cases h : l.active with
  | nil => rw [Operation.run_popFunction_nil h]; exact ⟨rfl, rfl⟩
  | cons a rest => rw [Operation.run_popFunction_cons h]; exact ⟨rfl, rfl⟩

theorem next_activation : Operation.activation.next l = l := by
  unfold Operation.next
  cases h : l.active with
  | nil => rw [Operation.run_activation_nil h]
  | cons a rest => rw [Operation.run_activation_cons h]

/-- Every open block holds what was added while its opening was innermost. -/
theorem blocks_after (l : Lowering) (history : List Operation) (n : Nat) :
    (after l history).blocks[n]? = ((opening history n).block? l).map fun b =>
      ⟨b, added l (opening history n) history⟩ := by
  induction history generalizing n with
  | nil =>
    change l.blocks[n]? = (l.blocks[n]?.map (·.block)).map _
    cases h : l.blocks[n]? with
    | none => rfl
    | some o => simp [opening, added, Opening.initially, h]
  | cons op past ih =>
    change (op.next (after l past)).blocks[n]? = _
    cases op with
    | newBlock => exact ih n
    | enclosing => exact ih n
    | pushFunction a => exact ih n
    | popFunction =>
      rw [next_popFunction.1]
      exact ih n
    | activation =>
      rw [next_activation]
      exact ih n
    | pushBlock b =>
      cases n with
      | zero =>
        change some (⟨b, []⟩ : OpenBlock) = some ⟨b, added l (.later past.length b) past⟩
        rw [added_eq_nil (Nat.le_refl _)]
      | succ n => exact ih n
    | addStmt s =>
      change _ = ((opening past n).block? l).map fun b => (⟨b, added l (opening past n) past ++
        if opening past 0 = opening past n then [s] else []⟩ : OpenBlock)
      cases h : (after l past).blocks with
      | nil =>
        have hn := ih n
        rw [h, List.getElem?_nil, eq_comm, Option.map_eq_none_iff] at hn
        rw [Operation.next, Operation.run_addStmt_nil s h, h, hn]
        rfl
      | cons o rest =>
        have hn := ih n
        rw [Operation.next, Operation.run_addStmt_cons s h]
        rw [h] at hn
        cases n with
        | zero =>
          rw [List.getElem?_cons_zero, eq_comm, Option.map_eq_some_iff] at hn
          obtain ⟨b, hb, rfl⟩ := hn
          rw [hb, if_pos rfl]
          rfl
        | succ n =>
          rw [if_neg fun he => Nat.succ_ne_zero n (opening_injective he).symm]
          simpa using hn
    | popBlock =>
      have hn := ih (n + 1)
      change _ = ((opening past (n + 1)).block? l).map fun b =>
        (⟨b, added l (opening past (n + 1)) past⟩ : OpenBlock)
      rw [← hn, Operation.next]
      cases h : (after l past).blocks with
      | nil => rw [Operation.run_popBlock_nil h, h, List.getElem?_nil, List.getElem?_nil]
      | cons o rest => rw [Operation.run_popBlock_cons h, List.getElem?_cons_succ]

/-! ## What closing puts into blocks -/

theorem statements_newBlock (p : C.Program) (b : C.BlockId) :
    p.newBlock.2.statements b = p.statements b := by
  change ((p.blocks.push [])[b.index]?).getD [] = (p.blocks[b.index]?).getD []
  rw [Array.getElem?_push]
  split
  · next h => rw [h, Array.getElem?_eq_none (Nat.le_refl _)]; rfl
  · rfl

theorem statements_extendBlock (p : C.Program) {b : C.BlockId} (c : C.BlockId)
    (ss : List C.Stmt) (hb : b.index < p.blocks.size) :
    (p.extendBlock b ss).statements c = p.statements c ++ if b = c then ss else [] := by
  change ((p.blocks.modify b.index (· ++ ss))[c.index]?).getD [] =
    (p.blocks[c.index]?).getD [] ++ _
  rw [Array.getElem?_modify]
  by_cases hbc : b = c
  · subst hbc
    rw [if_pos rfl, if_pos rfl, Array.getElem?_eq_getElem hb]
    rfl
  · rw [if_neg hbc, List.append_nil, if_neg]
    intro hi
    cases b
    cases c
    cases hi
    exact hbc rfl

/-- Every block that is open has been made. -/
theorem exists_open {l : Lowering} {history : List Operation} (h : BlocksExist l history) :
    ∀ o ∈ (after l history).blocks, o.block.index < (after l history).c.blocks.size := by
  induction history with
  | nil => exact h
  | cons op past ih =>
    intro o ho
    change o ∈ (op.next (after l past)).blocks at ho
    change o.block.index < (op.next (after l past)).c.blocks.size
    cases op with
    | newBlock =>
      change _ < ((after l past).c.blocks.push []).size
      rw [Array.size_push]
      exact Nat.lt_succ_of_lt (ih h o ho)
    | enclosing => exact ih h o ho
    | pushFunction a => exact ih h o ho
    | popFunction =>
      rw [next_popFunction.1] at ho
      rw [next_popFunction.2]
      exact ih h o ho
    | activation =>
      rw [next_activation] at ho ⊢
      exact ih h o ho
    | pushBlock b =>
      obtain ⟨hb, h⟩ := h
      rcases List.mem_cons.1 ho with rfl | ho
      · exact hb
      · exact ih h o ho
    | addStmt s =>
      rw [Operation.next] at ho ⊢
      cases hp : (after l past).blocks with
      | nil =>
        rw [Operation.run_addStmt_nil s hp] at ho ⊢
        exact ih h o ho
      | cons q rest =>
        rw [Operation.run_addStmt_cons s hp] at ho ⊢
        rcases List.mem_cons.1 ho with rfl | ho
        · exact ih h q (hp ▸ List.mem_cons_self)
        · exact ih h o (hp ▸ List.mem_cons_of_mem q ho)
    | popBlock =>
      rw [Operation.next] at ho ⊢
      cases hp : (after l past).blocks with
      | nil =>
        rw [Operation.run_popBlock_nil hp] at ho ⊢
        exact ih h o ho
      | cons q rest =>
        rw [Operation.run_popBlock_cons hp] at ho ⊢
        change _ < ((after l past).c.blocks.modify q.block.index (· ++ q.pending)).size
        rw [Array.size_modify]
        exact ih h o (hp ▸ List.mem_cons_of_mem q ho)

/-- Blocks get what their closed openings held, and nothing else. -/
theorem statements_after {l : Lowering} {history : List Operation} (h : BlocksExist l history)
    (b : C.BlockId) :
    (after l history).c.statements b = l.c.statements b ++ attached l b history := by
  induction history with
  | nil => exact (List.append_nil _).symm
  | cons op past ih =>
    change (op.next (after l past)).c.statements b = _
    cases op with
    | newBlock => exact (statements_newBlock _ b).trans (ih h)
    | enclosing => exact ih h
    | pushFunction a => exact ih h
    | pushBlock c => exact ih h.2
    | popFunction =>
      rw [next_popFunction.2]
      exact ih h
    | activation =>
      rw [next_activation]
      exact ih h
    | addStmt s =>
      rw [Operation.next]
      cases hp : (after l past).blocks with
      | nil =>
        rw [Operation.run_addStmt_nil s hp]
        exact ih h
      | cons o rest =>
        rw [Operation.run_addStmt_cons s hp]
        exact ih h
    | popBlock =>
      have h : BlocksExist l past := h
      have htop := blocks_after l past 0
      change _ = _ ++ (attached l b past ++
        if (opening past 0).block? l = some b then added l (opening past 0) past else [])
      rw [← List.append_assoc, ← ih h, Operation.next]
      cases hp : (after l past).blocks with
      | nil =>
        rw [hp, List.getElem?_nil, eq_comm, Option.map_eq_none_iff] at htop
        rw [Operation.run_popBlock_nil hp, htop, if_neg nofun, List.append_nil]
      | cons o rest =>
        rw [hp, List.getElem?_cons_zero, eq_comm, Option.map_eq_some_iff] at htop
        obtain ⟨c, hc, rfl⟩ := htop
        rw [Operation.run_popBlock_cons hp, hc]
        refine (statements_extendBlock _ b _
          (exists_open h ⟨c, _⟩ (hp ▸ List.mem_cons_self))).trans ?_
        simp only [Option.some.injEq]

/-- For every sequence of operations from every state: open blocks and lists of waiting statements
on two stacks stay equally deep, and hold together what the list of open blocks holds; an operation
that fails leaves the state as it was; an open block holds the statements added while its opening
was innermost; and blocks get exactly the statements of their closed openings, one opening after
the other in the order of closing. -/
theorem block_gets_what_was_added (l : Lowering) (history : List Operation) :
    ((Stacks.ofLowering l).after history = .ofLowering (after l history) ∧
      ((Stacks.ofLowering l).after history).scopes.length =
        ((Stacks.ofLowering l).after history).pending.length) ∧
    (∀ op f, op.outcome (after l history) = .error f →
      op.next (after l history) = after l history ∧
      (((Stacks.ofLowering l).after history).step op) =
        (.error f, (Stacks.ofLowering l).after history)) ∧
    (∀ n, (after l history).blocks[n]? = ((opening history n).block? l).map fun b =>
      ⟨b, added l (opening history n) history⟩) ∧
    (BlocksExist l history → ∀ b,
      (after l history).c.statements b = l.c.statements b ++ attached l b history) := by
  have hstacks := Stacks.after_ofLowering l history
  refine ⟨⟨hstacks, ?_⟩, fun op f hf => ?_, blocks_after l history, statements_after⟩
  · rw [hstacks, Stacks.ofLowering, List.length_map, List.length_map]
  · have hnext := Operation.next_of_error hf
    rw [hstacks, Stacks.step_ofLowering, hf, hnext]
    exact ⟨rfl, rfl⟩

/-- A function is entered; block 0 is opened, block 1 is opened and closed in it, and once it is
closed a statement is added in vain and it is opened and closed again; then there is nothing left to
close. -/
def reopening : List Operation :=
  [.popBlock, .popBlock, .addStmt (line "e"), .pushBlock ⟨0⟩, .addStmt (line "d"), .popBlock,
    .addStmt (line "c"), .popBlock, .enclosing, .addStmt (line "b"), .pushBlock ⟨1⟩, .newBlock,
    .addStmt (line "a"), .pushBlock ⟨0⟩, .newBlock, .activation, .pushFunction ⟨⟨0⟩, none⟩]
where
  line (name : String) : C.Stmt := .expr (.verbatim name)

theorem block_gets_what_was_added_reopening :
    BlocksExist (.empty "t") reopening ∧
    (after (.empty "t") reopening).c.statements ⟨0⟩ = attached (.empty "t") ⟨0⟩ reopening ∧
    (attached (.empty "t") ⟨0⟩ reopening).map C.Stmt.line? = [some "a;", some "c;", some "e;"] ∧
    (attached (.empty "t") ⟨1⟩ reopening).map C.Stmt.line? = [some "b;"] := by
  have hexist : BlocksExist (.empty "t") reopening := ⟨by decide, by decide, by decide, nofun⟩
  exact ⟨hexist, (block_gets_what_was_added (.empty "t") reopening).2.2.2 hexist ⟨0⟩,
    by decide +kernel, by decide +kernel⟩

end MiddleEnd.Lower
