/-
  The sections of the lines of a program: types, constants, variables of the whole program, and
  functions, each with what its lines declare and define and where they come from.
-/
import MiddleEnd.Proofs.C.Layout

namespace MiddleEnd

namespace C

/-- Where an element of two lists one after the other stands. -/
theorem split_append {α : Type} {xs ys before after : List α} {x : α}
    (h : xs ++ ys = before ++ x :: after) :
    (∃ rest, xs = before ++ x :: rest) ∨
      ∃ front, before = xs ++ front ∧ ys = front ++ x :: after := by
  rcases List.append_eq_append_iff.1 h with ⟨front, hfront, hys⟩ | ⟨rest, hxs, hrest⟩
  · exact .inr ⟨front, hfront, hys⟩
  · cases rest with
    | nil => exact .inr ⟨[], by rw [hxs, List.append_nil, List.append_nil], hrest.symm⟩
    | cons y rest =>
      obtain ⟨rfl, -⟩ := List.cons.inj hrest
      exact .inl ⟨rest, hxs⟩

/-- Where an element of a list comes from that is made from another list. -/
theorem split_filterMap {α β : Type} {f : α → Option β} {xs : List α} {before after : List β}
    {y : β} (h : xs.filterMap f = before ++ y :: after) :
    ∃ front x rest, xs = front ++ x :: rest ∧ front.filterMap f = before ∧ f x = some y := by
  obtain ⟨front, back, rfl, rfl, hback⟩ := List.filterMap_eq_append_iff.1 h
  obtain ⟨skipped, x, rest, rfl, hnone, hx, -⟩ := List.filterMap_eq_cons_iff.1 hback
  refine ⟨front ++ skipped, x, rest, List.append_assoc .. |>.symm, ?_, hx⟩
  rw [List.filterMap_append, List.filterMap_eq_nil_iff.2 hnone, List.append_nil]

namespace Line

/-- The definition of a type. -/
def typeDef? : Line → Option TypeDef
  | typeDef d => some d
  | _ => none

theorem defines?_eq (line : Line) : line.defines? = line.typeDef?.map TypeDef.name := by
  cases line <;> rfl

/-- The declaration of a constant. -/
def isConstant : Line → Bool
  | constant .. => true
  | _ => false

end Line

namespace Program

variable {p : Program} {d : Declarations}

/-- The lines before the first constant. -/
def front (p : Program) (d : Declarations) : List Line :=
  p.headerLines.map .plain ++ p.typeLayout d.types

/-- The lines behind the last variable of the whole program. -/
def back (p : Program) (d : Declarations) : List Line :=
  .plain "" :: (p.prototypeLayout d.functions ++ d.functions.flatMap p.functionLayout)

theorem layout_eq : p.layout d = p.front d ++
    (d.constants.filterMap p.constant? ++ (d.vars.filterMap p.global? ++ p.back d)) := by
  simp [layout, front, back]

theorem mem_front {line : Line} (h : line ∈ p.front d) : (∃ t, line = .plain t) ∨
    (∃ name ∈ p.structNames, line = .forward name) ∨ ∃ t ∈ p.typeDefs, line = .typeDef t := by
  rcases List.mem_append.1 h with h | h
  · obtain ⟨t, _, rfl⟩ := List.mem_map.1 h
    exact .inl ⟨t, rfl⟩
  · rcases List.mem_append.1 h with h | h
    · rcases List.mem_append.1 h with h | h
      · obtain ⟨t, _, ht⟩ := List.mem_filterMap.1 h
        unfold announced? at ht
        cases t with
        | named name =>
          dsimp only at ht
          split at ht
          · cases ht
            exact .inr (.inl ⟨name, List.contains_iff_mem.1 ‹_›, rfl⟩)
          · cases ht
        | _ => cases ht
      · obtain ⟨t, ht, rfl⟩ := List.mem_map.1 h
        exact .inr (.inr ⟨t, ht, rfl⟩)
    · exact .inl ⟨_, List.mem_singleton.1 h⟩

theorem mem_prototypeLayout {line : Line} {fs : List FunctionId} (h : line ∈ p.prototypeLayout fs) :
    
    (∃ t, line = .plain t) ∨
      ∃ (f : FunctionId) (x : Function), p.functions[f.index]? = some x ∧ line = .prototype x := by
  rcases List.mem_append.1 h with h | h
  · obtain ⟨f, _, hf⟩ := List.mem_filterMap.1 h
    obtain ⟨x, hx, rfl⟩ := Option.map_eq_some_iff.1 hf
    exact .inr ⟨f, x, hx, rfl⟩
  · exact .inl ⟨_, List.mem_singleton.1 h⟩

theorem mem_constants {line : Line} {es : List Expr} (h : line ∈ es.filterMap p.constant?) :
    ∃ e ∈ es, ∃ c, p.constants.lookup e.text = some c ∧ line = .constant e.text c := by
  obtain ⟨e, he, hline⟩ := List.mem_filterMap.1 h
  obtain ⟨c, hc, rfl⟩ := Option.map_eq_some_iff.1 hline
  exact ⟨e, he, c, hc, rfl⟩

theorem mem_globals {line : Line} {vs : List VarId} (h : line ∈ vs.filterMap p.global?) :
    ∃ v ∈ vs, ∃ x g, p.vars[v.index]? = some x ∧ x.global = some g ∧ line = .global x g := by
  obtain ⟨v, hv, hline⟩ := List.mem_filterMap.1 h
  obtain ⟨x, hx, hline⟩ := Option.bind_eq_some_iff.1 hline
  obtain ⟨g, hg, rfl⟩ := Option.map_eq_some_iff.1 hline
  exact ⟨v, hv, x, g, hx, hg, rfl⟩

/-! ## What lines declare and define -/

/-- The definitions stand in the order of their creation. -/
theorem typeDefs_layout : (p.layout d).filterMap Line.typeDef? = p.typeDefs := by
  have hnone : ∀ {lines : List Line}, (∀ line ∈ lines, line.typeDef? = none) →
      lines.filterMap Line.typeDef? = [] := List.filterMap_eq_nil_iff.2
  have hheader : (p.headerLines.map Line.plain).filterMap Line.typeDef? = [] :=
    hnone fun line h => by
      obtain ⟨t, _, rfl⟩ := List.mem_map.1 h
      rfl
  have hannounced : (d.types.filterMap p.announced?).filterMap Line.typeDef? = [] :=
    hnone fun line h => by
      obtain ⟨t, _, ht⟩ := List.mem_filterMap.1 h
      unfold announced? at ht
      cases t with
      | named name =>
        dsimp only at ht
        split at ht <;> cases ht
        rfl
      | _ => cases ht
  have hdefs : ∀ defs : List TypeDef, (defs.map Line.typeDef).filterMap Line.typeDef? = defs := by
    intro defs
    rw [List.filterMap_map]
    exact List.filterMap_some
  have hconstants : (d.constants.filterMap p.constant?).filterMap Line.typeDef? = [] :=
    hnone fun line h => by
      obtain ⟨_, _, _, _, rfl⟩ := mem_constants h
      rfl
  have hglobals : (d.vars.filterMap p.global?).filterMap Line.typeDef? = [] :=
    hnone fun line h => by
      obtain ⟨_, _, _, _, _, _, rfl⟩ := mem_globals h
      rfl
  have hback : (p.back d).filterMap Line.typeDef? = [] := hnone fun line h => by
    rcases List.mem_cons.1 h with rfl | h
    · rfl
    · rcases List.mem_append.1 h with h | h
      · rcases mem_prototypeLayout h with ⟨_, rfl⟩ | ⟨_, _, _, rfl⟩ <;> rfl
      · obtain ⟨f, _, h⟩ := List.mem_flatMap.1 h
        rcases mem_functionLayout h with ⟨_, rfl⟩ | ⟨_, _, rfl⟩ | ⟨_, _, _, _, rfl⟩ <;> rfl
  rw [layout_eq, front, typeLayout]
  simp only [List.filterMap_append, hheader, hannounced, hdefs, hconstants, hglobals, hback]
  simp [Line.typeDef?]

theorem defines_eq (lines : List Line) :
    lines.filterMap Line.defines? = (lines.filterMap Line.typeDef?).map TypeDef.name := by
  rw [List.map_filterMap]
  exact List.filterMap_congr fun line _ => line.defines?_eq

/-- A constant that can be looked up is declared. -/
theorem declares_constant {es : List Expr} {name : String} {c : Constant}
    (he : .constant name ∈ es) (hc : p.constants.lookup name = some c) :
    name ∈ (es.filterMap p.constant?).filterMap Line.declares? := by
  refine List.mem_filterMap.2 ⟨.constant name c, List.mem_filterMap.2 ⟨_, he, ?_⟩, rfl⟩
  rw [constant?, Expr.text, hc]
  rfl

/-- A variable of the whole program is declared. -/
theorem declares_global {vs : List VarId} {v : VarId} {x : Variable} {g : Global} (hv : v ∈ vs)
    (hx : p.vars[v.index]? = some x) (hg : x.global = some g) :
    x.name ∈ (vs.filterMap p.global?).filterMap Line.declares? := by
  refine List.mem_filterMap.2 ⟨.global x g, List.mem_filterMap.2 ⟨v, hv, ?_⟩, rfl⟩
  rw [global?, hx, Option.bind_some, hg]
  rfl

/-- A function is declared by its prototype. -/
theorem declares_prototype {fs : List FunctionId} {f : FunctionId} {x : Function} (hf : f ∈ fs)
    (hx : p.functions[f.index]? = some x) :
    x.name ∈ (p.prototypeLayout fs).filterMap Line.declares? := by
  refine List.mem_filterMap.2 ⟨.prototype x, List.mem_append_left _ ?_, rfl⟩
  refine List.mem_filterMap.2 ⟨f, hf, ?_⟩
  rw [prototype?, hx]
  rfl

theorem declares_front : (p.front d).filterMap Line.declares? = [] :=
  List.filterMap_eq_nil_iff.2 fun line h => by
    rcases mem_front h with ⟨_, rfl⟩ | ⟨_, _, rfl⟩ | ⟨_, _, rfl⟩ <;> rfl

/-- The name of a function. -/
def nameOf? (p : Program) (f : FunctionId) : Option String :=
  (p.functions[f.index]?).map (·.name)

theorem declares_back :
    (p.back d).filterMap Line.declares? = d.functions.filterMap p.nameOf? := by
  have hprototypes : (d.functions.filterMap p.prototype?).filterMap Line.declares? =
      d.functions.filterMap p.nameOf? := by
    rw [List.filterMap_filterMap]
    refine List.filterMap_congr fun f _ => ?_
    unfold prototype? nameOf?
    cases p.functions[f.index]? <;> rfl
  have hfunctions : (d.functions.flatMap p.functionLayout).filterMap Line.declares? = [] :=
    List.filterMap_eq_nil_iff.2 fun line h => by
      obtain ⟨f, _, h⟩ := List.mem_flatMap.1 h
      rcases mem_functionLayout h with ⟨_, rfl⟩ | ⟨_, _, rfl⟩ | ⟨_, _, _, _, rfl⟩ <;> rfl
  show (p.prototypeLayout d.functions ++ _).filterMap Line.declares? = _
  rw [prototypeLayout, List.filterMap_append, List.filterMap_append, hprototypes, hfunctions,
    List.append_nil]
  exact List.append_nil _

end Program

end C

end MiddleEnd
