/-
  The nodes of parts: every part of a program is visited by the walk under its own identity
  (`Program.mem_nodes_of_parts`). Where all nodes of a program have surface identities of their own,
  a surface identity belongs to one part at most (`Program.part_eq_of_surface`).
-/
import Mathlib.Data.List.Nodup
import MiddleEnd.Proofs.Syntax.Parts

namespace MiddleEnd

/-- The identity of the node that the part is about. -/
def Part.identity : Part → Identity
  | .expr e => e.head.id
  | .callee e => e.head.id
  | .bind h _ => h.id
  | .ascription a => a.head.id
  | .path q => q.id
  | .field h => h.id

/-- The visits reach the node of every part. -/
def Reaches (vs : List Visit) (ps : List Part) : Prop :=
  ∀ p ∈ ps, ∃ l, .node p.identity l ∈ vs

namespace Reaches

variable {vs ws : List Visit} {ps qs : List Part}

theorem nil : Reaches vs [] := fun _ hp => absurd hp List.not_mem_nil

theorem mono (h : Reaches vs ps) (hv : ∀ v ∈ vs, v ∈ ws) : Reaches ws ps := by
  intro p hp
  obtain ⟨l, hl⟩ := h p hp
  exact ⟨l, hv _ hl⟩

theorem append (h : Reaches vs ps) (k : Reaches ws qs) : Reaches (vs ++ ws) (ps ++ qs) := by
  intro p hp
  rcases List.mem_append.1 hp with hp | hp
  · exact h.mono (fun _ hv => List.mem_append_left _ hv) p hp
  · exact k.mono (fun _ hv => List.mem_append_right _ hv) p hp

/-- A visit more reaches what the others reach. -/
theorem visit (h : Reaches vs ps) (v : Visit) : Reaches (v :: vs) ps :=
  h.mono fun _ hv => List.mem_cons_of_mem _ hv

/-- The visit of the node of a part. -/
theorem node (h : Reaches vs ps) {p : Part} (l : Location) :
    Reaches (.node p.identity l :: vs) (p :: ps) := by
  intro q hq
  rcases List.mem_cons.1 hq with rfl | hq
  · exact ⟨l, List.mem_cons_self ..⟩
  · exact h.visit _ q hq

/-- The function that a call names is visited before the arguments. -/
theorem callee (h : Reaches vs ps) {e : Expr} (he : Reaches ws e.parts) :
    Reaches (ws ++ vs) (.callee e :: ps) := by
  intro q hq
  rcases List.mem_cons.1 hq with rfl | hq
  · obtain ⟨l, hl⟩ := he _ e.self_mem_parts
    exact ⟨l, List.mem_append_left _ hl⟩
  · exact h.mono (fun _ hv => List.mem_append_right _ hv) q hq

end Reaches

theorem TypeExpr.reaches : ∀ a : TypeExpr, Reaches a.visits a.parts
  | .path h _ => Reaches.nil.node h.locus
  | .array h element _ => element.reaches.node h.locus
  | .unit h => Reaches.nil.node h.locus

theorem TypeExpr.reachesOf (a : Option TypeExpr) : Reaches (visitsOf a) (partsOf a) := by
  cases a with
  | none => exact .nil
  | some a => exact a.reaches

mutual

theorem Expr.reaches : ∀ e : Expr, Reaches e.visits e.parts
  | .literal h _ | .identifier h _ | .ret h none => Reaches.nil.node h.locus
  | .ret h (some value) => value.reaches.node h.locus
  | .call h callee args => ((Expr.reachesAll args).callee callee.reaches).node h.locus
  | .assign h target value => (target.reaches.append value.reaches).node h.locus
  | .binary h _ lhs rhs => (lhs.reaches.append rhs.reaches).node h.locus
  | .ifOnly h condition body => (condition.reaches.append body.reaches).node h.locus
  | .ifElse h condition thenBody elseBody =>
    (condition.reaches.append (thenBody.reaches.append elseBody.reaches)).node h.locus
  | .ifElseIf h condition thenBody elseIf =>
    (condition.reaches.append (thenBody.reaches.append elseIf.reaches)).node h.locus
  | .block h stmts none => (Stmt.reachesAll stmts).node h.locus
  | .block h stmts (some tail) => ((Stmt.reachesAll stmts).append tail.reaches).node h.locus
  | .index h base position => (base.reaches.append position.reaches).node h.locus
  | .array h values => (Expr.reachesAll values).node h.locus
  | .copies h element _ => element.reaches.node h.locus
  | .struct h _ fields => ((FieldInit.reachesAll fields).node h.locus).node h.locus

theorem Expr.reachesAll : ∀ es : List Expr, Reaches (Expr.visitsAll es) (Expr.partsAll es)
  | [] => .nil
  | e :: rest => e.reaches.append (Expr.reachesAll rest)

theorem Stmt.reaches : ∀ st : Stmt, Reaches st.visits st.parts
  | .bind h _ ascribed none => ((TypeExpr.reachesOf ascribed).visit _).node h.locus
  | .bind h _ ascribed (some init) =>
    (((TypeExpr.reachesOf ascribed).append init.reaches).visit _).node h.locus
  | .expr e => e.reaches

theorem Stmt.reachesAll : ∀ sts : List Stmt, Reaches (Stmt.visitsAll sts) (Stmt.partsAll sts)
  | [] => .nil
  | st :: rest => st.reaches.append (Stmt.reachesAll rest)

theorem FieldInit.reachesAll : ∀ fs : List FieldInit,
    Reaches (FieldInit.visitsAll fs) (FieldInit.partsAll fs)
  | [] => .nil
  | .mk h _ value :: rest => (value.reaches.append (FieldInit.reachesAll rest)).node h.locus

end

/-! ## Programs -/

/-- Every part is a node at least. -/
theorem Part.exists_mem_irs (p : Part) : ∃ id, id ∈ p.irs := by
  cases p with
  | callee e => exact ⟨e.ir, e.ir_mem_ids⟩
  | _ => exact ⟨_, List.mem_cons_self ..⟩

theorem reaches_flatMap {α : Type} {visits : α → List Visit} {parts : α → List Part}
    (h : ∀ a, Reaches (visits a) (parts a)) (l : List α) :
    Reaches (l.flatMap visits) (l.flatMap parts) := by
  induction l with
  | nil => exact .nil
  | cons a l ih =>
    rw [List.flatMap_cons, List.flatMap_cons]
    exact (h a).append ih

theorem Item.reaches (i : Item) : Reaches i.visits i.parts := by
  obtain ⟨h, k⟩ := i
  refine Reaches.visit ?_ _
  cases k with
  | function d =>
    show Reaches (_ ++ (_ ++ _)) (_ ++ _ ++ _)
    rw [List.append_assoc]
    exact (reaches_flatMap (fun p : Param => (p.type.reaches.visit _).visit _) d.params).append
      ((TypeExpr.reachesOf d.returns).append d.body.reaches)
  | struct d =>
    show Reaches _ (_ ++ [])
    rw [List.append_nil]
    exact reaches_flatMap (fun f : FieldDecl => f.type.reaches.visit _) d.fields
  | constant d => exact d.type.reaches.append d.value.reaches
  | static d => exact d.type.reaches.append d.value.reaches

namespace Program

variable {p : Program}

theorem mem_nodes_of_parts {a : Part} (ha : a ∈ p.parts) : ∃ l, (a.identity, l) ∈ p.nodes := by
  obtain ⟨l, hl⟩ := reaches_flatMap Item.reaches p.items a ha
  exact ⟨l, List.mem_filterMap.2 ⟨_, hl, rfl⟩⟩

/-- Two parts are different nodes. -/
theorem parts_nodup (hn : p.ids.Nodup) : p.parts.Nodup := by
  have hall : (Part.irsAll p.parts).Nodup := (List.nodup_append.1 (p.ids_perm.nodup_iff.1 hn)).2.1
  refine (List.nodup_flatMap.1 hall).2.imp ?_
  intro a c hdisjoint hac
  obtain ⟨id, hid⟩ := a.exists_mem_irs
  exact hdisjoint hid (hac ▸ hid)

/-- The surface identities of all nodes. -/
def surfaces (p : Program) : List SurfaceId := p.nodes.map (·.1.surface)

theorem mem_surfaces_of_parts {a : Part} (ha : a ∈ p.parts) : a.identity.surface ∈ p.surfaces := by
  obtain ⟨l, hl⟩ := mem_nodes_of_parts ha
  exact List.mem_map.2 ⟨_, hl, rfl⟩

theorem part_eq_of_surface (hn : p.ids.Nodup) (hs : p.surfaces.Nodup) {a c : Part}
    (ha : a ∈ p.parts) (hc : c ∈ p.parts) (hac : a.identity.surface = c.identity.surface) :
    a = c := by
  obtain ⟨l, hl⟩ := mem_nodes_of_parts ha
  obtain ⟨l', hl'⟩ := mem_nodes_of_parts hc
  have hsame : a.identity = c.identity := congrArg Prod.fst (List.inj_on_of_nodup_map hs hl hl' hac)
  have hir : ∀ q : Part, q.identity.ir ∈ q.irs := by
    intro q
    cases q with
    | callee e => exact e.ir_mem_ids
    | _ => exact List.mem_cons_self ..
  by_contra hne
  exact p.not_mem_irs hn ha hc hne (hir a) (hsame ▸ hir c)

end Program

end MiddleEnd
