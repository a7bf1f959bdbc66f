/-
  Unit texts round-trip (`CompilationUnit.texts_round_trip`): a unit read from a text in whatever
  form is written within the nesting limit, and what is written within the limit reads back.

  The reader and the writer of each kind of node fit each other (`Faithful`). Reading back goes by
  the structure of the node. That a node is written within the levels it was read with goes by the
  levels, since every reader of a part passes on fewer: expressions are so bounded below a level
  (`Bounded`), and then each reader in between is at it.
-/
import MiddleEnd.Proofs.Json.RoundTrip
import MiddleEnd.Proofs.UnitText.Nesting

namespace MiddleEnd

namespace UnitText

/-! ## Lists -/

theorem mem_of_elements {α : Type} {read : Json → Option α} {j : Json} {as : List α}
    (h : elements read j = some as) {a : α} (ha : a ∈ as) : ∃ v, read v = some a := by
  cases j <;> simp only [elements, reduceCtorEq] at h
  next values =>
    induction values generalizing as with
    | nil =>
      obtain rfl : [] = as := by simpa using h
      simp at ha
    | cons v values ih =>
      simp only [List.mapM_cons, Option.bind_eq_bind, Option.bind_eq_some_iff] at h
      obtain ⟨b, hb, bs, hbs, ⟨⟩⟩ := h
      obtain rfl | ha := List.mem_cons.mp ha
      · exact ⟨v, hb⟩
      · exact ih ha hbs

theorem elements_cons {α : Type} {read : Json → Option α} {j : Json} {js : List Json} {a : α}
    {as : List α} (h : read j = some a) (hs : elements read (.arr js) = some as) :
    elements read (.arr (j :: js)) = some (a :: as) := by
  rw [elements] at hs ⊢
  simp [h, hs]

theorem elements_map {α : Type} {read : Json → Option α} {write : α → Json} {as : List α}
    (h : ∀ a ∈ as, read (write a) = some a) : elements read (.arr (as.map write)) = some as := by
  induction as with
  | nil => rfl
  | cons a as ih =>
    rw [List.forall_mem_cons] at h
    exact elements_cons h.1 (ih h.2)

/-- One field of a struct literal, as it stands among the others. -/
def FieldInit.toJson (f : FieldInit) : Json :=
  f.head.record [("name", Json.text f.name), ("value", f.value.toJson)]

theorem Expr.toJsons_eq (es : List Expr) : Expr.toJsons es = es.map Expr.toJson := by
  induction es with
  | nil => rfl
  | cons e es ih => rw [Expr.toJsons, ih, List.map_cons]

theorem Stmt.toJsons_eq (ss : List Stmt) : Stmt.toJsons ss = ss.map Stmt.toJson := by
  induction ss with
  | nil => rfl
  | cons s ss ih => rw [Stmt.toJsons, ih, List.map_cons]

theorem FieldInit.toJsons_eq (fs : List FieldInit) :
    FieldInit.toJsons fs = fs.map FieldInit.toJson := by
  induction fs with
  | nil => rfl
  | cons f fs ih =>
    obtain ⟨h, name, value⟩ := f
    rw [FieldInit.toJsons, ih, List.map_cons]
    rfl

/-! ## Expressions that were read -/

/-- Below `n` levels, expressions are written within the levels they were read with. -/
def Bounded (n : Nat) : Prop :=
  ∀ m < n, ∀ {j : Json} {e : Expr}, expr m j = some e → e.toJson.depth ≤ m

/-- The kind of the expression is written within these levels. -/
def KindWithin (n : Nat) (h : Head) (e : Expr) : Prop :=
  ∃ kind, e.toJson = h.record [("kind", kind)] ∧ kind.depth ≤ n

section

variable {n : Nat} {h : Head} {j : Json} {slot : Slot}

theorem Bounded.pred (ih : Bounded (n + 1)) : Bounded n := fun k hk =>
  ih k (Nat.lt_succ_of_lt hk)

theorem Bounded.last (ih : Bounded (n + 1)) {e : Expr} (hread : expr n j = some e) :
    e.toJson.depth ≤ n :=
  ih n (Nat.lt_succ_self n) hread

theorem Bounded.required (ih : Bounded (n + 1)) {e : Expr}
    (hread : slot.required (expr n) = some e) : e.toJson.depth ≤ n := by
  obtain ⟨v, hv⟩ := Slot.read_of_required hread
  exact ih.last hv

theorem exprs_within {es : List Expr} (ih : Bounded n) (hread : exprs n j = some es) :
    (Json.arr (Expr.toJsons es)).depth ≤ n := by
  cases n with
  | zero => simp [exprs] at hread
  | succ n =>
    rw [Json.depth_arr_le_succ, Expr.toJsons_eq, List.forall_mem_map]
    intro e he
    obtain ⟨v, hv⟩ := mem_of_elements hread he
    exact ih.last hv

theorem fieldInit_within {f : FieldInit} (ih : Bounded n) (hread : fieldInit n j = some f) :
    (FieldInit.toJson f).depth ≤ n := by
  cases n with
  | zero => simp [fieldInit] at hread
  | succ n =>
    simp only [fieldInit, Option.bind_eq_bind, Option.bind_eq_some_iff] at hread
    obtain ⟨slot, -, h, hhead, name, -, value, hvalue, ⟨⟩⟩ := hread
    obtain ⟨m, rfl⟩ := levels_of_head hhead
    exact Head.depth_record_le.mpr ⟨m, rfl, by simpa [FieldInit.value] using ih.required hvalue⟩

theorem fieldInits_within {fs : List FieldInit} (ih : Bounded n)
    (hread : fieldInits n j = some fs) : (Json.arr (FieldInit.toJsons fs)).depth ≤ n := by
  cases n with
  | zero => simp [fieldInits] at hread
  | succ n =>
    rw [Json.depth_arr_le_succ, FieldInit.toJsons_eq, List.forall_mem_map]
    intro f hf
    obtain ⟨v, hv⟩ := mem_of_elements hread hf
    exact fieldInit_within ih.pred hv

theorem ofOption_within {α : Type} {read : Nat → Json → Option α} {write : α → Json}
    (hf : Faithful read write) {a : Option α} (hread : slot.optional (read n) = some a) :
    (Json.ofOption write a).depth ≤ n := by
  cases a with
  | none => simp [Json.ofOption]
  | some a =>
    obtain ⟨v, hv⟩ := Slot.read_of_optional hread
    exact hf.within hv

theorem letStmt_within {s : Stmt} (ih : Bounded n) (hread : letStmt n j = some s) :
    s.toJson.depth ≤ n + 1 := by
  cases n with
  | zero => simp [letStmt] at hread
  | succ n =>
    simp only [letStmt, Option.bind_eq_bind, Option.bind_eq_some_iff] at hread
    obtain ⟨slot, -, h, hhead, p, hp, ascribed, hascribed, init, hinit, ⟨⟩⟩ := hread
    obtain ⟨m, rfl⟩ := levels_of_head hhead
    obtain ⟨v, hv⟩ := Slot.read_of_required hp
    have hpattern := pattern_faithful.within hv
    have htype := ofOption_within typeExpr_faithful hascribed
    cases init with
    | none =>
      rw [Stmt.toJson, Json.depth_variant_le_succ]
      exact Head.depth_record_le.mpr ⟨m, rfl, by simpa using ⟨hpattern, htype⟩⟩
    | some init =>
      obtain ⟨v, hv⟩ := Slot.read_of_optional hinit
      rw [Stmt.toJson, Json.depth_variant_le_succ]
      exact Head.depth_record_le.mpr ⟨m, rfl, by simpa using ⟨hpattern, htype, ih.last hv⟩⟩

theorem stmt_within {s : Stmt} (ih : Bounded n) (hread : stmt n j = some s) :
    s.toJson.depth ≤ n := by
  cases n with
  | zero => simp [stmt] at hread
  | succ n =>
    simp only [stmt, Option.bind_eq_bind, Option.bind_eq_some_iff] at hread
    obtain ⟨⟨name, content⟩, -, hread⟩ := hread
    split at hread
    · exact letStmt_within ih.pred hread
    · obtain ⟨e, he, rfl⟩ := Option.map_eq_some_iff.mp hread
      exact (Json.depth_variant_le_succ _ _ _).mpr (ih.last he)
    · exact absurd hread (by simp)

theorem stmts_within {ss : List Stmt} (ih : Bounded n) (hread : stmts n j = some ss) :
    (Json.arr (Stmt.toJsons ss)).depth ≤ n := by
  cases n with
  | zero => simp [stmts] at hread
  | succ n =>
    rw [Json.depth_arr_le_succ, Stmt.toJsons_eq, List.forall_mem_map]
    intro s hs
    obtain ⟨v, hv⟩ := mem_of_elements hread hs
    exact stmt_within ih.pred hv

theorem block_within {e : Expr} (ih : Bounded n) (hread : block n h j = some e) :
    KindWithin (n + 1) h e := by
  cases n with
  | zero => simp [block] at hread
  | succ n =>
    simp only [block, Option.bind_eq_bind, Option.bind_eq_some_iff] at hread
    obtain ⟨slot, -, ss, hss, tail, htail, ⟨⟩⟩ := hread
    obtain ⟨v, hv⟩ := Slot.read_of_required hss
    have hstmts := stmts_within ih.pred hv
    cases tail with
    | none => exact ⟨_, rfl, by simpa using hstmts⟩
    | some tail =>
      obtain ⟨v, hv⟩ := Slot.read_of_optional htail
      exact ⟨_, rfl, by simpa using ⟨hstmts, ih.last hv⟩⟩

theorem arrayElements_within {e : Expr} (ih : Bounded n)
    (hread : arrayElements n h j = some e) : KindWithin (n + 1) h e := by
  cases n with
  | zero => simp [arrayElements] at hread
  | succ n =>
    rw [arrayElements] at hread
    obtain ⟨⟨name, content⟩, -, hread⟩ := Option.bind_eq_some_iff.mp hread
    split at hread
    · split at hread
      · exact absurd hread (by simp)
      · obtain ⟨es, hes, rfl⟩ := Option.map_eq_some_iff.mp hread
        rw [← exprs] at hes
        exact ⟨_, rfl, by simpa using exprs_within ih.pred hes⟩
    · split at hread
      · exact absurd hread (by simp)
      · simp only [Option.bind_eq_bind, Option.bind_eq_some_iff] at hread
        obtain ⟨slot, -, element, helement, count, -, ⟨⟩⟩ := hread
        exact ⟨_, rfl, by simpa using ih.pred.required helement⟩
    · exact absurd hread (by simp)

theorem compound_within {name : String} {e : Expr} (ih : Bounded n)
    (hread : compound n h name j = some e) : KindWithin (n + 1) h e := by
  unfold compound at hread
  split at hread
  all_goals
    simp only [Option.bind_eq_bind, Option.bind_eq_some_iff, reduceCtorEq] at hread
  · obtain ⟨slot, -, callee, hcallee, args, hargs, ⟨⟩⟩ := hread
    obtain ⟨v, hv⟩ := Slot.read_of_required hargs
    exact ⟨_, rfl, by simpa using ⟨ih.required hcallee, exprs_within ih.pred hv⟩⟩
  · obtain ⟨slot, -, target, htarget, value, hvalue, ⟨⟩⟩ := hread
    exact ⟨_, rfl, by simpa using ⟨ih.required htarget, ih.required hvalue⟩⟩
  · obtain ⟨slot, -, op, -, lhs, hlhs, rhs, hrhs, ⟨⟩⟩ := hread
    exact ⟨_, rfl, by simpa using ⟨ih.required hlhs, ih.required hrhs⟩⟩
  · obtain ⟨slot, -, op, -, lhs, hlhs, rhs, hrhs, ⟨⟩⟩ := hread
    exact ⟨_, rfl, by simpa using ⟨ih.required hlhs, ih.required hrhs⟩⟩
  · obtain ⟨slot, -, op, -, lhs, hlhs, rhs, hrhs, ⟨⟩⟩ := hread
    exact ⟨_, rfl, by simpa using ⟨ih.required hlhs, ih.required hrhs⟩⟩
  · obtain ⟨slot, -, condition, hcondition, body, hbody, ⟨⟩⟩ := hread
    exact ⟨_, rfl, by simpa using ⟨ih.required hcondition, ih.required hbody⟩⟩
  · obtain ⟨slot, -, condition, hcondition, thenBody, hthen, elseBody, helse, ⟨⟩⟩ := hread
    exact ⟨_, rfl, by
      simpa using ⟨ih.required hcondition, ih.required hthen, ih.required helse⟩⟩
  · obtain ⟨slot, -, condition, hcondition, thenBody, hthen, elseIf, helse, ⟨⟩⟩ := hread
    exact ⟨_, rfl, by
      simpa using ⟨ih.required hcondition, ih.required hthen, ih.required helse⟩⟩
  · obtain ⟨slot, -, base, hbase, position, hposition, ⟨⟩⟩ := hread
    exact ⟨_, rfl, by simpa using ⟨ih.required hbase, ih.required hposition⟩⟩
  · obtain ⟨slot, -, path, hpath, fields, hfields, ⟨⟩⟩ := hread
    obtain ⟨v, hv⟩ := Slot.read_of_required hpath
    obtain ⟨w, hw⟩ := Slot.read_of_required hfields
    exact ⟨_, rfl, by
      simpa using ⟨structPath_faithful.within hv, fieldInits_within ih.pred hw⟩⟩

theorem exprKind_within {e : Expr} (ih : Bounded n) (hread : exprKind n h j = some e) :
    KindWithin n h e := by
  cases n with
  | zero => simp [exprKind] at hread
  | succ n =>
    simp only [exprKind, Option.bind_eq_bind, Option.bind_eq_some_iff] at hread
    obtain ⟨⟨name, content⟩, -, hread⟩ := hread
    split at hread
    · obtain ⟨l, hl, rfl⟩ := Option.map_eq_some_iff.mp hread
      exact ⟨_, rfl, by simpa using literal_faithful.within hl⟩
    · obtain ⟨s, -, rfl⟩ := Option.map_eq_some_iff.mp hread
      exact ⟨_, rfl, by simp⟩
    · obtain rfl := Option.some.inj hread
      exact ⟨_, rfl, by simp⟩
    · obtain ⟨value, hvalue, rfl⟩ := Option.map_eq_some_iff.mp hread
      exact ⟨_, rfl, by simpa using ih.last hvalue⟩
    · exact block_within ih.pred hread
    · exact arrayElements_within ih.pred hread
    · exact compound_within ih.pred hread

end

theorem expr_within {n : Nat} {j : Json} {e : Expr} (hread : expr n j = some e) :
    e.toJson.depth ≤ n := by
  induction n using Nat.strongRecOn generalizing j e with
  | ind n ih =>
    cases n with
    | zero => simp [expr] at hread
    | succ n =>
      simp only [expr, Option.bind_eq_bind, Option.bind_eq_some_iff] at hread
      obtain ⟨slot, -, h, hhead, hkind⟩ := hread
      obtain ⟨m, rfl⟩ := levels_of_head hhead
      obtain ⟨v, hv⟩ := Slot.read_of_required hkind
      have hbounded : Bounded (m + 1) := fun k hk => ih k (Nat.lt_succ_of_lt hk)
      obtain ⟨kind, htoJson, hdepth⟩ := exprKind_within hbounded hv
      rw [htoJson]
      exact Head.depth_kind_le.mpr ⟨m, rfl, hdepth⟩

/-! ## Expressions read back -/

theorem expr_record {n : Nat} {h : Head} {kind : Json} {e : Expr}
    (hkind : exprKind (n + 1) h kind = some e) :
    expr (n + 2) (h.record [("kind", kind)]) = some e := by
  simp [expr, record_headed, fieldSlot, Slot.required, hkind]

theorem Expr.toJson_ne_null (e : Expr) : e.toJson ≠ .null := by
  obtain ⟨h, rest, heq⟩ : ∃ h rest, e.toJson = Head.record h rest := by
    fun_cases Expr.toJson e <;> exact ⟨_, _, rfl⟩
  simp [heq, Head.record, Json.object]

/-- What is left for the fields of a kind that is a record itself. -/
theorem compound_levels {n : Nat} {h : Head} {name : String} {entries : List (String × Json)}
    (hd : (h.record [("kind", Json.variant name (Json.object entries))]).depth ≤ n) :
    ∃ k, n = k + 3 ∧ ∀ e ∈ entries, e.2.depth ≤ k := by
  obtain ⟨m, rfl, hkind⟩ := Head.depth_kind_le.mp hd
  obtain ⟨k, rfl, hfields⟩ :=
    Json.depth_object_le.mp ((Json.depth_variant_le_succ _ _ _).mp hkind)
  exact ⟨k, rfl, hfields⟩

theorem ofOption_back {α : Type} {read : Nat → Json → Option α} {write : α → Json}
    (hf : Faithful read write) (hnull : ∀ a, write a ≠ .null) {n : Nat} {a : Option α}
    (hd : (Json.ofOption write a).depth ≤ n) :
    (Slot.given (Json.ofOption write a)).optional (read n) = some a := by
  cases a with
  | none => rfl
  | some a => exact Slot.optional_given (hnull a) (hf.back hd)

theorem TypeExpr.toJson_ne_null (t : TypeExpr) : t.toJson ≠ .null := by
  cases t <;> simp [TypeExpr.toJson, Head.record, Json.object]

/-! One node, where its parts read back. -/

section

variable {n : Nat} {h : Head} {e e₁ e₂ e₃ : Expr}

attribute [local simp] stmt letStmt exprKind block arrayElements compound record_headed fieldSlot
  Slot.required

theorem call_back {args : List Expr} (he : expr n e.toJson = some e)
    (hargs : exprs n (.arr (Expr.toJsons args)) = some args) :
    expr (n + 3) (Expr.call h e args).toJson = some (.call h e args) :=
  expr_record (by simp [he, hargs])

theorem assign_back (h₁ : expr n e₁.toJson = some e₁) (h₂ : expr n e₂.toJson = some e₂) :
    expr (n + 3) (Expr.assign h e₁ e₂).toJson = some (.assign h e₁ e₂) :=
  expr_record (by simp [h₁, h₂])

theorem binary_back (op : BinaryOp) (h₁ : expr n e₁.toJson = some e₁)
    (h₂ : expr n e₂.toJson = some e₂) :
    expr (n + 3) (Expr.binary h op e₁ e₂).toJson = some (.binary h op e₁ e₂) :=
  expr_record (by cases op <;> simp [BinaryOp.variantNames, h₁, h₂])

theorem ifOnly_back (h₁ : expr n e₁.toJson = some e₁) (h₂ : expr n e₂.toJson = some e₂) :
    expr (n + 3) (Expr.ifOnly h e₁ e₂).toJson = some (.ifOnly h e₁ e₂) :=
  expr_record (by simp [h₁, h₂])

theorem ifElse_back (h₁ : expr n e₁.toJson = some e₁) (h₂ : expr n e₂.toJson = some e₂)
    (h₃ : expr n e₃.toJson = some e₃) :
    expr (n + 3) (Expr.ifElse h e₁ e₂ e₃).toJson = some (.ifElse h e₁ e₂ e₃) :=
  expr_record (by simp [h₁, h₂, h₃])

theorem ifElseIf_back (h₁ : expr n e₁.toJson = some e₁) (h₂ : expr n e₂.toJson = some e₂)
    (h₃ : expr n e₃.toJson = some e₃) :
    expr (n + 3) (Expr.ifElseIf h e₁ e₂ e₃).toJson = some (.ifElseIf h e₁ e₂ e₃) :=
  expr_record (by simp [h₁, h₂, h₃])

theorem block_back {ss : List Stmt} {tail : Option Expr}
    (hss : stmts n (.arr (Stmt.toJsons ss)) = some ss)
    (htail : ∀ e ∈ tail, expr n e.toJson = some e) :
    expr (n + 3) (Expr.block h ss tail).toJson = some (.block h ss tail) := by
  cases tail with
  | none => exact expr_record (by simp [hss])
  | some e =>
    have htail := Slot.optional_given (Expr.toJson_ne_null e) (htail e rfl)
    exact expr_record (by simp [hss, htail])

theorem index_back (h₁ : expr n e₁.toJson = some e₁) (h₂ : expr n e₂.toJson = some e₂) :
    expr (n + 3) (Expr.index h e₁ e₂).toJson = some (.index h e₁ e₂) :=
  expr_record (by simp [h₁, h₂])

theorem array_back {values : List Expr}
    (hvalues : exprs (n + 1) (.arr (Expr.toJsons values)) = some values) :
    expr (n + 4) (Expr.array h values).toJson = some (.array h values) := by
  rw [exprs] at hvalues
  exact expr_record (by simp [hvalues])

theorem copies_back (count : UInt64) (he : expr n e.toJson = some e) :
    expr (n + 4) (Expr.copies h e count).toJson = some (.copies h e count) :=
  expr_record (by simp [he])

theorem struct_back {path : StructPath} {fields : List FieldInit}
    (hpath : structPath n path.toJson = some path)
    (hfields : fieldInits n (.arr (FieldInit.toJsons fields)) = some fields) :
    expr (n + 3) (Expr.struct h path fields).toJson = some (.struct h path fields) :=
  expr_record (by simp [hpath, hfields])

theorem bind_back {p : Pattern} {ascribed : Option TypeExpr} {init : Option Expr}
    (hpattern : pattern (n + 1) p.toJson = some p)
    (htype : (Slot.given (Json.ofOption TypeExpr.toJson ascribed)).optional (typeExpr (n + 1)) =
      some ascribed)
    (hinit : ∀ e ∈ init, expr (n + 1) e.toJson = some e) :
    stmt (n + 3) (Stmt.bind h p ascribed init).toJson = some (.bind h p ascribed init) := by
  cases init with
  | none =>
    simp [Stmt.toJson, hpattern, htype]
  | some e =>
    have hinit := Slot.optional_given (Expr.toJson_ne_null e) (hinit e rfl)
    simp [Stmt.toJson, hpattern, htype, hinit]

end

mutual

theorem expr_back : ∀ (e : Expr) {n : Nat}, e.toJson.depth ≤ n → expr n e.toJson = some e
  | .literal h lit, n, hd => by
    obtain ⟨m, rfl, hkind⟩ := Head.depth_kind_le.mp hd
    have hlit := literal_faithful.back ((Json.depth_variant_le_succ _ _ _).mp hkind)
    exact expr_record (by simp [exprKind, hlit])
  | .identifier h name, n, hd => by
    obtain ⟨m, rfl, -⟩ := Head.depth_kind_le.mp hd
    exact expr_record (by simp [exprKind])
  | .ret h none, n, hd => by
    obtain ⟨m, rfl, -⟩ := Head.depth_kind_le.mp hd
    exact expr_record (by simp [exprKind])
  | .ret h (some value), n, hd => by
    obtain ⟨m, rfl, hkind⟩ := Head.depth_kind_le.mp hd
    have hvalue := expr_back value ((Json.depth_variant_le_succ _ _ _).mp hkind)
    exact expr_record (by simp [exprKind, Expr.toJson_ne_null, hvalue])
  | .call h callee args, n, hd => by
    obtain ⟨k, rfl, hfields⟩ := compound_levels hd
    simp only [List.forall_mem_cons] at hfields
    exact call_back (expr_back callee hfields.1) (exprs_back args hfields.2.1)
  | .assign h target value, n, hd => by
    obtain ⟨k, rfl, hfields⟩ := compound_levels hd
    simp only [List.forall_mem_cons] at hfields
    exact assign_back (expr_back target hfields.1) (expr_back value hfields.2.1)
  | .binary h op lhs rhs, n, hd => by
    obtain ⟨k, rfl, hfields⟩ := compound_levels hd
    simp only [List.forall_mem_cons] at hfields
    exact binary_back op (expr_back lhs hfields.2.1) (expr_back rhs hfields.2.2.1)
  | .ifOnly h condition body, n, hd => by
    obtain ⟨k, rfl, hfields⟩ := compound_levels hd
    simp only [List.forall_mem_cons] at hfields
    exact ifOnly_back (expr_back condition hfields.1) (expr_back body hfields.2.1)
  | .ifElse h condition thenBody elseBody, n, hd => by
    obtain ⟨k, rfl, hfields⟩ := compound_levels hd
    simp only [List.forall_mem_cons] at hfields
    exact ifElse_back (expr_back condition hfields.1) (expr_back thenBody hfields.2.1)
      (expr_back elseBody hfields.2.2.1)
  | .ifElseIf h condition thenBody elseIf, n, hd => by
    obtain ⟨k, rfl, hfields⟩ := compound_levels hd
    simp only [List.forall_mem_cons] at hfields
    exact ifElseIf_back (expr_back condition hfields.1) (expr_back thenBody hfields.2.1)
      (expr_back elseIf hfields.2.2.1)
  | .block h ss none, n, hd => by
    obtain ⟨k, rfl, hfields⟩ := compound_levels hd
    simp only [List.forall_mem_cons] at hfields
    exact block_back (stmts_back ss hfields.1) nofun
  | .block h ss (some tail), n, hd => by
    obtain ⟨k, rfl, hfields⟩ := compound_levels hd
    simp only [List.forall_mem_cons] at hfields
    have htail := expr_back tail hfields.2.1
    exact block_back (stmts_back ss hfields.1) fun _ he => Option.some.inj he ▸ htail
  | .index h base position, n, hd => by
    obtain ⟨k, rfl, hfields⟩ := compound_levels hd
    simp only [List.forall_mem_cons] at hfields
    exact index_back (expr_back base hfields.1) (expr_back position hfields.2.1)
  | .array h values, n, hd => by
    obtain ⟨k, rfl, hvalues⟩ := compound_levels hd
    obtain ⟨l, rfl, -⟩ := Json.depth_arr_le.mp (hvalues ("Values", _) List.mem_cons_self)
    exact array_back (exprs_back values (hvalues ("Values", _) List.mem_cons_self))
  | .copies h element count, n, hd => by
    obtain ⟨k, rfl, hcopies⟩ := compound_levels hd
    obtain ⟨l, rfl, hfields⟩ := Json.depth_object_le.mp (hcopies ("Copied", _) List.mem_cons_self)
    exact copies_back count
      (expr_back element (hfields ("elem", element.toJson) List.mem_cons_self))
  | .struct h path fields, n, hd => by
    obtain ⟨k, rfl, hparts⟩ := compound_levels hd
    simp only [List.forall_mem_cons] at hparts
    exact struct_back (structPath_faithful.back hparts.1) (fieldInits_back fields hparts.2.1)

theorem exprs_back : ∀ (es : List Expr) {n : Nat}, (Json.arr (Expr.toJsons es)).depth ≤ n →
    exprs n (.arr (Expr.toJsons es)) = some es
  | [], n, hd => by
    obtain ⟨m, rfl, -⟩ := Json.depth_arr_le.mp hd
    rfl
  | e :: es, n, hd => by
    obtain ⟨m, rfl, hitems⟩ := Json.depth_arr_le.mp hd
    rw [Expr.toJsons, List.forall_mem_cons] at hitems
    exact elements_cons (expr_back e hitems.1)
      (exprs_back es (n := m + 1) ((Json.depth_arr_le_succ _ _).mpr hitems.2))

theorem stmt_back : ∀ (s : Stmt) {n : Nat}, s.toJson.depth ≤ n → stmt n s.toJson = some s
  | .expr e, n, hd => by
    obtain ⟨m, rfl, he⟩ := Json.depth_object_le.mp hd
    have he := expr_back e (he ("Expr", _) List.mem_cons_self)
    simp [stmt, Stmt.toJson, he]
  | .bind h p ascribed none, n, hd => by
    obtain ⟨m, rfl, hlet⟩ := Json.depth_object_le.mp hd
    obtain ⟨k, rfl, hfields⟩ := Head.depth_record_le.mp (hlet ("Let", _) List.mem_cons_self)
    simp only [List.forall_mem_cons] at hfields
    exact bind_back (pattern_faithful.back hfields.1)
      (ofOption_back typeExpr_faithful TypeExpr.toJson_ne_null hfields.2.1) nofun
  | .bind h p ascribed (some init), n, hd => by
    obtain ⟨m, rfl, hlet⟩ := Json.depth_object_le.mp hd
    obtain ⟨k, rfl, hfields⟩ := Head.depth_record_le.mp (hlet ("Let", _) List.mem_cons_self)
    simp only [List.forall_mem_cons] at hfields
    have hinit := expr_back init hfields.2.2.1
    exact bind_back (pattern_faithful.back hfields.1)
      (ofOption_back typeExpr_faithful TypeExpr.toJson_ne_null hfields.2.1)
      fun _ he => Option.some.inj he ▸ hinit

theorem stmts_back : ∀ (ss : List Stmt) {n : Nat}, (Json.arr (Stmt.toJsons ss)).depth ≤ n →
    stmts n (.arr (Stmt.toJsons ss)) = some ss
  | [], n, hd => by
    obtain ⟨m, rfl, -⟩ := Json.depth_arr_le.mp hd
    rfl
  | s :: ss, n, hd => by
    obtain ⟨m, rfl, hitems⟩ := Json.depth_arr_le.mp hd
    rw [Stmt.toJsons, List.forall_mem_cons] at hitems
    exact elements_cons (stmt_back s hitems.1)
      (stmts_back ss (n := m + 1) ((Json.depth_arr_le_succ _ _).mpr hitems.2))

theorem fieldInits_back : ∀ (fs : List FieldInit) {n : Nat},
    (Json.arr (FieldInit.toJsons fs)).depth ≤ n →
    fieldInits n (.arr (FieldInit.toJsons fs)) = some fs
  | [], n, hd => by
    obtain ⟨m, rfl, -⟩ := Json.depth_arr_le.mp hd
    rfl
  | .mk h name value :: fs, n, hd => by
    obtain ⟨m, rfl, hitems⟩ := Json.depth_arr_le.mp hd
    rw [FieldInit.toJsons, List.forall_mem_cons] at hitems
    obtain ⟨k, rfl, hfields⟩ := Head.depth_record_le.mp hitems.1
    have hvalue := expr_back value (hfields ("value", value.toJson) (by simp))
    have hfield : fieldInit (k + 2)
        (h.record [("name", Json.text name), ("value", value.toJson)]) =
          some (.mk h name value) := by
      simp [fieldInit, record_headed, fieldSlot, Slot.required, hvalue]
    exact elements_cons hfield
      (fieldInits_back fs (n := k + 3) ((Json.depth_arr_le_succ _ _).mpr hitems.2))

end

theorem expr_faithful : Faithful expr Expr.toJson where
  back := expr_back _
  within := expr_within

/-! ## Items and units -/

theorem listOf_faithful {α : Type} {read : Nat → Json → Option α} {write : α → Json}
    (hf : Faithful read write) : Faithful (listOf read) fun as => .arr (as.map write) := by
  refine .of_succ (fun _ => rfl) (by simp) (fun n as hd => ?_) (fun n j as hread => ?_)
  · rw [Json.depth_arr_le_succ, List.forall_mem_map] at hd
    exact elements_map fun a ha => hf.back (hd a ha)
  · rw [Json.depth_arr_le_succ, List.forall_mem_map]
    intro a ha
    obtain ⟨v, hv⟩ := mem_of_elements hread ha
    exact hf.within hv

theorem Faithful.of_required {α : Type} {read : Nat → Json → Option α} {write : α → Json}
    (hf : Faithful read write) {n : Nat} {slot : Slot} {a : α}
    (hread : slot.required (read n) = some a) : (write a).depth ≤ n := by
  obtain ⟨v, hv⟩ := Slot.read_of_required hread
  exact hf.within hv

theorem param_faithful : Faithful param Param.toJson := by
  refine .of_succ (fun _ => rfl) (fun p => by simp [Param.toJson, Head.record])
    (fun n p hd => ?_) (fun n j p hread => ?_)
  · obtain ⟨k, hk, hfields⟩ := Head.depth_record_le.mp hd
    obtain rfl : n = k + 1 := by omega
    simp only [List.forall_mem_cons] at hfields
    have hpattern := pattern_faithful.back hfields.1
    have htype := typeExpr_faithful.back hfields.2.1
    simp [param, Param.toJson, record_headed, fieldSlot, Slot.required, hpattern, htype]
  · simp only [param, Option.bind_eq_bind, Option.bind_eq_some_iff] at hread
    obtain ⟨slot, -, h, hhead, p, hp, t, ht, ⟨⟩⟩ := hread
    obtain ⟨m, rfl⟩ := levels_of_head hhead
    exact Head.depth_record_le.mpr ⟨m, rfl, by
      simpa using ⟨pattern_faithful.of_required hp, typeExpr_faithful.of_required ht⟩⟩

theorem fieldDecl_faithful : Faithful fieldDecl FieldDecl.toJson := by
  refine .of_succ (fun _ => rfl) (fun p => by simp [FieldDecl.toJson, Head.record])
    (fun n p hd => ?_) (fun n j p hread => ?_)
  · obtain ⟨k, hk, hfields⟩ := Head.depth_record_le.mp hd
    obtain rfl : n = k + 1 := by omega
    simp only [List.forall_mem_cons] at hfields
    have htype := typeExpr_faithful.back hfields.2.1
    simp [fieldDecl, FieldDecl.toJson, record_headed, fieldSlot, Slot.required, htype]
  · simp only [fieldDecl, Option.bind_eq_bind, Option.bind_eq_some_iff] at hread
    obtain ⟨slot, -, h, hhead, name, -, t, ht, ⟨⟩⟩ := hread
    obtain ⟨m, rfl⟩ := levels_of_head hhead
    exact Head.depth_record_le.mpr ⟨m, rfl, by simpa using typeExpr_faithful.of_required ht⟩

theorem functionDecl_faithful : Faithful functionDecl FunctionDecl.toJson := by
  refine .of_succ (fun _ => rfl) (fun d => by simp [FunctionDecl.toJson])
    (fun n d hd => ?_) (fun n j d hread => ?_)
  · rw [FunctionDecl.toJson, Json.depth_object_le_succ] at hd
    simp only [List.forall_mem_cons] at hd
    have hparams := (listOf_faithful param_faithful).back hd.2.1
    have hreturns := ofOption_back typeExpr_faithful TypeExpr.toJson_ne_null hd.2.2.1
    have hbody := expr_faithful.back hd.2.2.2.1
    simp [functionDecl, FunctionDecl.toJson, fieldSlot, Slot.required, hparams, hreturns, hbody]
  · simp only [functionDecl, Option.bind_eq_bind, Option.bind_eq_some_iff] at hread
    obtain ⟨slot, -, name, -, params, hparams, returns, hreturns, body, hbody, ⟨⟩⟩ := hread
    have hparams := (listOf_faithful param_faithful).of_required hparams
    have hreturns := ofOption_within typeExpr_faithful hreturns
    have hbody := expr_faithful.of_required hbody
    simpa [FunctionDecl.toJson] using ⟨hparams, hreturns, hbody⟩

theorem structDecl_faithful : Faithful structDecl StructDecl.toJson := by
  refine .of_succ (fun _ => rfl) (fun d => by simp [StructDecl.toJson])
    (fun n d hd => ?_) (fun n j d hread => ?_)
  · rw [StructDecl.toJson, Json.depth_object_le_succ] at hd
    simp only [List.forall_mem_cons] at hd
    have hfields := (listOf_faithful fieldDecl_faithful).back hd.2.1
    simp [structDecl, StructDecl.toJson, fieldSlot, Slot.required, hfields]
  · simp only [structDecl, Option.bind_eq_bind, Option.bind_eq_some_iff] at hread
    obtain ⟨slot, -, name, -, fields, hfields, ⟨⟩⟩ := hread
    simpa [StructDecl.toJson] using (listOf_faithful fieldDecl_faithful).of_required hfields

theorem constantDecl_faithful : Faithful constantDecl ConstantDecl.toJson := by
  refine .of_succ (fun _ => rfl) (fun d => by simp [ConstantDecl.toJson])
    (fun n d hd => ?_) (fun n j d hread => ?_)
  · rw [ConstantDecl.toJson, Json.depth_object_le_succ] at hd
    simp only [List.forall_mem_cons] at hd
    have htype := typeExpr_faithful.back hd.2.1
    have hvalue := expr_faithful.back hd.2.2.1
    simp [constantDecl, ConstantDecl.toJson, fieldSlot, Slot.required, htype, hvalue]
  · simp only [constantDecl, Option.bind_eq_bind, Option.bind_eq_some_iff] at hread
    obtain ⟨slot, -, name, -, t, ht, value, hvalue, ⟨⟩⟩ := hread
    simpa [ConstantDecl.toJson] using
      ⟨typeExpr_faithful.of_required ht, expr_faithful.of_required hvalue⟩

theorem staticDecl_faithful : Faithful staticDecl StaticDecl.toJson := by
  refine .of_succ (fun _ => rfl) (fun d => by simp [StaticDecl.toJson])
    (fun n d hd => ?_) (fun n j d hread => ?_)
  · rw [StaticDecl.toJson, Json.depth_object_le_succ] at hd
    simp only [List.forall_mem_cons] at hd
    have htype := typeExpr_faithful.back hd.2.2.1
    have hvalue := expr_faithful.back hd.2.2.2.1
    simp [staticDecl, StaticDecl.toJson, fieldSlot, Slot.required, Slot.withDefault, htype, hvalue]
  · simp only [staticDecl, Option.bind_eq_bind, Option.bind_eq_some_iff] at hread
    obtain ⟨slot, -, name, -, isMutable, -, t, ht, value, hvalue, ⟨⟩⟩ := hread
    simpa [StaticDecl.toJson] using
      ⟨typeExpr_faithful.of_required ht, expr_faithful.of_required hvalue⟩

theorem itemKind_faithful : Faithful itemKind ItemKind.toJson := by
  refine .of_succ (fun _ => rfl) (fun k => by cases k <;> simp [ItemKind.toJson, Json.variant])
    (fun n k hd => ?_) (fun n j k hread => ?_)
  · cases k with
    | function d => simp [itemKind, ItemKind.toJson,
        functionDecl_faithful.back ((Json.depth_variant_le_succ _ _ _).mp hd)]
    | struct d => simp [itemKind, ItemKind.toJson,
        structDecl_faithful.back ((Json.depth_variant_le_succ _ _ _).mp hd)]
    | constant d => simp [itemKind, ItemKind.toJson,
        constantDecl_faithful.back ((Json.depth_variant_le_succ _ _ _).mp hd)]
    | static d => simp [itemKind, ItemKind.toJson,
        staticDecl_faithful.back ((Json.depth_variant_le_succ _ _ _).mp hd)]
  · simp only [itemKind, Option.bind_eq_bind, Option.bind_eq_some_iff] at hread
    obtain ⟨⟨name, content⟩, -, hread⟩ := hread
    split at hread
    · obtain ⟨d, hd, rfl⟩ := Option.map_eq_some_iff.mp hread
      exact (Json.depth_variant_le_succ _ _ _).mpr (functionDecl_faithful.within hd)
    · obtain ⟨d, hd, rfl⟩ := Option.map_eq_some_iff.mp hread
      exact (Json.depth_variant_le_succ _ _ _).mpr (structDecl_faithful.within hd)
    · obtain ⟨d, hd, rfl⟩ := Option.map_eq_some_iff.mp hread
      exact (Json.depth_variant_le_succ _ _ _).mpr (constantDecl_faithful.within hd)
    · obtain ⟨d, hd, rfl⟩ := Option.map_eq_some_iff.mp hread
      exact (Json.depth_variant_le_succ _ _ _).mpr (staticDecl_faithful.within hd)
    · exact absurd hread (by simp)

theorem item_faithful : Faithful item Item.toJson := by
  refine .of_succ (fun _ => rfl) (fun i => by simp [Item.toJson, Head.record])
    (fun n i hd => ?_) (fun n j i hread => ?_)
  · obtain ⟨k, hk, hkind⟩ := Head.depth_kind_le.mp hd
    obtain rfl : n = k + 1 := by omega
    have hkind := itemKind_faithful.back hkind
    simp [item, Item.toJson, record_headed, fieldSlot, Slot.required, hkind]
  · simp only [item, Option.bind_eq_bind, Option.bind_eq_some_iff] at hread
    obtain ⟨slot, -, h, hhead, kind, hkind, ⟨⟩⟩ := hread
    obtain ⟨m, rfl⟩ := levels_of_head hhead
    exact Head.depth_kind_le.mpr ⟨m, rfl, itemKind_faithful.of_required hkind⟩

theorem program_faithful : Faithful program Program.toJson := by
  refine .of_succ (fun _ => rfl) (fun p => by simp [Program.toJson])
    (fun n p hd => ?_) (fun n j p hread => ?_)
  · rw [Program.toJson, Json.depth_object_le_succ] at hd
    simp only [List.forall_mem_cons] at hd
    have hitems := (listOf_faithful item_faithful).back hd.2.1
    simp [program, Program.toJson, fieldSlot, Slot.required, crateNumber, hitems]
  · simp only [program, Option.bind_eq_bind, Option.bind_eq_some_iff] at hread
    obtain ⟨slot, -, crate, -, items, hitems, ⟨⟩⟩ := hread
    simpa [Program.toJson] using (listOf_faithful item_faithful).of_required hitems

theorem binding_faithful : Faithful binding Binding.toJson := by
  refine .of_succ (fun _ => rfl) (by simp [Binding.toJson]) (fun n b _ => ?_) (fun n j b _ => ?_)
  · simp [binding, Binding.toJson, fieldSlot, Slot.required, surfaceId]
  · simp [Binding.toJson]

theorem definition_faithful : Faithful definition Definition.toJson := by
  refine .of_succ (fun _ => rfl) (by simp [Definition.toJson]) (fun n d _ => ?_)
    (fun n j d _ => ?_)
  · simp [definition, Definition.toJson, fieldSlot, Slot.required, surfaceId]
  · simp [Definition.toJson]

theorem bindings_within {α : Type} {read : Nat → Json → Option α} {write : α → Json}
    (hf : Faithful read write) {n : Nat} {slot : Slot} {as : List α}
    (hread : slot.withDefault [] (listOf read (n + 1)) = some as) :
    (Json.arr (as.map write)).depth ≤ n + 1 := by
  obtain rfl | ⟨v, hv⟩ := Slot.read_of_withDefault hread
  · simp
  · exact (listOf_faithful hf).within hv

theorem unit_faithful : Faithful unit CompilationUnit.toJson := by
  refine .of_succ (fun _ => rfl) (fun u => by simp [CompilationUnit.toJson])
    (fun n u hd => ?_) (fun n j u hread => ?_)
  · rw [CompilationUnit.toJson, Json.depth_object_le_succ] at hd
    simp only [List.forall_mem_cons] at hd
    have hprogram := program_faithful.back hd.1
    have hnames := (listOf_faithful binding_faithful).back hd.2.1
    have htypes := (listOf_faithful binding_faithful).back hd.2.2.1
    have hdefinitions := (listOf_faithful definition_faithful).back hd.2.2.2.1
    simp [unit, CompilationUnit.toJson, fieldSlot, Slot.required, Slot.withDefault, hprogram,
      hnames, htypes, hdefinitions]
  · simp only [unit, Option.bind_eq_bind, Option.bind_eq_some_iff] at hread
    obtain ⟨slot, -, p, hp, names, hnames, types, htypes, definitions, hdefinitions, ⟨⟩⟩ := hread
    -- A list left out of the text is written, which the level of the program makes room for.
    have hprogram := program_faithful.of_required hp
    obtain ⟨n, rfl, -⟩ := Json.depth_object_le.mp hprogram
    have hnames := bindings_within binding_faithful hnames
    have htypes := bindings_within binding_faithful htypes
    have hdefinitions := bindings_within definition_faithful hdefinitions
    rw [CompilationUnit.toJson, Json.depth_object_le_succ]
    simp only [List.forall_mem_cons]
    exact ⟨hprogram, hnames, htypes, hdefinitions, by simp⟩

end UnitText

namespace CompilationUnit

open UnitText

theorem ofText_toText {u : CompilationUnit} (h : u.toJson.depth ≤ nestingLimit) :
    ofText? u.toText = some u := by
  rw [ofText?, UnitText.ofText?, toText, Json.read_compact, Option.bind_some]
  exact unit_faithful.back h

theorem depth_of_ofText {s : String} {u : CompilationUnit} (h : ofText? s = some u) :
    u.toJson.depth ≤ nestingLimit := by
  obtain ⟨j, -, hread⟩ := Option.bind_eq_some_iff.mp h
  exact unit_faithful.within hread

/-- Unit texts round-trip: the compact text of a unit that was read from some text stays within
the nesting limit and reads back as the unit, and so does that of every unit within the limit. -/
theorem texts_round_trip :
    (∀ (s : String) (u : CompilationUnit), ofText? s = some u →
      u.toJson.depth ≤ nestingLimit ∧ ofText? u.toText = some u) ∧
    ∀ u : CompilationUnit, u.toJson.depth ≤ nestingLimit → ofText? u.toText = some u := by
  refine ⟨fun s u h => ?_, fun u h => ofText_toText h⟩
  have hdepth := depth_of_ofText h
  exact ⟨hdepth, ofText_toText hdepth⟩

/-- A unit in array form, with an escape, a variant around `null`, and an item to pass over. -/
def spelledOtherwise : String :=
  "\x7b\"crate\":[0,[[[0,1,2],[1,1,1],\x7b\"Constant\":[\"\\u0041\"," ++
    "[[0,3,4],[1,1,2],\x7b\"Unit\":null\x7d],[[0,5,6],[1,1,3],\x7b\"Return\":null\x7d]]\x7d]]]," ++
    "\"more\":[[]]\x7d"

theorem spelledOtherwise_round_trips : ∃ u, ofText? spelledOtherwise = some u ∧
    u.toText ≠ spelledOtherwise ∧ u.toJson.depth ≤ nestingLimit ∧ ofText? u.toText = some u := by
  have hread : (ofText? spelledOtherwise).any (·.toText != spelledOtherwise) = true := by
    decide +kernel
  obtain ⟨u, hu, htext⟩ := (Option.any_eq_true ..).mp hread
  have h := texts_round_trip.1 spelledOtherwise u hu
  exact ⟨u, hu, by simpa using htext, h.1, texts_round_trip.2 u h.1⟩

end CompilationUnit

end MiddleEnd
