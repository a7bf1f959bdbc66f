/-
  How deep documents nest, and what it means that a reader and a writer of the unit format fit each
  other (`Faithful`): what is written within the allowed levels is read back, and what is read is
  written within the levels it was read with. The second half is what keeps a rewritten text inside
  the limit, since the other spellings of a unit never nest less than the written one.
-/
import Mathlib.Data.List.Nodup
import MiddleEnd.UnitText.Read
import MiddleEnd.UnitText.Write

namespace MiddleEnd

/-! ## Depth -/

namespace Json

mutual

/-- How many lists and objects stand inside each other. -/
def depth : Json → Nat
  | .arr items => itemsDepth items + 1
  | .obj entries => entriesDepth entries + 1
  | _ => 0

def itemsDepth : List Json → Nat
  | [] => 0
  | j :: rest => max j.depth (itemsDepth rest)

def entriesDepth : List (Option String × Json) → Nat
  | [] => 0
  | (_, j) :: rest => max j.depth (entriesDepth rest)

end

@[simp] theorem depth_null : Json.null.depth = 0 := rfl

@[simp] theorem depth_bool (b : Bool) : (Json.bool b).depth = 0 := rfl

@[simp] theorem depth_nat (n : Nat) : (Json.nat n).depth = 0 := rfl

@[simp] theorem depth_text (s : String) : (Json.text s).depth = 0 := rfl

theorem itemsDepth_le {items : List Json} {n : Nat} :
    itemsDepth items ≤ n ↔ ∀ j ∈ items, j.depth ≤ n := by
  induction items with
  | nil => simp [itemsDepth]
  | cons j items ih => simp [itemsDepth, Nat.max_le, ih]

theorem entriesDepth_le {entries : List (Option String × Json)} {n : Nat} :
    entriesDepth entries ≤ n ↔ ∀ e ∈ entries, e.2.depth ≤ n := by
  induction entries with
  | nil => simp [entriesDepth]
  | cons e entries ih => simp [entriesDepth, Nat.max_le, ih]

@[simp] theorem depth_arr_ne_zero (items : List Json) : (Json.arr items).depth ≠ 0 :=
  Nat.succ_ne_zero _

@[simp] theorem depth_arr_le_succ (items : List Json) (n : Nat) :
    (Json.arr items).depth ≤ n + 1 ↔ ∀ j ∈ items, j.depth ≤ n := by
  rw [depth, Nat.add_le_add_iff_right, itemsDepth_le]

@[simp] theorem depth_object_ne_zero (entries : List (String × Json)) :
    (object entries).depth ≠ 0 :=
  Nat.succ_ne_zero _

@[simp] theorem depth_object_le_succ (entries : List (String × Json)) (n : Nat) :
    (object entries).depth ≤ n + 1 ↔ ∀ e ∈ entries, e.2.depth ≤ n := by
  rw [object, depth, Nat.add_le_add_iff_right, entriesDepth_le, List.forall_mem_map]

theorem depth_arr_le {items : List Json} {n : Nat} :
    (Json.arr items).depth ≤ n ↔ ∃ m, n = m + 1 ∧ ∀ j ∈ items, j.depth ≤ m := by
  cases n with
  | zero => simp
  | succ n => simp

theorem depth_object_le {entries : List (String × Json)} {n : Nat} :
    (object entries).depth ≤ n ↔ ∃ m, n = m + 1 ∧ ∀ e ∈ entries, e.2.depth ≤ m := by
  cases n with
  | zero => simp
  | succ n => simp

@[simp] theorem depth_variant_le_succ (name : String) (content : Json) (n : Nat) :
    (variant name content).depth ≤ n + 1 ↔ content.depth ≤ n := by
  simp [variant]

end Json

/-- The head of a record takes a level itself. -/
theorem Head.depth_record_le {h : Head} {rest : List (String × Json)} {n : Nat} :
    (h.record rest).depth ≤ n ↔ ∃ m, n = m + 2 ∧ ∀ e ∈ rest, e.2.depth ≤ m + 1 := by
  rw [Head.record]
  match n with
  | 0 => simp
  | 1 => simp [Identity.toJson]
  | n + 2 => simp [Identity.toJson, Location.toJson]

theorem Head.depth_kind_le {h : Head} {kind : Json} {n : Nat} :
    (h.record [("kind", kind)]).depth ≤ n ↔ ∃ m, n = m + 2 ∧ kind.depth ≤ m + 1 := by
  simp [depth_record_le]

namespace UnitText

/-! ## Records -/

/-- What an object with these fields holds under a name. -/
def fieldSlot : List (String × Json) → String → Slot
  | [], _ => .absent
  | (key, value) :: rest, name => if key = name then .given value else fieldSlot rest name

theorem find_object (entries : List (String × Json)) (name : String) :
    (match (entries.map fun (key, value) => (some key, value)).find? (·.1 == some name) with
      | some (_, v) => Slot.given v
      | none => .absent) = fieldSlot entries name := by
  induction entries with
  | nil => rfl
  | cons e entries ih =>
    by_cases h : e.1 = name
    · simp [fieldSlot, h]
    · simpa [fieldSlot, h] using ih

theorem countP_object (entries : List (String × Json)) (name : String) :
    (entries.map fun (key, value) => (some key, value)).countP (·.1 == some name) =
      (entries.map (·.1)).count name := by
  induction entries with
  | nil => rfl
  | cons e entries ih => simp [List.countP_cons, List.count_cons, ih]

/-- A record in the object form with the fields in the order of the declaration. -/
@[simp] theorem record_object {names : List String} {entries : List (String × Json)}
    (hnames : entries.map (·.1) = names) (hn : names.Nodup) :
    record names (Json.object entries) = some (fieldSlot entries) := by
  have hkeys : keysOk names (entries.map fun (key, value) => (some key, value)) = true := by
    simp only [keysOk, Bool.and_eq_true, List.all_eq_true, decide_eq_true_eq, countP_object, hnames,
      List.forall_mem_map]
    exact ⟨fun _ _ => rfl, fun name _ => List.nodup_iff_count_le_one.mp hn name⟩
  simp only [record, Json.object, hkeys, if_true]
  exact congrArg some (funext fun name => find_object entries name)

namespace Slot

variable {α : Type} {read : Json → Option α} {slot : Slot}

theorem read_of_required {a : α} (h : slot.required read = some a) : ∃ v, read v = some a := by
  cases slot with
  | given v => exact ⟨v, h⟩
  | absent | cut => simp [required] at h

theorem read_of_optional {a : α} (h : slot.optional read = some (some a)) :
    ∃ v, read v = some a := by
  cases slot with
  | given v =>
    cases v <;> simp only [optional, Option.map_eq_some_iff, Option.some.injEq, reduceCtorEq] at h
    all_goals obtain ⟨_, hread, rfl⟩ := h; exact ⟨_, hread⟩
  | absent | cut => simp [optional] at h

theorem read_of_withDefault {a default : α} (h : slot.withDefault default read = some a) :
    a = default ∨ ∃ v, read v = some a := by
  cases slot with
  | given v => exact .inr ⟨v, h⟩
  | absent | cut => exact .inl (by simpa [withDefault] using h.symm)

@[simp] theorem optional_null : (given .null).optional read = some none := rfl

theorem optional_given {v : Json} {a : α} (hv : v ≠ .null) (h : read v = some a) :
    (given v).optional read = some (some a) := by
  cases v <;> first | exact absurd rfl hv | simp [optional, h]

end Slot

/-! ## Readers and writers that fit each other -/

/-- What is written within the levels is read back, and what is read is written within them. -/
structure Faithful {α : Type} (read : Nat → Json → Option α) (write : α → Json) : Prop where
  back {n : Nat} {a : α} : (write a).depth ≤ n → read n (write a) = some a
  within {n : Nat} {j : Json} {a : α} : read n j = some a → (write a).depth ≤ n

/-! ## Scalars and names of variants -/

@[simp] theorem text_text (s : String) : text (Json.text s) = some s := rfl

@[simp] theorem flag_bool (b : Bool) : flag (.bool b) = some b := rfl

@[simp] theorem word32_toNat (w : UInt32) : word32 (.nat w.toNat) = some w := by
  simp [word32, Json.nat?, w.toNat_lt_size]

@[simp] theorem word64_toNat (w : UInt64) : word64 (.nat w.toNat) = some w := by
  simp [word64, Json.nat?, w.toNat_lt_size]

@[simp] theorem bareVariant_text (levels : Nat) (s : String) :
    bareVariant levels (Json.text s) = some s := rfl

@[simp] theorem variant_variant (name : String) (content : Json) :
    variant (Json.variant name content) = some (name, content) := rfl

@[simp] theorem literalKind_variantName (k : LiteralKind) : literalKind k.variantName = some k := by
  cases k <;> rfl

@[simp] theorem literalHint_variantName (h : LiteralHint) : literalHint h.variantName = some h := by
  cases h <;> rfl

@[simp] theorem arithmeticOp_variantName (op : ArithmeticOp) :
    arithmeticOp op.variantName = some op := by
  cases op <;> rfl

@[simp] theorem comparisonOp_variantName (op : ComparisonOp) :
    comparisonOp op.variantName = some op := by
  cases op <;> rfl

@[simp] theorem lazyOp_variantName (op : LazyOp) : lazyOp op.variantName = some op := by
  cases op <;> rfl

/-! ## Identities, positions and leaves -/

namespace Faithful

variable {α : Type} {read : Nat → Json → Option α} {write : α → Json}

/-- A reader that takes a level for the document itself. -/
theorem of_succ (hread : ∀ j, read 0 j = none) (hwrite : ∀ a, (write a).depth ≠ 0)
    (back : ∀ n a, (write a).depth ≤ n + 1 → read (n + 1) (write a) = some a)
    (within : ∀ n j a, read (n + 1) j = some a → (write a).depth ≤ n + 1) :
    Faithful read write where
  back {n a} h := by
    cases n with
    | zero => exact absurd (Nat.le_zero.mp h) (hwrite a)
    | succ n => exact back n a h
  within {n j a} h := by
    cases n with
    | zero => exact absurd (h.symm.trans (hread j)) (by simp)
    | succ n => exact within n j a h

end Faithful

theorem location_faithful : Faithful location Location.toJson := by
  refine .of_succ (fun _ => rfl) (by simp [Location.toJson]) (fun n l _ => ?_) (fun n j l _ => ?_)
  · simp [location, Location.toJson, fieldSlot, Slot.required]
  · simp [Location.toJson]

theorem identity_faithful : Faithful identity Identity.toJson := by
  refine .of_succ (fun _ => rfl) (by simp [Identity.toJson]) (fun n i _ => ?_) (fun n j i _ => ?_)
  · simp [identity, Identity.toJson, fieldSlot, Slot.required, crateNumber, surfaceId, irId]
  · simp [Identity.toJson]

theorem literal_faithful : Faithful literal Literal.toJson := by
  refine .of_succ (fun _ => rfl) (by simp [Literal.toJson]) (fun n l _ => ?_) (fun n j l _ => ?_)
  · simp [literal, Literal.toJson, fieldSlot, Slot.required, Slot.withDefault]
  · simp [Literal.toJson]

theorem pattern_faithful : Faithful pattern Pattern.toJson := by
  refine .of_succ (fun _ => rfl) (by simp [Pattern.toJson]) (fun n p h => ?_) (fun n j p h => ?_)
  · have hid := identity_faithful.back (n := n) (a := p.id) (by simpa [Pattern.toJson] using h)
    simp [pattern, Pattern.toJson, fieldSlot, Slot.required, Slot.withDefault, hid]
  · simp only [pattern, Option.bind_eq_bind, Option.bind_eq_some_iff] at h
    obtain ⟨slot, -, id, hid, name, -, isMutable, -, ⟨⟩⟩ := h
    obtain ⟨v, hv⟩ := Slot.read_of_required hid
    simpa [Pattern.toJson] using identity_faithful.within hv

theorem structPath_faithful : Faithful structPath StructPath.toJson := by
  refine .of_succ (fun _ => rfl) (by simp [StructPath.toJson]) (fun n p h => ?_)
    (fun n j p h => ?_)
  · have hid := identity_faithful.back (n := n) (a := p.id) (by simpa [StructPath.toJson] using h)
    simp [structPath, StructPath.toJson, fieldSlot, Slot.required, hid]
  · simp only [structPath, Option.bind_eq_bind, Option.bind_eq_some_iff] at h
    obtain ⟨slot, -, id, hid, name, -, ⟨⟩⟩ := h
    obtain ⟨v, hv⟩ := Slot.read_of_required hid
    simpa [StructPath.toJson] using identity_faithful.within hv

/-! ## Heads -/

/-- The fields of a record that starts with a head. -/
def headedSlot (h : Head) (rest : List (String × Json)) : String → Slot :=
  fieldSlot (("mappings", h.id.toJson) :: ("locus", h.locus.toJson) :: rest)

theorem record_headed {names : List String} {h : Head} {rest : List (String × Json)}
    (hnames : rest.map (·.1) = names) (hn : ("mappings" :: "locus" :: names).Nodup) :
    record ("mappings" :: "locus" :: names) (h.record rest) = some (headedSlot h rest) :=
  record_object (by simp [hnames]) hn

@[simp] theorem head_headedSlot (n : Nat) (h : Head) (rest : List (String × Json)) :
    head (n + 1) (headedSlot h rest) = some h := by
  have hid := identity_faithful.back (n := n + 1) (a := h.id) (by simp [Identity.toJson])
  have hlocus := location_faithful.back (n := n + 1) (a := h.locus) (by simp [Location.toJson])
  simp [head, headedSlot, fieldSlot, Slot.required, hid, hlocus]

@[simp] theorem headedSlot_of_ne {name : String} (hid : name ≠ "mappings") (hlocus : name ≠ "locus")
    (h : Head) (rest : List (String × Json)) : headedSlot h rest name = fieldSlot rest name := by
  simp [headedSlot, fieldSlot, hid.symm, hlocus.symm]

theorem levels_of_head {n : Nat} {slot : String → Slot} {h : Head} (hread : head n slot = some h) :
    ∃ m, n = m + 1 := by
  cases n with
  | zero =>
    simp only [head, Option.bind_eq_bind, Option.bind_eq_some_iff] at hread
    obtain ⟨id, hid, -⟩ := hread
    obtain ⟨v, hv⟩ := Slot.read_of_required hid
    simp [identity] at hv
  | succ n => exact ⟨n, rfl⟩

/-! ## Type annotations -/

/-- What the kind of an annotation may be read as. -/
theorem typeKind_eq_some {n : Nat} {h : Head} {j : Json} {t : TypeExpr}
    (hread : typeKind n h j = some t) :
    t = .unit h ∨ (∃ m name, n = m + 1 ∧ t = .path h name) ∨
      ∃ m v element capacity, n = m + 2 ∧ typeExpr m v = some element ∧
        t = .array h element capacity := by
  unfold typeKind at hread
  split at hread
  · simp only [Option.ite_none_right_eq_some, Option.some.injEq] at hread
    exact .inl hread.2.symm
  · exact absurd hread (by simp)
  · simp only [Option.bind_eq_bind, Option.bind_eq_some_iff] at hread
    obtain ⟨⟨name, content⟩, -, hread⟩ := hread
    split at hread
    · exact .inl (by simpa using hread.symm)
    · obtain ⟨name, -, rfl⟩ := Option.map_eq_some_iff.mp hread
      exact .inr (.inl ⟨_, name, rfl, rfl⟩)
    · split at hread
      · exact absurd hread (by simp)
      · simp only [Option.bind_eq_some_iff] at hread
        obtain ⟨slot, -, element, helement, capacity, -, ⟨⟩⟩ := hread
        obtain ⟨v, hv⟩ := Slot.read_of_required helement
        exact .inr (.inr ⟨_, v, element, capacity, rfl, hv, rfl⟩)
    · exact absurd hread (by simp)

theorem typeExpr_eq_some {n : Nat} {j : Json} {t : TypeExpr} (hread : typeExpr n j = some t) :
    ∃ m h v, n = m + 2 ∧ typeKind (m + 1) h v = some t := by
  cases n with
  | zero => simp [typeExpr] at hread
  | succ n =>
    simp only [typeExpr, Option.bind_eq_bind, Option.bind_eq_some_iff] at hread
    obtain ⟨slot, -, h, hhead, hkind⟩ := hread
    obtain ⟨v, hv⟩ := Slot.read_of_required hkind
    obtain ⟨m, rfl⟩ := levels_of_head hhead
    exact ⟨m, h, v, rfl, hv⟩

theorem typeExpr_record {n : Nat} {h : Head} {kind : Json} {t : TypeExpr}
    (hkind : typeKind (n + 1) h kind = some t) :
    typeExpr (n + 2) (h.record [("kind", kind)]) = some t := by
  simp [typeExpr, record_headed, fieldSlot, Slot.required, hkind]

theorem typeKind_array (n : Nat) (h : Head) (content : Json) :
    typeKind (n + 2) h (Json.variant "Array" content) = (do
      let slot ← record ["element", "capacity"] content
      let element ← (slot "element").required (typeExpr n)
      let capacity ← (slot "capacity").required word64
      return .array h element capacity) := by
  simp [typeKind, Json.variant, Json.object, variant]

theorem typeExpr_back : ∀ (t : TypeExpr) {n : Nat},
    t.toJson.depth ≤ n → typeExpr n t.toJson = some t
  | .unit h, n, hd => by
    obtain ⟨m, rfl, -⟩ := Head.depth_kind_le.mp hd
    exact typeExpr_record (by simp [typeKind, Json.text, bareVariant])
  | .path h name, n, hd => by
    obtain ⟨m, rfl, -⟩ := Head.depth_kind_le.mp hd
    exact typeExpr_record (by simp [typeKind, Json.variant, Json.object, variant])
  | .array h element capacity, n, hd => by
    obtain ⟨m, rfl, hkind⟩ := Head.depth_kind_le.mp hd
    obtain ⟨k, rfl, hfields⟩ :=
      Json.depth_object_le.mp ((Json.depth_variant_le_succ _ _ _).mp hkind)
    have helement := typeExpr_back element (hfields ("element", element.toJson) (by simp))
    exact typeExpr_record (by
      simp [typeKind_array, fieldSlot, Slot.required, helement])

theorem typeExpr_within : ∀ (t : TypeExpr) {n : Nat} {j : Json},
    typeExpr n j = some t → t.toJson.depth ≤ n
  | t, n, j, hread => by
    obtain ⟨m, h, v, rfl, hkind⟩ := typeExpr_eq_some hread
    obtain rfl | ⟨_, name, _, rfl⟩ | ⟨k, v, element, capacity, hk, helement, rfl⟩ :=
      typeKind_eq_some hkind
    · exact Head.depth_kind_le.mpr ⟨m, rfl, by simp⟩
    · exact Head.depth_kind_le.mpr ⟨m, rfl, by simp⟩
    · have := typeExpr_within element helement
      obtain rfl : m = k + 1 := by omega
      exact Head.depth_kind_le.mpr ⟨k + 1, rfl, by simpa using this⟩

theorem typeExpr_faithful : Faithful typeExpr TypeExpr.toJson where
  back := typeExpr_back _
  within := typeExpr_within _

end UnitText

end MiddleEnd
