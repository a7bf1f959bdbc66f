/-
  Integer literals keep their value. A literal that spells a value of its primitive type, with
  underscores anywhere between the digits, becomes a constant of the C type of that primitive type,
  and the digits of the constant are those of the value (`Session.literal_keeps_value`).

  The value is read as a signed number of 128 bits, whatever the type is. Of all values of primitive
  types only the upper half of the widest unsigned type lies outside of that
  (`Primitive.Holds.wide`), and a literal of such a value is no literal that can be lowered.
-/
import MiddleEnd.Proofs.Lower.Found

namespace MiddleEnd

/-! ## Reading back decimal digits -/

namespace Binary

theorem isDigit_of_mem_toDigits {n : Nat} {c : Char} (h : c ∈ Nat.toDigits 10 n) :
    isDigit c = true := by
  have hdigit := Nat.isDigit_of_mem_toDigits (by decide) (by decide) h
  simpa [isDigit, Char.isDigit, Char.le_def, UInt32.le_iff_toNat_le] using hdigit

theorem all_isDigit_toDigits (n : Nat) : (Nat.toDigits 10 n).all isDigit = true :=
  List.all_eq_true.2 fun _ => isDigit_of_mem_toDigits

theorem ofDigits_toDigits (n : Nat) : ofDigits (Nat.toDigits 10 n) = n := by
  have h := @Nat.ofDigitChars_ten_toDigits n
  unfold Nat.ofDigitChars at h
  unfold ofDigits
  simpa only [Nat.mul_comm] using h

/-- Digits alone are read as they stand: the first of them is no sign. -/
theorem signedDigits?_of_digits {cs : List Char} (hne : cs ≠ []) (hall : cs.all isDigit = true) :
    signedDigits? cs = some (ofDigits cs : Int) := by
  have hsign : ∀ c rest, isDigit c = false → cs ≠ c :: rest := by
    rintro c rest hc rfl
    rw [List.all_cons, hc] at hall
    cases hall
  unfold signedDigits?
  split
  rename_i negative ds heq
  split at heq
  · exact absurd rfl (hsign _ _ (by decide))
  · exact absurd rfl (hsign _ _ (by decide))
  · obtain ⟨rfl, rfl⟩ := heq
    simp [hall, hne]

theorem signedDigits?_minus {cs : List Char} (hne : cs ≠ []) (hall : cs.all isDigit = true) :
    signedDigits? ('-' :: cs) = some (-(ofDigits cs : Int)) := by
  simp [signedDigits?, hall, hne]

/-- The decimal text of an integer reads back as the integer. -/
theorem signedDigits?_toString (v : Int) : signedDigits? (toString v).toList = some v := by
  rw [Int.toString_eq_repr, Int.repr_eq_if]
  split
  · rename_i h
    rw [Nat.repr_eq_ofList_toDigits, String.toList_ofList,
      signedDigits?_of_digits Nat.toDigits_ne_nil (all_isDigit_toDigits _), ofDigits_toDigits,
      Int.toNat_of_nonneg h]
  · rename_i h
    rw [Nat.repr_eq_ofList_toDigits, String.toList_append, String.toList_ofList,
      String.toList_ofList, List.singleton_append,
      signedDigits?_minus Nat.toDigits_ne_nil (all_isDigit_toDigits _), ofDigits_toDigits,
      Int.toNat_of_nonneg (by omega), Int.neg_neg]

theorem underscore_notMem_toString (v : Int) : '_' ∉ (toString v).toList := by
  have hdigits : ∀ n, '_' ∉ Nat.toDigits 10 n := fun n h =>
    absurd (isDigit_of_mem_toDigits h) (by decide)
  rw [Int.toString_eq_repr, Int.repr_eq_if]
  split <;> simp [Nat.repr_eq_ofList_toDigits, hdigits]

end Binary

/-! ## Values of primitive types -/

/-- The integers that a primitive type holds. -/
def Primitive.Holds : Primitive → Int → Prop
  | .int w, v => -2 ^ (w.bits - 1) ≤ v ∧ v < 2 ^ (w.bits - 1)
  | .uint w, v => 0 ≤ v ∧ v < 2 ^ w.bits
  | .float _, _ => False
  | .bool, _ => False

instance : ∀ (q : Primitive) (v : Int), Decidable (q.Holds v)
  | .int _, _ => inferInstanceAs (Decidable (_ ∧ _))
  | .uint _, _ => inferInstanceAs (Decidable (_ ∧ _))
  | .float _, _ => inferInstanceAs (Decidable False)
  | .bool, _ => inferInstanceAs (Decidable False)

namespace Primitive

variable {q : Primitive} {v : Int}

/-- What is no more than a signed number of 128 bits can be read. -/
theorem Holds.readable (h : q.Holds v) (hv : v < 2 ^ 127) :
    Lower.intRange.1 ≤ v ∧ v ≤ Lower.intRange.2 := by
  cases q with
  | int w => cases w <;> simp [Holds, IntWidth.bits, Lower.intRange] at * <;> omega
  | uint w => cases w <;> simp [Holds, IntWidth.bits, Lower.intRange] at * <;> omega
  | float => exact h.elim
  | bool => exact h.elim

/-- The greater values are those of the widest unsigned type. -/
theorem Holds.wide (h : q.Holds v) (hv : 2 ^ 127 ≤ v) :
    q = .uint .w128 ∧ ¬ v ≤ Lower.intRange.2 := by
  cases q with
  | int w => cases w <;> simp [Holds, IntWidth.bits, Lower.intRange] at * <;> omega
  | uint w => cases w <;> simp [Holds, IntWidth.bits, Lower.intRange] at * <;> omega
  | float => exact h.elim
  | bool => exact h.elim

end Primitive

/-! ## Underscores -/

namespace Lower

variable {q : Primitive} {v : Int}

theorem int?_toString (v : Int) :
    int? (toString v) = if intRange.1 ≤ v ∧ v ≤ intRange.2 then some v else none := by
  rw [int?, Binary.signedDigits?_toString, Option.bind_some]

/-- The second text is the first with underscores inserted anywhere. -/
inductive Grouped : List Char → List Char → Prop
  | nil : Grouped [] []
  | char (c : Char) {cs ds : List Char} : Grouped cs ds → Grouped (c :: cs) (c :: ds)
  | underscore {cs ds : List Char} : Grouped cs ds → Grouped cs ('_' :: ds)

theorem Grouped.filter {cs ds : List Char} (h : Grouped cs ds) (hcs : '_' ∉ cs) :
    ds.filter (· ≠ '_') = cs := by
  induction h with
  | nil => rfl
  | char c h ih =>
    simp only [List.mem_cons, not_or] at hcs
    rw [List.filter_cons_of_pos (by simpa using fun he : c = '_' => hcs.1 he.symm), ih hcs.2]
  | underscore h ih => rw [List.filter_cons_of_neg (by simp), ih hcs]

theorem grouped_of_filter {cs ds : List Char} (h : ds.filter (· ≠ '_') = cs) : Grouped cs ds := by
  subst h
  induction ds with
  | nil => exact .nil
  | cons d ds ih =>
    by_cases hd : d = '_'
    · rw [hd, List.filter_cons_of_neg (by simp)]
      exact ih.underscore
    · rw [List.filter_cons_of_pos (by simpa using hd)]
      exact ih.char d

theorem plainSpelling_of_grouped {s : String} (h : Grouped (toString v).toList s.toList) :
    plainSpelling s = toString v := by
  rw [plainSpelling, h.filter (Binary.underscore_notMem_toString v), String.ofList_toList]

/-! ## Constants -/

theorem type_ofPrimitive (r : IrId) (q : Primitive) :
    type (.ofPrimitive r q) = entered (.ofPrimitive r q) := by
  cases q <;> rfl

/-- An integer constant is the decimal text of its value, for the 32 bit type alone and for others
after a cast. -/
theorem text_int (ct : C.Ty) (v : Int) : (C.Expr.int ct v).text =
    (if ct.spelling = "int32_t" then "" else "((" ++ ct.spelling ++ ")") ++ toString v ++
      (if ct.spelling = "int32_t" then "" else ")") := by
  rw [C.Expr.text, C.intText]
  split <;> simp [String.append_assoc, ToString.toString]

variable {k : Checked} {l : Lowering} {h : Head} {lit : Literal} {r : IrId} {ct : C.Ty}

/-- An integer literal comes down to reading its text and finding the C type. -/
theorem run_literal (hkind : lit.kind = .int)
    (htype : k.types.get? h.id.ir = some (.ofPrimitive r q)) (hv : q.Holds v) :
    (expr k (.literal h lit)).run.run l =
      (require (.malformedLiteral lit.spelling) (int? (plainSpelling lit.spelling)) >>= fun n =>
        type (.ofPrimitive r q) >>= fun ct => return C.Expr.int ct n).run.run l := by
  show (literal k h.id.ir lit).run.run l = _
  rw [literal, run_bind, typeOf, htype, hkind]
  cases q with
  | int w | uint w => rfl
  | float w | bool => exact hv.elim

end Lower

namespace Session

variable {u : CompilationUnit} {n : Nat} {target : String} {l₀ l : Lowering}

/-- What was registered for a primitive type has its C type, at any point of lowering after the
primitive types have been entered. -/
theorem entered_builtin (hroom : (ofUnit u).HasRoom)
    (hprimitives : Lower.Runs (Lower.enterPrimitives ((ofUnit u).checks n).checked) (.empty target)
      () l₀)
    (hsteps : Lower.Steps ((ofUnit u).checks n).checked u.program l₀ l) {q : Primitive} {t : Ty}
    (ht : ((ofUnit u).checks n).types.builtin? q.name = some t) :
    ∃ r ct, t = .ofPrimitive r q ∧ Lower.primitiveTy? t = some ct ∧ l.types[r]? = some ct := by
  have hgrown := rooted_checks hroom n
  rw [TypeTable.builtin?, hgrown.builtins] at ht
  obtain ⟨b, hb, r, hid, rfl, hget⟩ := (based hroom).primitive ht
  have hfound : (l.types[r]?).isSome = true := by
    refine hsteps.keeps_entry (Lower.entry_of_enterPrimitives hprimitives (b := b) ?_ ?_)
    · show b ∈ ((ofUnit u).checks n).scope.bindings.builtins
      rw [checks_scope]
      exact hb
    · show ((ofUnit u).checks n).types.builtinId? b.node = some r
      rw [TypeTable.builtinId?, hgrown.builtinIds]
      exact hid
  obtain ⟨ct, hct⟩ := Option.isSome_iff_exists.1 hfound
  have hconsistent : Lower.Consistent u l :=
    ((Lower.consistent_empty u target).steps (keepsPrimitives hroom n)
      (Lower.steps_of_runs Lower.stepwise_enterPrimitives hprimitives)).steps
      (keepsPrimitives hroom n) hsteps
  -- the entry is that of a primitive type: items have identities of their own
  rcases hconsistent.entered r ct hct with ⟨t, ht', hprim⟩ | ⟨i, hi, _, _, rfl, _⟩
  · cases hget.symm.trans ht'
    exact ⟨r, ct, rfl, hprim, hct⟩
  · exact absurd hget (Lower.head_ne_known hroom hi)

/-- Integer literals keep their value. However often a unit was checked: take any point of lowering
after the primitive types have been entered, an integer literal whose recorded type is the one
registered for a primitive type, and a value which that type holds. If the literal spells the value,
with underscores inserted anywhere, and the value is below 2^127, the literal becomes a constant of
the C type of the primitive type, and the digits of the constant are those of the value. Values from
2^127 on are values of the widest unsigned type only, and there lowering ends in a defect. -/
theorem literal_keeps_value (hroom : (ofUnit u).HasRoom)
    (hprimitives : Lower.Runs (Lower.enterPrimitives ((ofUnit u).checks n).checked) (.empty target)
      () l₀)
    (hsteps : Lower.Steps ((ofUnit u).checks n).checked u.program l₀ l) {q : Primitive} {t : Ty}
    (ht : ((ofUnit u).checks n).types.builtin? q.name = some t) {v : Int} (hv : q.Holds v)
    {h : Head} {lit : Literal} (hkind : lit.kind = .int)
    (htype : ((ofUnit u).checks n).types.get? h.id.ir = some t)
    (hspelling : Lower.Grouped (toString v).toList lit.spelling.toList) :
    (v < 2 ^ 127 → ∃ ct, Lower.primitiveTy? t = some ct ∧
      Lower.Runs (Lower.expr ((ofUnit u).checks n).checked (.literal h lit)) l (.int ct v) l ∧
      (C.Expr.int ct v).text =
        (if ct.spelling = "int32_t" then "" else "((" ++ ct.spelling ++ ")") ++ toString v ++
          (if ct.spelling = "int32_t" then "" else ")") ∧
      Binary.signedDigits? (toString v).toList = some v) ∧
    (2 ^ 127 ≤ v → q = .uint .w128 ∧
      (Lower.expr ((ofUnit u).checks n).checked (.literal h lit)).run.run l =
        (.error (.internal (.malformedLiteral lit.spelling)), l)) := by
  obtain ⟨r, ct, rfl, hct, hentry⟩ := entered_builtin hroom hprimitives hsteps ht
  have hrun := Lower.run_literal (k := ((ofUnit u).checks n).checked) (l := l) hkind htype hv
  rw [Lower.plainSpelling_of_grouped hspelling, Lower.int?_toString] at hrun
  constructor
  · intro hsmall
    rw [if_pos (hv.readable hsmall)] at hrun
    refine ⟨ct, hct, ?_, Lower.text_int ct v, Binary.signedDigits?_toString v⟩
    have hfound : Lower.Runs (Lower.type (.ofPrimitive r q)) l ct l := by
      rw [Lower.type_ofPrimitive, Lower.entered, Lower.runs_get_bind, Lower.runs_require,
        TypeTable.ref_ofPrimitive]
      exact ⟨hentry, rfl⟩
    exact hrun.trans (Lower.runs_bind.2 ⟨v, l, Lower.runs_require.2 ⟨rfl, rfl⟩,
      Lower.runs_bind.2 ⟨ct, l, hfound, Lower.runs_pure.2 ⟨rfl, rfl⟩⟩⟩)
  · intro hlarge
    obtain ⟨rfl, hover⟩ := hv.wide hlarge
    rw [if_neg fun hin => hover hin.2] at hrun
    exact ⟨rfl, hrun⟩

open Samples in
/-- `fn f() { let x = -170_141_183460469231731687303715884105728;
let y = 340282366920938463463374607431768211455; }`, where `x` is of type `i128` and `y` of type
`u128`: both literals spell the last value of their types, and only the first can be lowered. -/
theorem literal_keeps_value_extreme : (ofUnit extreme).HasRoom ∧ ∃ l ct,
    Lower.Runs (Lower.enterPrimitives ((ofUnit extreme).checks 1).checked) (.empty "linux") () l ∧
    Lower.Runs (Lower.expr ((ofUnit extreme).checks 1).checked (.literal (head 5) leastLiteral)) l
      (.int ct (-2 ^ 127)) l ∧
    (C.Expr.int ct (-2 ^ 127)).text = "((__int128)-170141183460469231731687303715884105728)" ∧
    (Lower.expr ((ofUnit extreme).checks 1).checked (.literal (head 8) greatestLiteral)).run.run l =
      (.error (.internal (.malformedLiteral "340282366920938463463374607431768211455")), l) := by
  have hroom : (ofUnit extreme).HasRoom := by decide +kernel
  have hprimitives : Lower.Runs (Lower.enterPrimitives ((ofUnit extreme).checks 1).checked)
      (.empty "linux") () _ := run_of_isOk (by decide +kernel)
  obtain ⟨hleast, _⟩ := literal_keeps_value hroom hprimitives .refl (q := .int .w128)
    (t := .int ⟨18⟩ .w128) (by decide +kernel) (v := -2 ^ 127) (by decide) (h := head 5)
    (rfl : leastLiteral.kind = .int) (by decide +kernel)
    (Lower.grouped_of_filter (by decide +kernel))
  obtain ⟨_, hgreatest⟩ := literal_keeps_value hroom hprimitives .refl (q := .uint .w128)
    (t := .uint ⟨13⟩ .w128) (by decide +kernel) (v := 2 ^ 128 - 1) (by decide) (h := head 8)
    (rfl : greatestLiteral.kind = .int) (by decide +kernel)
    (Lower.grouped_of_filter (by decide +kernel))
  obtain ⟨ct, hct, hrun, htext, _⟩ := hleast (by decide)
  refine ⟨hroom, _, ct, hprimitives, hrun, ?_, (hgreatest (by decide)).2⟩
  obtain rfl := Option.some.inj hct
  exact htext

end Session

end MiddleEnd
