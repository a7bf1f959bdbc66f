/-
  The text of an expression shows how it is grouped. Expressions over names, integer constants of
  the builtin types and truth values are told apart by their texts, up to the numbers that stand
  behind names (`Expr.text_eq_iff`).

  What is needed of a text is where its brackets open and close. Every expression closes each
  bracket that it opens, and outside of all brackets it has no blank and no comma
  (`Expr.Readable.closed`); so a text that starts with an expression and goes on with a blank, a
  comma or a closing bracket can be cut behind the expression in one way only (`Closed.cut`). The
  form of an expression is read off the ends of its text (`Form.read_chars`), and an expression of a
  known form is cut into its parts.
-/
import Mathlib.Data.List.Basic
import Mathlib.Data.Nat.PSub
import MiddleEnd.C.Basic
import MiddleEnd.Compiler.Token
import MiddleEnd.Proofs.Lower.Integers

namespace MiddleEnd

/-! ## Operators -/

/-- All operators. -/
def BinaryOp.all : List BinaryOp :=
  [.add, .sub, .mul, .div, .rem, .bitAnd, .bitOr, .bitXor, .shl, .shr].map .arithmetic ++
    [.eq, .ne, .lt, .le, .gt, .ge].map .comparison ++ [.and, .or].map .lazy

theorem BinaryOp.find?_symbol (op : BinaryOp) :
    BinaryOp.all.find? (·.symbol = op.symbol) = some op := by
  rcases op with op | op | op <;> cases op <;> decide

theorem BinaryOp.symbol_injective : Function.Injective BinaryOp.symbol := by
  intro op op' h
  have hfind := op.find?_symbol
  rw [h, op'.find?_symbol] at hfind
  exact (Option.some.inj hfind).symm

namespace C

/-! ## Names -/

/-- The text is a name of C. -/
def isIdentifier (s : String) : Bool :=
  match s.toList with
  | [] => false
  | c :: cs => Compiler.isFirst c && cs.all Compiler.isLater

/-- A name that is not read as a truth value. -/
def IsName (s : String) : Prop := isIdentifier s = true ∧ s ≠ "true" ∧ s ≠ "false"

instance : DecidablePred IsName := fun _ => inferInstanceAs (Decidable (_ ∧ _))

theorem isIdentifier_iff {s : String} : isIdentifier s = true ↔
    ∃ c cs, s.toList = c :: cs ∧ Compiler.isFirst c = true ∧
      ∀ d ∈ cs, Compiler.isLater d = true := by
  unfold isIdentifier
  cases s.toList with
  | nil => simp
  | cons c cs => simp

/-! ## Brackets -/

/-- Brackets that open. -/
def opening : List Char := ['(', '[', '{']

/-- Brackets that close. -/
def closing : List Char := [')', ']', '}']

/-- Characters between the parts of a text. -/
def separating : List Char := [' ', ',']

/-- How many brackets are open behind a character, if so many are open before it. There is no such
number if a bracket closes that never opened, nor behind a separator outside of all brackets. -/
def depthAfter (d : Nat) (c : Char) : Option Nat :=
  if c ∈ opening then some (d + 1)
  else if c ∈ closing then d.ppred
  else if c ∈ separating ∧ d = 0 then none
  else some d

/-- How many brackets are open behind a text. -/
def depth (d : Nat) (x : List Char) : Option Nat := x.foldlM depthAfter d

/-- The text closes the brackets that it opens and no others, and separators stand inside of
brackets only. -/
def Closed (x : List Char) : Prop := ∀ d, depth d x = some d

/-- The text is of that kind if it stands inside of a bracket. -/
def Enclosed (x : List Char) : Prop := ∀ d, depth (d + 1) x = some (d + 1)

theorem depth_cons (d : Nat) (c : Char) (x : List Char) :
    depth d (c :: x) = (depthAfter d c).bind (depth · x) :=
  rfl

theorem depth_append (d : Nat) (x y : List Char) :
    depth d (x ++ y) = (depth d x).bind (depth · y) :=
  List.foldlM_append

theorem depthAfter_opening {c : Char} (h : c ∈ opening) (d : Nat) :
    depthAfter d c = some (d + 1) :=
  if_pos h

theorem depthAfter_closing {c : Char} (h : c ∈ closing) (d : Nat) :
    depthAfter d c = d.ppred := by
  have hopening : ∀ c ∈ closing, c ∉ opening := by simp [closing, opening]
  rw [depthAfter, if_neg (hopening c h), if_pos h]

theorem depthAfter_separating {c : Char} (h : c ∈ separating) (d : Nat) :
    depthAfter d c = if d = 0 then none else some d := by
  have hopening : ∀ c ∈ separating, c ∉ opening := by simp [separating, opening]
  have hclosing : ∀ c ∈ separating, c ∉ closing := by simp [separating, closing]
  simp [depthAfter, hopening c h, hclosing c h, h]

/-- Outside of all brackets there is no number of open brackets behind a separator or a bracket that
closes. -/
theorem depthAfter_stop {c : Char} (h : c ∈ closing ++ separating) : depthAfter 0 c = none := by
  rcases List.mem_append.1 h with h | h
  · exact depthAfter_closing h 0
  · exact depthAfter_separating h 0

/-- The character is neither a bracket nor a separator. -/
def IsPlain (c : Char) : Prop := c ∉ opening ++ closing ++ separating

instance : DecidablePred IsPlain := fun _ => inferInstanceAs (Decidable (_ ∉ _))

theorem depthAfter_plain {c : Char} (h : IsPlain c) (d : Nat) : depthAfter d c = some d := by
  simp only [IsPlain, List.mem_append, not_or] at h
  rw [depthAfter, if_neg h.1.1, if_neg h.1.2, if_neg fun hs => h.2 hs.1]

theorem plain_of_all {x : List Char} (h : x.all (fun c => IsPlain c) = true) :
    ∀ c ∈ x, IsPlain c := fun c hc => of_decide_eq_true (List.all_eq_true.1 h c hc)

namespace Closed

variable {x y : List Char}

theorem of_plain (h : ∀ c ∈ x, IsPlain c) : Closed x := by
  intro d
  induction x with
  | nil => rfl
  | cons c x ih =>
    rw [depth_cons, depthAfter_plain (h c List.mem_cons_self)]
    exact ih fun e he => h e (List.mem_cons_of_mem c he)

theorem of_all (h : x.all (fun c => IsPlain c) = true) : Closed x := of_plain (plain_of_all h)

theorem append (hx : Closed x) (hy : Closed y) : Closed (x ++ y) := by
  intro d
  rw [depth_append, hx d]
  exact hy d

theorem enclosed (h : Closed x) : Enclosed x := fun d => h (d + 1)

end Closed

namespace Enclosed

variable {x y : List Char}

theorem of_all (h : x.all (fun c => c ∉ opening ∧ c ∉ closing) = true) : Enclosed x := by
  intro d
  induction x with
  | nil => rfl
  | cons c x ih =>
    simp only [List.all_cons, Bool.and_eq_true, decide_eq_true_eq] at h
    obtain ⟨⟨hopening, hclosing⟩, hrest⟩ := h
    rw [depth_cons, depthAfter, if_neg hopening, if_neg hclosing, if_neg (by simp)]
    exact ih hrest

theorem append (hx : Enclosed x) (hy : Enclosed y) : Enclosed (x ++ y) := by
  intro d
  rw [depth_append, hx d]
  exact hy d

theorem separated {c : Char} (hc : c ∈ separating) (hx : Enclosed x) : Enclosed (c :: x) := by
  intro d
  rw [depth_cons, depthAfter_separating hc, if_neg (Nat.succ_ne_zero d)]
  exact hx d

end Enclosed

theorem Closed.bracket {x : List Char} {o c : Char} (ho : o ∈ opening) (hc : c ∈ closing)
    (h : Enclosed x) : Closed (o :: (x ++ [c])) := by
  intro d
  rw [depth_cons, depthAfter_opening ho, Option.bind_some, depth_append, h d, Option.bind_some,
    depth_cons, depthAfter_closing hc]
  rfl

/-- A text in parentheses. -/
def parenthesized (x : List Char) : List Char := '(' :: (x ++ [')'])

/-- A text in braces, with blanks inside of them. -/
def braced (x : List Char) : List Char := '{' :: ((' ' :: (x ++ [' '])) ++ ['}'])

theorem Enclosed.parenthesized {x : List Char} (h : Enclosed x) : Closed (parenthesized x) :=
  .bracket (by decide) (by decide) h

theorem Enclosed.braced {x : List Char} (h : Enclosed x) : Closed (braced x) := by
  have hblank : Enclosed [' '] := fun _ => rfl
  exact .bracket (by decide) (by decide) ((h.append hblank).separated (by decide))

theorem parenthesized_inj {x y : List Char} : parenthesized x = parenthesized y ↔ x = y := by
  simp [C.parenthesized]

theorem braced_inj {x y : List Char} : braced x = braced y ↔ x = y := by
  simp [C.braced]

/-! ## Words -/

/-- What no bracket and no separator satisfies makes a character plain. -/
theorem plain_of {p : Char → Bool} (hp : (opening ++ closing ++ separating).all (!p ·) = true)
    {c : Char} (h : p c = true) : IsPlain c := by
  intro hm
  have hnot := List.all_eq_true.1 hp c hm
  rw [h] at hnot
  cases hnot

theorem IsName.plain {s : String} (h : IsName s) : ∀ c ∈ s.toList, IsPlain c := by
  obtain ⟨c, cs, hs, hc, hcs⟩ := isIdentifier_iff.1 h.1
  rw [hs]
  intro d hd
  refine plain_of (p := Compiler.isLater) (by decide) ?_
  rcases List.mem_cons.1 hd with rfl | hd
  · rw [Compiler.isLater, hc, Bool.true_or, Bool.true_or]
  · exact hcs d hd

theorem IsName.ne_nil {s : String} (h : IsName s) : s.toList ≠ [] := by
  obtain ⟨c, cs, hs, -⟩ := isIdentifier_iff.1 h.1
  rw [hs]
  exact List.cons_ne_nil c cs

theorem IsName.notMem {s : String} (h : IsName s) : ')' ∉ s.toList :=
  fun hm => h.plain _ hm (by decide)

theorem exists_head_of_plain {x : List Char} (hne : x ≠ []) (h : ∀ c ∈ x, IsPlain c) :
    ∃ c y, x = c :: y ∧ c ≠ '{' := by
  obtain ⟨c, y, rfl⟩ := List.exists_cons_of_ne_nil hne
  refine ⟨c, y, rfl, ?_⟩
  rintro rfl
  exact h _ List.mem_cons_self (by decide)

theorem not_isFirst_of_isDigit {c : Char} (h : Binary.isDigit c = true) :
    Compiler.isFirst c = false := by
  have hdigits : ∀ n < 58, 48 ≤ n → Compiler.isFirst (Char.ofNat n) = false := by decide
  have hrange : 48 ≤ c.toNat ∧ c.toNat ≤ 57 := by
    simp only [Binary.isDigit, Bool.and_eq_true, decide_eq_true_eq] at h
    exact h
  have hfirst := hdigits c.toNat (by omega) hrange.1
  rwa [Char.ofNat_toNat] at hfirst

theorem plain_symbol (op : BinaryOp) : ∀ c ∈ op.symbol.toList, IsPlain c := by
  refine plain_of_all ?_
  rcases op with op | op | op <;> cases op <;> decide

/-- An integer is written with digits, behind a minus sign if it is negative. -/
theorem sign_or_digit (v : Int) :
    ∀ c ∈ (toString v).toList, c = '-' ∨ Binary.isDigit c = true := by
  have hdigits : ∀ n, ∀ c ∈ Nat.toDigits 10 n, c = '-' ∨ Binary.isDigit c = true :=
    fun n c hc => .inr (Binary.isDigit_of_mem_toDigits hc)
  rw [Int.toString_eq_repr, Int.repr_eq_if]
  split
  · simpa [Nat.repr_eq_ofList_toDigits] using hdigits _
  · simpa [Nat.repr_eq_ofList_toDigits] using hdigits _

theorem toString_ne_nil (v : Int) : (toString v).toList ≠ [] := by
  intro h
  have hread := Binary.signedDigits?_toString v
  rw [h] at hread
  cases hread

theorem plain_toString (v : Int) : ∀ c ∈ (toString v).toList, IsPlain c := by
  intro c hc
  rcases sign_or_digit v c hc with rfl | hdigit
  · decide
  · exact plain_of (p := Binary.isDigit) (by decide) hdigit

/-- The builtin integer types. -/
def IsInteger (t : Ty) : Prop :=
  ∃ unsigned, ∃ w : IntWidth, t.spelling = (Ty.integer unsigned w.bits).spelling

theorem IsInteger.notMem {t : Ty} (h : IsInteger t) : ')' ∉ t.spelling.toList := by
  obtain ⟨unsigned, w, ht⟩ := h
  rw [ht]
  cases unsigned <;> cases w <;> decide

theorem IsInteger.ne_void {t : Ty} (h : IsInteger t) : t.spelling ≠ "void" := by
  obtain ⟨unsigned, w, ht⟩ := h
  rw [ht]
  cases unsigned <;> cases w <;> decide

theorem enclosed_integer {t : Ty} (h : IsInteger t) : Enclosed t.spelling.toList := by
  obtain ⟨unsigned, w, ht⟩ := h
  rw [ht]
  refine .of_all ?_
  cases unsigned <;> cases w <;> decide

/-! ## Cutting texts -/

/-- A text that is put together from two parts can be cut in one way only, if neither first part has
the other one as its start and goes on as the text does there. -/
theorem cut_unique {x x' y y' : List Char} {s s' : Char} (heq : x ++ s :: y = x' ++ s' :: y')
    (h : ∀ z, x' ≠ x ++ s :: z) (h' : ∀ z, x ≠ x' ++ s' :: z) : x = x' ∧ s :: y = s' :: y' := by
  rcases List.append_eq_append_iff.1 heq with ⟨z, hx, hy⟩ | ⟨z, hx, hy⟩
  · cases z with
    | nil => exact ⟨by rw [hx, List.append_nil], hy⟩
    | cons c z =>
      obtain ⟨rfl, -⟩ := List.cons.inj hy
      exact absurd hx (h z)
  · cases z with
    | nil => exact ⟨by rw [hx, List.append_nil], hy.symm⟩
    | cons c z =>
      obtain ⟨rfl, -⟩ := List.cons.inj hy
      exact absurd hx (h' z)

theorem cut_notMem {x x' y y' : List Char} {s : Char} (heq : x ++ s :: y = x' ++ s :: y')
    (h : s ∉ x) (h' : s ∉ x') : x = x' ∧ y = y' := by
  have hcut := cut_unique heq (fun z hz => h' (hz ▸ by simp)) (fun z hz => h (hz ▸ by simp))
  exact ⟨hcut.1, (List.cons.inj hcut.2).2⟩

/-- A text in parentheses that has none itself ends where they close. -/
theorem parenthesized_cut {x x' y y' : List Char} (h : ')' ∉ x) (h' : ')' ∉ x')
    (heq : parenthesized x ++ y = parenthesized x' ++ y') : x = x' ∧ y = y' := by
  have heq : x ++ ')' :: y = x' ++ ')' :: y' := by simpa [parenthesized] using heq
  exact cut_notMem heq h h'

/-- No closed text goes on behind another one with a separator or a bracket that closes. -/
theorem Closed.ne_stop {x x' : List Char} (hx : Closed x) (hx' : Closed x') {s : Char}
    (hs : s ∈ closing ++ separating) (z : List Char) : x' ≠ x ++ s :: z := by
  intro heq
  have hdepth := hx' 0
  rw [heq, depth_append, hx 0, Option.bind_some, depth_cons, depthAfter_stop hs] at hdepth
  cases hdepth

/-- Behind a closed text there is no separator outside of all brackets. -/
theorem depth_separated {x : List Char} (hx : Closed x) {s : Char} (hs : s ∈ closing ++ separating)
    (y : List Char) : depth 0 (x ++ s :: y) = none := by
  rw [depth_append, hx 0, Option.bind_some, depth_cons, depthAfter_stop hs]
  rfl

/-- A closed text ends where a separator or a bracket follows that closes. -/
theorem Closed.cut {x x' y y' : List Char} {s s' : Char} (hx : Closed x) (hx' : Closed x')
    (hs : s ∈ closing ++ separating) (hs' : s' ∈ closing ++ separating)
    (heq : x ++ s :: y = x' ++ s' :: y') : x = x' ∧ s :: y = s' :: y' :=
  cut_unique heq (hx.ne_stop hx' hs) (hx'.ne_stop hx hs')

/-- A closed text behind a bracket that opens starts where the bracket stands. -/
theorem Closed.cut_back {x x' y y' : List Char} {o : Char} (ho : o ∈ opening) (hy : Closed y)
    (hy' : Closed y') (heq : x ++ o :: y = x' ++ o :: y') : x = x' ∧ y = y' := by
  -- one of the texts would hold the bracket and the other text behind it, and so close it
  have hne : ∀ {y y' : List Char}, Closed y → Closed y' → ∀ z, y' ≠ z ++ o :: y := by
    intro y y' hy hy' z heq
    have hdepth := hy' 0
    rw [heq, depth_append] at hdepth
    cases hz : depth 0 z with
    | none =>
      rw [hz] at hdepth
      cases hdepth
    | some d =>
      rw [hz, Option.bind_some, depth_cons, depthAfter_opening ho, Option.bind_some,
        hy (d + 1)] at hdepth
      cases hdepth
  rcases List.append_eq_append_iff.1 heq with ⟨z, hx, hrest⟩ | ⟨z, hx, hrest⟩
  · cases z with
    | nil => exact ⟨by rw [hx, List.append_nil], (List.cons.inj hrest).2⟩
    | cons c z => exact absurd (List.cons.inj hrest).2 (hne hy' hy z)
  · cases z with
    | nil => exact ⟨by rw [hx, List.append_nil], (List.cons.inj hrest).2.symm⟩
    | cons c z => exact absurd (List.cons.inj hrest).2 (hne hy hy' z)

/-! ## Expressions -/

namespace Expr

mutual

/-- The expression is built over names, integer constants of the builtin types and truth values. -/
def Readable : Expr → Prop
  | .verbatim _ | .float .. | .constant _ => False
  | .int t _ => IsInteger t
  | .bool _ | .unit => True
  | .var _ name => IsName name
  | .binary _ lhs rhs => lhs.Readable ∧ rhs.Readable
  | .call _ name args => IsName name ∧ AllReadable args
  | .index base position => base.Readable ∧ position.Readable
  | .array t values | .struct t values => IsName t.spelling ∧ AllReadable values

def AllReadable : List Expr → Prop
  | [] => True
  | e :: es => e.Readable ∧ AllReadable es

end

mutual

/-- The expression with its names alone: without the numbers of variables and functions, and with
types as they are spelled. -/
def byName : Expr → Expr
  | .int t v => .int (.named t.spelling) v
  | .float t v => .float (.named t.spelling) v
  | .var _ name => .var ⟨0⟩ name
  | .binary op lhs rhs => .binary op lhs.byName rhs.byName
  | .call _ name args => .call ⟨0⟩ name (allByName args)
  | .index base position => .index base.byName position.byName
  | .array t values => .array (.named t.spelling) (allByName values)
  | .struct t values => .struct (.named t.spelling) (allByName values)
  | e => e

def allByName : List Expr → List Expr
  | [] => []
  | e :: es => e.byName :: allByName es

end

mutual

/-- Only names are seen in the text. -/
theorem text_byName : ∀ e : Expr, e.byName.text = e.text
  | .verbatim _ | .bool _ | .unit | .constant _ | .var .. | .int .. | .float .. => rfl
  | .binary _ lhs rhs => by rw [byName, text, text, text_byName lhs, text_byName rhs]
  | .call _ _ args => by rw [byName, text, text, texts_allByName args]
  | .index base position => by rw [byName, text, text, text_byName base, text_byName position]
  | .array _ values => by
    rw [byName, text, text, texts_allByName values]
    rfl
  | .struct _ values => by
    rw [byName, text, text, texts_allByName values]
    rfl

theorem texts_allByName : ∀ es : List Expr, texts (allByName es) = texts es
  | [] => rfl
  | [e] => text_byName e
  | e :: f :: es => by
    have hrest := texts_allByName (f :: es)
    rw [allByName] at hrest
    rw [allByName, allByName, texts, texts, text_byName e, hrest]

end

/-- The characters of an expression's text. -/
def chars (e : Expr) : List Char := e.text.toList

def charsOf (es : List Expr) : List Char := (texts es).toList

/-- What stands behind an expression in a list, with the others behind it. -/
def following : List Expr → List Char
  | [] => []
  | e :: es => ',' :: ' ' :: charsOf (e :: es)

theorem chars_int (t : Ty) (v : Int) : (Expr.int t v).chars =
    if t.spelling = "int32_t" then (toString v).toList
    else parenthesized (parenthesized t.spelling.toList ++ (toString v).toList) := by
  rw [chars, Lower.text_int]
  split <;> simp [parenthesized]

theorem chars_binary (op : BinaryOp) (lhs rhs : Expr) : (Expr.binary op lhs rhs).chars =
    parenthesized (lhs.chars ++ ' ' :: (op.symbol.toList ++ ' ' :: rhs.chars)) := by
  simp [chars, text, parenthesized, ToString.toString]

theorem chars_call (id : FunctionId) (name : String) (args : List Expr) :
    (Expr.call id name args).chars = name.toList ++ parenthesized (charsOf args) := by
  simp [chars, charsOf, text, parenthesized, ToString.toString]

theorem chars_index (base position : Expr) : (Expr.index base position).chars =
    (base.chars ++ ['.', 'v']) ++ '[' :: (position.chars ++ [']']) := by
  simp [chars, text, ToString.toString]

theorem chars_array (t : Ty) (values : List Expr) : (Expr.array t values).chars =
    parenthesized t.spelling.toList ++ braced (braced (charsOf values)) := by
  simp [chars, charsOf, text, parenthesized, braced, ToString.toString]

theorem chars_struct (t : Ty) (values : List Expr) : (Expr.struct t values).chars =
    parenthesized t.spelling.toList ++ braced (charsOf values) := by
  simp [chars, charsOf, text, parenthesized, braced, ToString.toString]

theorem charsOf_cons (e : Expr) (es : List Expr) : charsOf (e :: es) = e.chars ++ following es := by
  cases es with
  | nil => simp [charsOf, chars, texts, following]
  | cons f es => simp [charsOf, chars, texts, following, ToString.toString]

/-! ## Expressions close their brackets -/

mutual

theorem Readable.closed : ∀ {e : Expr}, e.Readable → Closed e.chars
  | .int t v, h => by
    rw [chars_int]
    split
    · exact .of_plain (plain_toString v)
    · exact ((enclosed_integer h).parenthesized.append
        (.of_plain (plain_toString v))).enclosed.parenthesized
  | .bool b, _ => by cases b <;> exact .of_all (by decide)
  | .unit, _ => by
    have hvoid : Enclosed "void".toList := .of_all (by decide)
    have hzero : Closed ['0'] := .of_all (by decide)
    exact (hvoid.parenthesized.append hzero).enclosed.parenthesized
  | .var _ _, h => .of_plain h.plain
  | .binary op lhs rhs, h => by
    rw [chars_binary]
    have hop : Closed op.symbol.toList := .of_plain (plain_symbol op)
    have hrhs : Enclosed (op.symbol.toList ++ ' ' :: rhs.chars) :=
      hop.enclosed.append (h.2.closed.enclosed.separated (by decide))
    exact (h.1.closed.enclosed.append (hrhs.separated (by decide))).parenthesized
  | .call _ _ args, h => by
    rw [chars_call]
    exact (Closed.of_plain h.1.plain).append (AllReadable.enclosed h.2).parenthesized
  | .index base position, h => by
    rw [chars_index]
    exact (h.1.closed.append (.of_all (by decide))).append
      (.bracket (by decide) (by decide) h.2.closed.enclosed)
  | .array t values, h => by
    rw [chars_array]
    exact (Closed.of_plain h.1.plain).enclosed.parenthesized.append
      (AllReadable.enclosed h.2).braced.enclosed.braced
  | .struct t values, h => by
    rw [chars_struct]
    exact (Closed.of_plain h.1.plain).enclosed.parenthesized.append
      (AllReadable.enclosed h.2).braced

theorem AllReadable.enclosed : ∀ {es : List Expr}, AllReadable es → Enclosed (charsOf es)
  | [], _ => fun _ => rfl
  | e :: es, h => by
    rw [charsOf_cons]
    refine h.1.closed.enclosed.append ?_
    cases es with
    | nil => exact fun _ => rfl
    | cons f es =>
      exact ((AllReadable.enclosed h.2).separated (by decide)).separated (by decide)

end

end Expr

/-! ## Forms -/

/-- The forms of expressions. -/
inductive Form
  /-- Text that is not read back. -/
  | other
  | int
  | bool
  | unit
  | var
  | binary
  | call
  | index
  | array
  | struct
  deriving DecidableEq

namespace Form

/-- The form of a text without brackets. -/
def ofWord (x : List Char) : Form :=
  if x = "true".toList ∨ x = "false".toList then .bool
  else if x.head?.any fun c => c = '-' || Binary.isDigit c then .int
  else .var

/-- The form of a text in parentheses. -/
def ofParenthesized (x : List Char) : Form :=
  if depth 0 x = none then .binary
  else if x = parenthesized "void".toList ++ ['0'] then .unit
  else .int

/-- The form of a text that is braced behind a type in parentheses. The text in the braces of an
array is braced once more. -/
def ofBraced (x : List Char) : Form :=
  if (x.dropWhile (· ≠ ')'))[3]? = some '{' then .array else .struct

/-- The form of a text, by its last character and by its first one. -/
def read (x : List Char) : Form :=
  if x.getLast? = some ']' then .index
  else if x.getLast? = some '}' then ofBraced x
  else if x.getLast? = some ')' then
    if x.head? = some '(' then ofParenthesized x.tail.dropLast else .call
  else ofWord x

variable {x y : List Char}

theorem read_word (h : ∀ c ∈ x, IsPlain c) : read x = ofWord x := by
  have hlast : ∀ m ∈ closing, x.getLast? ≠ some m := by
    intro m hm hx
    refine h m (List.mem_of_getLast? hx) ?_
    simp [hm]
  rw [read, if_neg (hlast _ (by decide)), if_neg (hlast _ (by decide)),
    if_neg (hlast _ (by decide))]

theorem read_parenthesized (x : List Char) : read (parenthesized x) = ofParenthesized x := by
  simp [read, parenthesized, List.getLast?_cons]

theorem read_call (hne : x ≠ []) (h : ∀ c ∈ x, IsPlain c) (y : List Char) :
    read (x ++ parenthesized y) = .call := by
  obtain ⟨c, x, rfl⟩ := List.exists_cons_of_ne_nil hne
  have hc : c ≠ '(' := by
    rintro rfl
    exact h _ List.mem_cons_self (by decide)
  simp [read, parenthesized, List.getLast?_cons, hc]

theorem read_index (x y : List Char) : read (x ++ '[' :: (y ++ [']'])) = .index := by
  simp [read, List.getLast?_cons]

theorem read_braced (x y : List Char) :
    read (parenthesized x ++ braced y) = ofBraced (parenthesized x ++ braced y) := by
  simp [read, braced, parenthesized, List.getLast?_cons]

theorem ofBraced_eq (h : ')' ∉ x) : ofBraced (parenthesized x ++ braced y) =
    if (y ++ [' ']).head? = some '{' then .array else .struct := by
  have hdrop : (parenthesized x ++ braced y).dropWhile (· ≠ ')') = ')' :: braced y := by
    have hall : ∀ c ∈ '(' :: x, decide (c ≠ ')') = true := by
      intro c hc
      rcases List.mem_cons.1 hc with rfl | hc
      · decide
      · exact decide_eq_true fun he => h (he ▸ hc)
    have hsplit : parenthesized x ++ braced y = ('(' :: x) ++ ')' :: braced y := by
      simp [parenthesized]
    rw [hsplit, List.dropWhile_append_of_pos hall]
    rfl
  rw [ofBraced, hdrop, braced]
  cases y <;> rfl

theorem ofWord_toString (v : Int) : ofWord (toString v).toList = .int := by
  obtain ⟨c, x, hx⟩ := List.exists_cons_of_ne_nil (toString_ne_nil v)
  have hc : c = '-' ∨ Binary.isDigit c = true := sign_or_digit v c (hx ▸ List.mem_cons_self)
  have hword : c ≠ 't' ∧ c ≠ 'f' := by
    constructor <;> rintro rfl <;> exact absurd hc (by decide)
  rw [hx, ofWord, if_neg (by simp [hword]), if_pos (by simpa using hc)]

theorem ofWord_name {s : String} (h : IsName s) : ofWord s.toList = .var := by
  obtain ⟨hidentifier, htrue, hfalse⟩ := h
  obtain ⟨c, x, hx, hc, -⟩ := isIdentifier_iff.1 hidentifier
  have hsign : c ≠ '-' := by
    rintro rfl
    cases hc
  have hdigit : Binary.isDigit c = false := by
    by_contra hdigit
    rw [not_isFirst_of_isDigit (Bool.eq_true_of_not_eq_false hdigit)] at hc
    cases hc
  have htruth : ¬ (s.toList = "true".toList ∨ s.toList = "false".toList) := by
    simp only [String.toList_inj, htrue, hfalse, or_self, not_false_eq_true]
  rw [ofWord, if_neg htruth, hx, if_neg (by simp [hsign, hdigit])]

theorem ofParenthesized_cast {t : Ty} (h : IsInteger t) (v : Int) :
    ofParenthesized (parenthesized t.spelling.toList ++ (toString v).toList) = .int := by
  have hclosed : Closed (parenthesized t.spelling.toList ++ (toString v).toList) :=
    (enclosed_integer h).parenthesized.append (.of_plain (plain_toString v))
  have hvoid : parenthesized t.spelling.toList ++ (toString v).toList ≠
      parenthesized "void".toList ++ ['0'] := fun heq =>
    h.ne_void (String.toList_inj.1 (parenthesized_cut h.notMem (by decide) heq).1)
  rw [ofParenthesized, hclosed 0, if_neg (Option.some_ne_none 0), if_neg hvoid]

end Form

namespace Expr

/-- The form of an expression. -/
def form : Expr → Form
  | .verbatim _ | .float .. | .constant _ => .other
  | .int .. => .int
  | .bool _ => .bool
  | .unit => .unit
  | .var .. => .var
  | .binary .. => .binary
  | .call .. => .call
  | .index .. => .index
  | .array .. => .array
  | .struct .. => .struct

/-- No expression starts with a brace. -/
theorem Readable.head : ∀ {e : Expr}, e.Readable → ∃ c x, e.chars = c :: x ∧ c ≠ '{'
  | .int t v, _ => by
    rw [chars_int]
    split
    · exact exists_head_of_plain (toString_ne_nil v) (plain_toString v)
    · exact ⟨_, _, rfl, by decide⟩
  | .bool b, _ => by cases b <;> exact ⟨_, _, rfl, by decide⟩
  | .unit, _ => ⟨_, _, rfl, by decide⟩
  | .var _ _, h => exists_head_of_plain h.ne_nil h.plain
  | .binary .., _ => by
    rw [chars_binary]
    exact ⟨_, _, rfl, by decide⟩
  | .call _ name args, h => by
    obtain ⟨c, x, hx, hc⟩ := exists_head_of_plain h.1.ne_nil h.1.plain
    rw [chars_call, hx]
    exact ⟨c, _, rfl, hc⟩
  | .index base position, h => by
    obtain ⟨c, x, hx, hc⟩ := h.1.head
    rw [chars_index, hx]
    exact ⟨c, _, rfl, hc⟩
  | .array .., _ => by
    rw [chars_array]
    exact ⟨_, _, rfl, by decide⟩
  | .struct .., _ => by
    rw [chars_struct]
    exact ⟨_, _, rfl, by decide⟩

theorem AllReadable.head {es : List Expr} (h : AllReadable es) :
    (charsOf es ++ [' ']).head? ≠ some '{' := by
  cases es with
  | nil => decide
  | cons e es =>
    obtain ⟨c, x, hx, hc⟩ := h.1.head
    rw [charsOf_cons, hx]
    simpa using hc

/-- The form of an expression shows in its text. -/
theorem Readable.read_chars {e : Expr} (h : e.Readable) : Form.read e.chars = e.form := by
  cases e with
  | verbatim | float | constant => exact h.elim
  | int t v =>
    rw [chars_int, form]
    split
    · rw [Form.read_word (plain_toString v), Form.ofWord_toString]
    · rw [Form.read_parenthesized, Form.ofParenthesized_cast h]
  | bool b => cases b <;> rfl
  | unit => rfl
  | var id name => exact (Form.read_word h.plain).trans (Form.ofWord_name h)
  | binary op lhs rhs =>
    rw [chars_binary, Form.read_parenthesized, Form.ofParenthesized,
      if_pos (depth_separated h.1.closed (by decide) _)]
    rfl
  | call id name args => rw [chars_call, Form.read_call h.1.ne_nil h.1.plain, form]
  | index base position => rw [chars_index, Form.read_index, form]
  | array t values =>
    rw [chars_array, Form.read_braced, Form.ofBraced_eq h.1.notMem]
    rfl
  | struct t values =>
    rw [chars_struct, Form.read_braced, Form.ofBraced_eq h.1.notMem, if_neg (AllReadable.head h.2),
      form]

/-! ## Reading expressions back -/

theorem following_stop (es : List Expr) :
    ∃ s ∈ closing ++ separating, ∃ y, following es ++ [')'] = s :: y := by
  cases es with
  | nil => exact ⟨_, by decide, _, rfl⟩
  | cons e es => exact ⟨_, by decide, _, rfl⟩

theorem charsOf_ne_nil {e : Expr} (h : e.Readable) (es : List Expr) : charsOf (e :: es) ≠ [] := by
  obtain ⟨c, x, hx, -⟩ := h.head
  rw [charsOf_cons, hx]
  exact List.cons_ne_nil c _

/-- Behind an expression in a list the others can be read off. -/
theorem charsOf_of_following {es es' : List Expr} (h : following es = following es') :
    charsOf es = charsOf es' := by
  cases es with
  | nil =>
    cases es' with
    | nil => rfl
    | cons e' es' => cases h
  | cons e es =>
    cases es' with
    | nil => cases h
    | cons e' es' => exact (List.cons.inj (List.cons.inj h).2).2

/-- Two lists of expressions with the same text start with the same text and go on alike. -/
theorem cut_charsOf {e e' : Expr} {es es' : List Expr} (h : e.Readable) (h' : e'.Readable)
    (heq : charsOf (e :: es) = charsOf (e' :: es')) :
    e.chars = e'.chars ∧ charsOf es = charsOf es' := by
  obtain ⟨s, hs, y, hy⟩ := following_stop es
  obtain ⟨s', hs', y', hy'⟩ := following_stop es'
  have htext : e.chars ++ s :: y = e'.chars ++ s' :: y' := by
    rw [← hy, ← hy', ← List.append_assoc, ← List.append_assoc, ← charsOf_cons, ← charsOf_cons, heq]
  obtain ⟨hhead, hrest⟩ := h.closed.cut h'.closed hs hs' htext
  rw [← hy, ← hy'] at hrest
  exact ⟨hhead, charsOf_of_following (List.append_cancel_right hrest)⟩

theorem cut_binary {lhs rhs lhs' rhs' : Expr} {op op' : BinaryOp}
    (h : (binary op lhs rhs).Readable) (h' : (binary op' lhs' rhs').Readable)
    (heq : (binary op lhs rhs).chars = (binary op' lhs' rhs').chars) :
    lhs.chars = lhs'.chars ∧ op = op' ∧ rhs.chars = rhs'.chars := by
  rw [chars_binary, chars_binary, parenthesized_inj] at heq
  obtain ⟨hlhs, hrest⟩ := h.1.closed.cut h'.1.closed (by decide) (by decide) heq
  have hop : Closed op.symbol.toList := .of_plain (plain_symbol op)
  have hop' : Closed op'.symbol.toList := .of_plain (plain_symbol op')
  obtain ⟨hsymbol, hrhs⟩ := hop.cut hop' (by decide) (by decide) (List.cons.inj hrest).2
  exact ⟨hlhs, BinaryOp.symbol_injective (String.toList_inj.1 hsymbol), (List.cons.inj hrhs).2⟩

theorem cut_index {base position base' position' : Expr} (h : (index base position).Readable)
    (h' : (index base' position').Readable)
    (heq : (index base position).chars = (index base' position').chars) :
    base.chars = base'.chars ∧ position.chars = position'.chars := by
  rw [chars_index, chars_index, ← List.cons_append, ← List.cons_append, ← List.append_assoc,
    ← List.append_assoc] at heq
  obtain ⟨hbase, hposition⟩ := Closed.cut_back (by decide) h.2.closed h'.2.closed
    (List.append_cancel_right heq)
  exact ⟨List.append_cancel_right hbase, hposition⟩

theorem cut_call {id id' : FunctionId} {name name' : String} {args args' : List Expr}
    (h : (call id name args).Readable) (h' : (call id' name' args').Readable)
    (heq : (call id name args).chars = (call id' name' args').chars) :
    name = name' ∧ charsOf args = charsOf args' := by
  have hopening : ∀ {s : String}, IsName s → '(' ∉ s.toList :=
    fun hs hm => hs.plain _ hm (by decide)
  rw [chars_call, chars_call, parenthesized, parenthesized] at heq
  obtain ⟨hname, hargs⟩ := cut_notMem heq (hopening h.1) (hopening h'.1)
  exact ⟨String.toList_inj.1 hname, List.append_cancel_right hargs⟩

theorem cut_array {t t' : Ty} {values values' : List Expr} (h : (array t values).Readable)
    (h' : (array t' values').Readable) (heq : (array t values).chars = (array t' values').chars) :
    t.spelling = t'.spelling ∧ charsOf values = charsOf values' := by
  rw [chars_array, chars_array] at heq
  obtain ⟨htype, hvalues⟩ := parenthesized_cut h.1.notMem h'.1.notMem heq
  exact ⟨String.toList_inj.1 htype, braced_inj.1 (braced_inj.1 hvalues)⟩

theorem cut_struct {t t' : Ty} {values values' : List Expr} (h : (struct t values).Readable)
    (h' : (struct t' values').Readable)
    (heq : (struct t values).chars = (struct t' values').chars) :
    t.spelling = t'.spelling ∧ charsOf values = charsOf values' := by
  rw [chars_struct, chars_struct] at heq
  obtain ⟨htype, hvalues⟩ := parenthesized_cut h.1.notMem h'.1.notMem heq
  exact ⟨String.toList_inj.1 htype, braced_inj.1 hvalues⟩

theorem cut_int {t t' : Ty} {v v' : Int} (h : (int t v).Readable) (h' : (int t' v').Readable)
    (heq : (int t v).chars = (int t' v').chars) : t.spelling = t'.spelling ∧ v = v' := by
  have hvalue : (toString v).toList = (toString v').toList → v = v' := by
    intro hdigits
    have hread := Binary.signedDigits?_toString v
    rw [hdigits, Binary.signedDigits?_toString] at hread
    exact (Option.some.inj hread).symm
  -- digits alone do not start with a parenthesis
  have hcast : ∀ (v : Int) x, (toString v).toList ≠ parenthesized x := fun v x he =>
    plain_toString v '(' (he ▸ List.mem_cons_self) (by decide)
  rw [chars_int, chars_int] at heq
  by_cases ht : t.spelling = "int32_t" <;> by_cases ht' : t'.spelling = "int32_t"
  · rw [if_pos ht, if_pos ht'] at heq
    exact ⟨ht.trans ht'.symm, hvalue heq⟩
  · rw [if_pos ht, if_neg ht'] at heq
    exact absurd heq (hcast v _)
  · rw [if_neg ht, if_pos ht'] at heq
    exact absurd heq.symm (hcast v' _)
  · rw [if_neg ht, if_neg ht', parenthesized_inj] at heq
    obtain ⟨htype, hdigits⟩ := parenthesized_cut (IsInteger.notMem h) (IsInteger.notMem h') heq
    exact ⟨String.toList_inj.1 htype, hvalue hdigits⟩

theorem form_eq {e e' : Expr} (h : e.Readable) (h' : e'.Readable) (heq : e.chars = e'.chars) :
    e.form = e'.form := by
  rw [← h.read_chars, ← h'.read_chars, heq]

mutual

/-- Expressions with the same text are the same but for the numbers behind names: they have the
same form, so their texts are cut in the same way, and their parts have the same texts again. -/
theorem byName_eq : ∀ {e e' : Expr}, e.Readable → e'.Readable → e.chars = e'.chars →
    e.byName = e'.byName
  | .int t v, e', h, h', heq => by
    have hform := form_eq h h' heq
    cases e' with
    | int t' v' =>
      obtain ⟨htype, rfl⟩ := cut_int h h' heq
      rw [byName, byName, htype]
    | _ => cases hform
  | .bool b, e', h, h', heq => by
    have hform := form_eq h h' heq
    cases e' with
    | bool b' => cases b <;> cases b' <;> first | rfl | exact absurd heq (by decide)
    | _ => cases hform
  | .unit, e', h, h', heq => by
    have hform := form_eq h h' heq
    cases e' with
    | unit => rfl
    | _ => cases hform
  | .var id name, e', h, h', heq => by
    have hform := form_eq h h' heq
    cases e' with
    | var id' name' =>
      obtain rfl : name = name' := String.toList_inj.1 heq
      rfl
    | _ => cases hform
  | .binary op lhs rhs, e', h, h', heq => by
    have hform := form_eq h h' heq
    cases e' with
    | binary op' lhs' rhs' =>
      obtain ⟨hlhs, rfl, hrhs⟩ := cut_binary h h' heq
      rw [byName, byName, byName_eq h.1 h'.1 hlhs, byName_eq h.2 h'.2 hrhs]
    | _ => cases hform
  | .call id name args, e', h, h', heq => by
    have hform := form_eq h h' heq
    cases e' with
    | call id' name' args' =>
      obtain ⟨rfl, hargs⟩ := cut_call h h' heq
      rw [byName, byName, allByName_eq h.2 h'.2 hargs]
    | _ => cases hform
  | .index base position, e', h, h', heq => by
    have hform := form_eq h h' heq
    cases e' with
    | index base' position' =>
      obtain ⟨hbase, hposition⟩ := cut_index h h' heq
      rw [byName, byName, byName_eq h.1 h'.1 hbase, byName_eq h.2 h'.2 hposition]
    | _ => cases hform
  | .array t values, e', h, h', heq => by
    have hform := form_eq h h' heq
    cases e' with
    | array t' values' =>
      obtain ⟨htype, hvalues⟩ := cut_array h h' heq
      rw [byName, byName, htype, allByName_eq h.2 h'.2 hvalues]
    | _ => cases hform
  | .struct t values, e', h, h', heq => by
    have hform := form_eq h h' heq
    cases e' with
    | struct t' values' =>
      obtain ⟨htype, hvalues⟩ := cut_struct h h' heq
      rw [byName, byName, htype, allByName_eq h.2 h'.2 hvalues]
    | _ => cases hform

theorem allByName_eq : ∀ {es es' : List Expr}, AllReadable es → AllReadable es' →
    charsOf es = charsOf es' → allByName es = allByName es'
  | [], [], _, _, _ => rfl
  | [], e' :: es', _, h', heq => absurd heq.symm (charsOf_ne_nil h'.1 es')
  | e :: es, [], h, _, heq => absurd heq (charsOf_ne_nil h.1 es)
  | e :: es, e' :: es', h, h', heq => by
    obtain ⟨hhead, hrest⟩ := cut_charsOf h.1 h'.1 heq
    rw [allByName, allByName, byName_eq h.1 h'.1 hhead, allByName_eq h.2 h'.2 hrest]

end

/-- The text of an expression shows how it is grouped. Two expressions over names, integer constants
of the builtin types, truth values and the unit expression have the same text exactly if they are
the same expression, with variables, functions and types compared by name. -/
theorem text_eq_iff {e e' : Expr} (h : e.Readable) (h' : e'.Readable) :
    e.text = e'.text ↔ e.byName = e'.byName := by
  constructor
  · intro htext
    exact byName_eq h h' (congrArg String.toList htext)
  · intro hname
    rw [← text_byName e, hname, text_byName]

/-- A difference of differences, with a constant below zero, a call and an index in it: grouped to
the right it has another text, and with other numbers behind the names it has the same one. -/
theorem text_eq_iff_differences : ∃ e f g : Expr,
    e.text = "((a - -5) - f(((uint8_t)5), (P)\x7b true \x7d).v[b])" ∧
    f.text = "(a - (-5 - f(((uint8_t)5), (P)\x7b true \x7d).v[b]))" ∧
    e.Readable ∧ f.Readable ∧ g.Readable ∧ e.text ≠ f.text ∧ g.text = e.text ∧
    g.byName = e.byName := by
  let call (n : Nat) : Expr :=
    .call ⟨n⟩ "f" [.int (.named "uint8_t") 5, .struct (.named "P") [.bool true]]
  let index (n : Nat) : Expr := .index (call n) (.var ⟨n⟩ "b")
  let five : Expr := .int (.named "int32_t") (-5)
  let sub : Expr → Expr → Expr := .binary (.arithmetic .sub)
  have hfive : five.Readable := ⟨false, .w32, by decide⟩
  have hindex (n : Nat) : (index n).Readable :=
    ⟨⟨by decide, ⟨true, .w8, by decide⟩, ⟨by decide, trivial, trivial⟩, trivial⟩,
      (by decide : IsName "b")⟩
  have he (n : Nat) : (sub (sub (.var ⟨n⟩ "a") five) (index n)).Readable :=
    ⟨⟨(by decide : IsName "a"), hfive⟩, hindex n⟩
  have hf : (sub (.var ⟨0⟩ "a") (sub five (index 0))).Readable :=
    ⟨(by decide : IsName "a"), hfive, hindex 0⟩
  have htext : (sub (sub (.var ⟨1⟩ "a") five) (index 1)).text =
      (sub (sub (.var ⟨0⟩ "a") five) (index 0)).text := rfl
  refine ⟨_, _, _, by decide +kernel, by decide +kernel, he 0, hf, he 1, fun h => ?_, htext,
    (text_eq_iff (he 1) (he 0)).1 htext⟩
  have hname := (text_eq_iff (he 0) hf).1 h
  injection hname with _ hlhs _
  cases hlhs

end Expr

end C

end MiddleEnd
