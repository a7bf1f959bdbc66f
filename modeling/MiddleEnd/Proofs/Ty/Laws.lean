/-
  The laws of combining.

  The checker's equality of types is an equivalence, and combining respects it: equal types combine
  in the same way, to equal types, and a type combines with an equal one to an equal one
  (`Ty.same_congruence`).

  Which of two types stands first decides what the result carries along, and nothing else. The
  names of function parameters are part of that, though equality compares them; so the two results
  are equal exactly where these names agree (`Ty.combine_swap`).

  Among types without errors combining is associative in every detail (`Ty.combine_assoc`): what
  the result carries comes from the first of the types that is settled, at every place in them, and
  from the last one where none is.
-/
import MiddleEnd.Proofs.Ty.Order

namespace MiddleEnd

/-! ## Equality -/

mutual

/-- Equality of types, rule by rule. -/
inductive Ty.Same : Ty → Ty → Prop
  | error (r s : IrId) : Ty.Same (.error r) (.error s)
  | unit (r s : IrId) : Ty.Same (.unit r) (.unit s)
  | infer (r s : IrId) : Ty.Same (.infer r) (.infer s)
  | bool (r s : IrId) : Ty.Same (.bool r) (.bool s)
  | int (r s : IrId) (w : IntWidth) : Ty.Same (.int r w) (.int s w)
  | uint (r s : IrId) (w : IntWidth) : Ty.Same (.uint r w) (.uint s w)
  | float (r s : IrId) (w : FloatWidth) : Ty.Same (.float r w) (.float s w)
  | struct (r : IrId) (name name' : String) (fields fields' : Members) :
    Ty.Same (.struct r name fields) (.struct r name' fields')
  | generic (r : IrId) (symbol symbol' : String) :
    Ty.Same (.generic r symbol) (.generic r symbol')
  | array {x y : Ty} (r s : IrId) (n : Nat) :
    Ty.Same x y → Ty.Same (.array r x n) (.array s y n)
  | field {x y : Ty} (r s : IrId) (name : String) :
    Ty.Same x y → Ty.Same (.field r name x) (.field s name y)
  | fn {ps qs : Members} {x y : Ty} (r s : IrId) :
    Members.Same ps qs → Ty.Same x y → Ty.Same (.fn r ps x) (.fn s qs y)

/-- Members of the same names and types. -/
inductive Members.Same : Members → Members → Prop
  | nil : Members.Same .nil .nil
  | cons {x y : Ty} {ps qs : Members} (name : String) :
    Ty.Same x y → Members.Same ps qs → Members.Same (.cons name x ps) (.cons name y qs)

end

mutual

theorem Ty.Same.of_same : ∀ {a b : Ty}, a.same b = true → a.Same b := by
  intro a b h
  unfold Ty.same at h
  split at h
  case h_5 | h_6 | h_7 | h_9 | h_12 =>
    rw [beq_iff_eq] at h
    cases h
    constructor
  case h_8 r x m s y n =>
    rw [Bool.and_eq_true, beq_iff_eq] at h
    cases h.2
    exact .array r s m (.of_same h.1)
  case h_10 r ps x s qs y =>
    rw [Bool.and_eq_true] at h
    exact .fn r s (.of_same h.1) (.of_same h.2)
  case h_11 r m x s n y =>
    rw [Bool.and_eq_true, beq_iff_eq] at h
    cases h.1
    exact .field r s m (.of_same h.2)
  case h_13 => cases h
  all_goals constructor

theorem Members.Same.of_same : ∀ {a b : Members}, a.same b = true → a.Same b := by
  intro a b h
  unfold Members.same at h
  split at h
  · exact .nil
  · rename_i m x ps n y qs
    rw [Bool.and_eq_true, Bool.and_eq_true, beq_iff_eq] at h
    cases h.1.1
    exact .cons m (.of_same h.1.2) (.of_same h.2)
  · cases h

end

mutual

theorem Ty.Same.same_eq : ∀ {a b : Ty}, a.Same b → a.same b = true := by
  intro a b h
  cases h with
  | array r s n hxy => rw [Ty.same, hxy.same_eq, beq_self_eq_true, Bool.and_self]
  | field r s name hxy => rw [Ty.same, hxy.same_eq, beq_self_eq_true, Bool.and_self]
  | fn r s hps hxy => rw [Ty.same, hps.same_eq, hxy.same_eq, Bool.and_self]
  | _ => simp only [Ty.same, beq_self_eq_true]

theorem Members.Same.same_eq : ∀ {a b : Members}, a.Same b → a.same b = true := by
  intro a b h
  cases h with
  | nil => rfl
  | cons name hxy hps =>
    rw [Members.same, hxy.same_eq, hps.same_eq, beq_self_eq_true, Bool.and_self, Bool.and_self]

end

theorem Ty.same_iff {a b : Ty} : a.same b = true ↔ a.Same b :=
  ⟨.of_same, Same.same_eq⟩

mutual

theorem Ty.Same.refl (a : Ty) : a.Same a := by
  cases a with
  | array r x n => exact .array r r n (.refl x)
  | fn r ps x => exact .fn r r (.refl ps) (.refl x)
  | field r name x => exact .field r r name (.refl x)
  | _ => constructor

theorem Members.Same.refl (ms : Members) : ms.Same ms := by
  cases ms with
  | nil => exact .nil
  | cons name x rest => exact .cons name (.refl x) (.refl rest)

end

mutual

theorem Ty.Same.symm : ∀ {a b : Ty}, a.Same b → b.Same a := by
  intro a b h
  cases h with
  | array r s n hxy => exact .array s r n hxy.symm
  | field r s name hxy => exact .field s r name hxy.symm
  | fn r s hps hxy => exact .fn s r hps.symm hxy.symm
  | _ => constructor

theorem Members.Same.symm : ∀ {a b : Members}, a.Same b → b.Same a := by
  intro a b h
  cases h with
  | nil => exact .nil
  | cons name hxy hps => exact .cons name hxy.symm hps.symm

end

mutual

theorem Ty.Same.trans : ∀ {a b c : Ty}, a.Same b → b.Same c → a.Same c := by
  intro a b c h k
  cases h with
  | array r s n hxy =>
    cases k with
    | array _ s' _ hyz => exact .array r s' n (hxy.trans hyz)
  | field r s name hxy =>
    cases k with
    | field _ s' _ hyz => exact .field r s' name (hxy.trans hyz)
  | fn r s hps hxy =>
    cases k with
    | fn _ s' hqs hyz => exact .fn r s' (hps.trans hqs) (hxy.trans hyz)
  | _ =>
    cases k
    constructor

theorem Members.Same.trans : ∀ {a b c : Members}, a.Same b → b.Same c → a.Same c := by
  intro a b c h k
  cases h with
  | nil => exact k
  | cons name hxy hps =>
    cases k with
    | cons _ hyz hqs => exact .cons name (hxy.trans hyz) (hps.trans hqs)

end

mutual

/-- Equal types are alike; equality compares the names of function parameters as well. -/
theorem Ty.Same.alike : ∀ {a b : Ty}, a.Same b → a.Alike b := by
  intro a b h
  cases h with
  | array r s n hxy => exact hxy.alike.array r s n
  | field r s name hxy => exact hxy.alike.field r s name
  | fn r s hps hxy => exact .fn hps.shape_eq hxy.alike r s
  | _ => rfl

theorem Members.Same.shape_eq : ∀ {a b : Members}, a.Same b → a.shape = b.shape := by
  intro a b h
  cases h with
  | nil => rfl
  | cons name hxy hps => exact Members.shape_cons_eq hxy.alike hps.shape_eq name name

end

namespace Ty.Same

variable {a b : Ty}

theorem isError_eq (h : a.Same b) : b.isError = a.isError := by
  cases h <;> rfl

theorem isInfer_eq (h : a.Same b) : b.isInfer = a.isInfer := by
  cases h <;> rfl

end Ty.Same

/-! ## Combining equal types -/

mutual

/-- Equal types settle in the same way, on equal types. -/
theorem Ty.Settles.congr : ∀ {a b c : Ty}, a.Settles b c → ∀ ⦃a' b' : Ty⦄, a.Same a' →
    b.Same b' → ∃ c', a'.Settles b' c' ∧ c.Same c' := by
  intro a b c h a' b' ha hb
  cases h with
  | errorLeft r =>
    cases ha with
    | error _ s => exact ⟨_, .errorLeft s b', .error r s⟩
  | errorRight r hn =>
    cases hb with
    | error _ s => exact ⟨_, .errorRight s (ha.isError_eq.trans hn), .error r s⟩
  | inferLeft r hn =>
    cases ha with
    | infer _ s => exact ⟨b', .inferLeft s (hb.isError_eq.trans hn), hb⟩
  | inferRight r hn hi =>
    cases hb with
    | infer _ s =>
      exact ⟨a', .inferRight s (ha.isError_eq.trans hn) (ha.isInfer_eq.trans hi), ha⟩
  | array r s n hxy =>
    -- taken first, as the types in it are renamed below
    have ih := hxy.congr
    cases ha with
    | array _ r' _ hx =>
      cases hb with
      | array _ s' _ hy =>
        obtain ⟨z', hz', hz⟩ := ih hx hy
        exact ⟨_, .array r' s' n hz', .array r r' n hz⟩
  | field r s name hxy =>
    have ih := hxy.congr
    cases ha with
    | field _ r' _ hx =>
      cases hb with
      | field _ s' _ hy =>
        obtain ⟨z', hz', hz⟩ := ih hx hy
        exact ⟨_, .field r' s' name hz', .field r r' name hz⟩
  | fn r s hps hxy =>
    have ihs := hps.congr
    have ih := hxy.congr
    cases ha with
    | fn _ r' hp hx =>
      cases hb with
      | fn _ s' hq hy =>
        obtain ⟨ms', hms', hms⟩ := ihs hp hq
        obtain ⟨z', hz', hz⟩ := ih hx hy
        exact ⟨_, .fn r' s' hms' hz', .fn r r' hms hz⟩
  | _ =>
    cases ha
    cases hb
    exact ⟨_, by constructor, by constructor⟩
termination_by structural a _ _ _ => a

theorem Members.Settles.congr : ∀ {a b c : Members}, a.Settles b c → ∀ ⦃a' b' : Members⦄,
    a.Same a' → b.Same b' → ∃ c', a'.Settles b' c' ∧ c.Same c' := by
  intro a b c h a' b' ha hb
  cases h with
  | nil =>
    cases ha
    cases hb
    exact ⟨.nil, .nil, .nil⟩
  | cons m n hxy hps =>
    have ih := hxy.congr
    have ihs := hps.congr
    cases ha with
    | cons _ hx hp =>
      cases hb with
      | cons _ hy hq =>
        obtain ⟨z', hz', hz⟩ := ih hx hy
        obtain ⟨ms', hms', hms⟩ := ihs hp hq
        exact ⟨_, .cons m n hz' hms', .cons m hz hms⟩
termination_by structural a _ _ _ => a

end

mutual

/-- Every type settles with itself on itself. -/
theorem Ty.Settles.self (a : Ty) : a.Settles a a := by
  cases a with
  | infer r => exact .inferLeft r rfl
  | array r x n => exact .array r r n (.self x)
  | fn r ps x => exact .fn r r (.self ps) (.self x)
  | field r name x => exact .field r r name (.self x)
  | _ => constructor

theorem Members.Settles.self (ms : Members) : ms.Settles ms ms := by
  cases ms with
  | nil => exact .nil
  | cons name x rest => exact .cons name name (.self x) (.self rest)

end

/-! ## The other way round -/

mutual

/-- Wherever both types have function types, the parameters are called the same. -/
def Ty.agreeOnNames (a b : Ty) : Bool :=
  match a, b with
  | .array _ x _, .array _ y _ => x.agreeOnNames y
  | .fn _ ps x, .fn _ qs y => ps.agreeOnNames qs && x.agreeOnNames y
  | .field _ _ x, .field _ _ y => x.agreeOnNames y
  | _, _ => true

def Members.agreeOnNames (a b : Members) : Bool :=
  match a, b with
  | .cons m x ps, .cons n y qs => m == n && x.agreeOnNames y && ps.agreeOnNames qs
  | _, _ => true

end

mutual

/-- Two types settle the other way round as well, and on an equal type exactly if they agree on
names. -/
theorem Ty.Settles.swap : ∀ {a b c : Ty}, a.Settles b c →
    ∃ d, b.Settles a d ∧ c.Alike d ∧ c.same d = a.agreeOnNames b := by
  intro a b c h
  cases h with
  | errorLeft r =>
    cases b with
    | error s => exact ⟨_, .errorLeft s _, rfl, rfl⟩
    | _ => exact ⟨_, .errorRight r rfl, rfl, rfl⟩
  | errorRight r hn =>
    refine ⟨_, .errorLeft r a, rfl, ?_⟩
    cases a <;> rfl
  | inferLeft r hn =>
    cases b with
    | error s => cases hn
    | infer s => exact ⟨_, .inferLeft s rfl, rfl, rfl⟩
    | _ => exact ⟨_, .inferRight r rfl rfl, rfl, (Ty.Same.refl _).same_eq⟩
  | inferRight r hn hi =>
    refine ⟨a, .inferLeft r hn, rfl, (Ty.Same.refl a).same_eq.trans ?_⟩
    cases a <;> rfl
  | array r s n hxy =>
    obtain ⟨z', hz', halike, hsame⟩ := hxy.swap
    refine ⟨_, .array s r n hz', halike.array r s n, ?_⟩
    rw [Ty.same, Ty.agreeOnNames, hsame, beq_self_eq_true, Bool.and_true]
  | field r s name hxy =>
    obtain ⟨z', hz', halike, hsame⟩ := hxy.swap
    refine ⟨_, .field s r name hz', halike.field r s name, ?_⟩
    rw [Ty.same, Ty.agreeOnNames, hsame, beq_self_eq_true, Bool.true_and]
  | fn r s hps hxy =>
    obtain ⟨ms', hms', hshape, hnames⟩ := hps.swap
    obtain ⟨z', hz', halike, hsame⟩ := hxy.swap
    refine ⟨_, .fn s r hms' hz', .fn hshape halike r s, ?_⟩
    rw [Ty.same, Ty.agreeOnNames, hnames, hsame]
  | unit r s => exact ⟨_, .unit s r, rfl, rfl⟩
  | bool r s => exact ⟨_, .bool s r, rfl, rfl⟩
  | int r s w => exact ⟨_, .int s r w, rfl, beq_self_eq_true w⟩
  | uint r s w => exact ⟨_, .uint s r w, rfl, beq_self_eq_true w⟩
  | float r s w => exact ⟨_, .float s r w, rfl, beq_self_eq_true w⟩
  | struct r name name' fields fields' =>
    exact ⟨_, .struct r name' name fields' fields, rfl, beq_self_eq_true r⟩
  | generic r symbol symbol' => exact ⟨_, .generic r symbol' symbol, rfl, beq_self_eq_true r⟩

theorem Members.Settles.swap : ∀ {a b c : Members}, a.Settles b c →
    ∃ d, b.Settles a d ∧ c.shape = d.shape ∧ c.same d = a.agreeOnNames b := by
  intro a b c h
  cases h with
  | nil => exact ⟨.nil, .nil, rfl, rfl⟩
  | cons m n hxy hps =>
    obtain ⟨z', hz', halike, hsame⟩ := hxy.swap
    obtain ⟨ms', hms', hshape, hnames⟩ := hps.swap
    refine ⟨_, .cons n m hz' hms', Members.shape_cons_eq halike hshape m n, ?_⟩
    rw [Members.same, Members.agreeOnNames, hsame, hnames]

end

/-! ## Three types -/

mutual

/-- The last two types settle first, and the first one with what they settle on. -/
theorem Ty.Settles.assoc_right : ∀ {a b x : Ty}, a.Settles b x → ∀ ⦃c d : Ty⦄,
    a.errorFree = true → b.errorFree = true → c.errorFree = true → x.Settles c d →
    ∃ y, b.Settles c y ∧ a.Settles y d := by
  intro a b x h c d ha hb hc k
  cases h with
  | errorLeft => cases ha
  | errorRight => cases hb
  | inferLeft r hn => exact ⟨d, k, .inferLeft r (Ty.isError_of_errorFree (k.errorFree hb hc))⟩
  | inferRight r hn hi => exact ⟨c, .inferLeft r (Ty.isError_of_errorFree hc), k⟩
  | array r s n hxy =>
    have ih := hxy.assoc_right
    cases k with
    | errorRight => cases hc
    | inferRight q => exact ⟨_, .inferRight q rfl rfl, .array r s n hxy⟩
    | array _ q _ hzw =>
      rw [Ty.errorFree] at ha hb hc
      obtain ⟨y, hy, hd⟩ := ih ha hb hc hzw
      exact ⟨_, .array s q n hy, .array r s n hd⟩
  | field r s name hxy =>
    have ih := hxy.assoc_right
    cases k with
    | errorRight => cases hc
    | inferRight q => exact ⟨_, .inferRight q rfl rfl, .field r s name hxy⟩
    | field _ q _ hzw =>
      rw [Ty.errorFree] at ha hb hc
      obtain ⟨y, hy, hd⟩ := ih ha hb hc hzw
      exact ⟨_, .field s q name hy, .field r s name hd⟩
  | fn r s hps hxy =>
    have ihs := hps.assoc_right
    have ih := hxy.assoc_right
    cases k with
    | errorRight => cases hc
    | inferRight q => exact ⟨_, .inferRight q rfl rfl, .fn r s hps hxy⟩
    | fn _ q hms hzw =>
      rw [Ty.errorFree, Bool.and_eq_true] at ha hb hc
      obtain ⟨qs, hqs, hd⟩ := ihs ha.1 hb.1 hc.1 hms
      obtain ⟨y, hy, hd'⟩ := ih ha.2 hb.2 hc.2 hzw
      exact ⟨_, .fn s q hqs hy, .fn r s hd hd'⟩
  | _ =>
    cases k with
    | errorRight => cases hc
    | inferRight q => exact ⟨_, .inferRight q rfl rfl, by constructor⟩
    | _ => exact ⟨_, by constructor, by constructor⟩
termination_by structural a _ _ _ => a

theorem Members.Settles.assoc_right : ∀ {a b x : Members}, a.Settles b x → ∀ ⦃c d : Members⦄,
    a.errorFree = true → b.errorFree = true → c.errorFree = true → x.Settles c d →
    ∃ y, b.Settles c y ∧ a.Settles y d := by
  intro a b x h c d ha hb hc k
  cases h with
  | nil =>
    cases k
    exact ⟨.nil, .nil, .nil⟩
  | cons m n hxy hps =>
    have ih := hxy.assoc_right
    have ihs := hps.assoc_right
    cases k with
    | cons _ l hzw hms =>
      rw [Members.errorFree, Bool.and_eq_true] at ha hb hc
      obtain ⟨y, hy, hd⟩ := ih ha.1 hb.1 hc.1 hzw
      obtain ⟨qs, hqs, hd'⟩ := ihs ha.2 hb.2 hc.2 hms
      exact ⟨_, .cons n l hy hqs, .cons m n hd hd'⟩
termination_by structural a _ _ _ => a

end

/-- What types settle on is settled itself, unless the left one is not. -/
theorem Ty.Settles.isInfer_eq_false {a b c : Ty} (h : a.Settles b c) (hi : a.isInfer = false) :
    c.isInfer = false := by
  cases h with
  | inferLeft => cases hi
  | inferRight => exact hi
  | _ => rfl

mutual

theorem Ty.Settles.assoc_left : ∀ {b c y : Ty}, b.Settles c y → ∀ ⦃a d : Ty⦄,
    a.errorFree = true → b.errorFree = true → c.errorFree = true → a.Settles y d →
    ∃ x, a.Settles b x ∧ x.Settles c d := by
  intro b c y h a d ha hb hc k
  rcases hi : a.isInfer with _ | _
  case true =>
    -- the left one takes the other side, whichever is first
    cases a with
    | infer q =>
      have hy := h.errorFree hb hc
      cases k with
      | errorRight => cases hy
      | inferLeft => exact ⟨b, .inferLeft q (Ty.isError_of_errorFree hb), h⟩
      | inferRight _ _ hi' => cases hi'
    | _ => cases hi
  case false =>
  cases h with
  | errorLeft => cases hb
  | errorRight => cases hc
  | inferLeft r => exact ⟨a, .inferRight r (Ty.isError_of_errorFree ha) hi, k⟩
  | inferRight r =>
    have hd := k.errorFree ha hb
    exact ⟨d, k, .inferRight r (Ty.isError_of_errorFree hd) (k.isInfer_eq_false hi)⟩
  | array r s n hxy =>
    have ih := hxy.assoc_left
    cases k with
    | errorLeft => cases ha
    | inferLeft => cases hi
    | array q _ _ hzw =>
      rw [Ty.errorFree] at ha hb hc
      obtain ⟨x, hx, hd⟩ := ih ha hb hc hzw
      exact ⟨_, .array q r n hx, .array q s n hd⟩
  | field r s name hxy =>
    have ih := hxy.assoc_left
    cases k with
    | errorLeft => cases ha
    | inferLeft => cases hi
    | field q _ _ hzw =>
      rw [Ty.errorFree] at ha hb hc
      obtain ⟨x, hx, hd⟩ := ih ha hb hc hzw
      exact ⟨_, .field q r name hx, .field q s name hd⟩
  | fn r s hps hxy =>
    have ihs := hps.assoc_left
    have ih := hxy.assoc_left
    cases k with
    | errorLeft => cases ha
    | inferLeft => cases hi
    | fn q _ hms hzw =>
      rw [Ty.errorFree, Bool.and_eq_true] at ha hb hc
      obtain ⟨xs, hxs, hd⟩ := ihs ha.1 hb.1 hc.1 hms
      obtain ⟨x, hx, hd'⟩ := ih ha.2 hb.2 hc.2 hzw
      exact ⟨_, .fn q r hxs hx, .fn q s hd hd'⟩
  | _ =>
    cases k with
    | errorLeft => cases ha
    | inferLeft => cases hi
    | _ => exact ⟨_, by constructor, by constructor⟩
termination_by structural b _ _ _ => b

theorem Members.Settles.assoc_left : ∀ {b c y : Members}, b.Settles c y → ∀ ⦃a d : Members⦄,
    a.errorFree = true → b.errorFree = true → c.errorFree = true → a.Settles y d →
    ∃ x, a.Settles b x ∧ x.Settles c d := by
  intro b c y h a d ha hb hc k
  cases h with
  | nil =>
    cases k
    exact ⟨.nil, .nil, .nil⟩
  | cons m n hxy hps =>
    have ih := hxy.assoc_left
    have ihs := hps.assoc_left
    cases k with
    | cons l _ hzw hms =>
      rw [Members.errorFree, Bool.and_eq_true] at ha hb hc
      obtain ⟨x, hx, hd⟩ := ih ha.1 hb.1 hc.1 hzw
      obtain ⟨xs, hxs, hd'⟩ := ihs ha.2 hb.2 hc.2 hms
      exact ⟨_, .cons l m hx hxs, .cons l n hd hd'⟩
termination_by structural b _ _ _ => b

end

/-! ## Laws -/

theorem Ty.combine_eq_ok_iff {a b c : Ty} : a.combine b = .ok c ↔ a.Settles b c :=
  Check.combine_eq_ok.trans combine?_eq_some_iff

/-- Equality of types is an equivalence. Equal types combine alike, with equal results, and a type
combines with an equal one to an equal one. -/
theorem Ty.same_congruence :
    Equivalence (fun a b : Ty => a.same b = true) ∧
    (∀ a a' b b' : Ty, a.same a' = true → b.same b' = true →
      ((∃ c, a.combine b = .ok c) ↔ ∃ c', a'.combine b' = .ok c') ∧
      ∀ c c', a.combine b = .ok c → a'.combine b' = .ok c' → c.same c' = true) ∧
    ∀ a b : Ty, a.same b = true → ∃ c, a.combine b = .ok c ∧ c.same a = true := by
  simp only [combine_eq_ok_iff, same_iff]
  refine ⟨⟨.refl, .symm, .trans⟩, fun a a' b b' ha hb => ⟨⟨?_, ?_⟩, ?_⟩, ?_⟩
  · rintro ⟨c, h⟩
    obtain ⟨c', h', -⟩ := h.congr ha hb
    exact ⟨c', h'⟩
  · rintro ⟨c', h'⟩
    obtain ⟨c, h, -⟩ := h'.congr ha.symm hb.symm
    exact ⟨c, h⟩
  · intro c c' h h'
    obtain ⟨d, hd, hc⟩ := h.congr ha hb
    exact hd.unique h' ▸ hc
  · intro a b h
    obtain ⟨c, hc, hac⟩ := (Settles.self a).congr (.refl a) h
    exact ⟨c, hc, hac.symm⟩

/-- Arrays of a struct type that carries other fields, and functions on them with the parameters
called alike. -/
theorem Ty.same_congruence_nested :
    let a : Ty := .fn ⟨1⟩ (.cons "x" (.array ⟨2⟩ (.struct ⟨3⟩ "P" .nil) 2) .nil) (.infer ⟨4⟩)
    let a' : Ty := .fn ⟨5⟩
      (.cons "x" (.array ⟨6⟩ (.struct ⟨3⟩ "Q" (.cons "y" (.bool ⟨7⟩) .nil)) 2) .nil) (.infer ⟨8⟩)
    let b : Ty := .fn ⟨9⟩ (.cons "z" (.infer ⟨10⟩) .nil) (.bool ⟨11⟩)
    a.same a' = true ∧ b.same b = true ∧
      (∃ c c', a.combine b = .ok c ∧ a'.combine b = .ok c' ∧ c.same c' = true) ∧
      ∃ c, a.combine a' = .ok c ∧ c.same a = true := by
  intro a a' b
  have ha : a.same a' = true := by decide
  have hb : b.same b = true := by decide
  obtain ⟨-, hcongr, hequal⟩ := same_congruence
  obtain ⟨hiff, hsame⟩ := hcongr a a' b b ha hb
  have hc : ∃ c, a.combine b = .ok c := ⟨_, rfl⟩
  obtain ⟨c', hc'⟩ := hiff.1 hc
  obtain ⟨c, hc⟩ := hc
  exact ⟨ha, hb, ⟨c, c', hc, hc', hsame c c' hc hc'⟩, hequal a a' ha⟩

/-- Two types combine if and only if they do so the other way round, and the results differ in what
they carry along only. They are equal for the checker exactly where the types agree on the names of
function parameters. -/
theorem Ty.combine_swap (a b : Ty) :
    ((∃ c, a.combine b = .ok c) ↔ ∃ d, b.combine a = .ok d) ∧
    ∀ c d, a.combine b = .ok c → b.combine a = .ok d →
      c.Alike d ∧ (c.same d = true ↔ a.agreeOnNames b = true) := by
  simp only [combine_eq_ok_iff]
  refine ⟨⟨?_, ?_⟩, ?_⟩
  · rintro ⟨c, h⟩
    obtain ⟨d, h', -⟩ := h.swap
    exact ⟨d, h'⟩
  · rintro ⟨d, h⟩
    obtain ⟨c, h', -⟩ := h.swap
    exact ⟨c, h'⟩
  · intro c d h k
    obtain ⟨d', h', halike, hsame⟩ := h.swap
    cases h'.unique k
    exact ⟨halike, by rw [hsame]⟩

/-- `fn(x: i32) -> bool` and `fn(y: i32) -> bool` combine to the first of them, either way. -/
theorem Ty.combine_swap_renaming :
    let a : Ty := .fn ⟨1⟩ (.cons "x" (.int ⟨2⟩ .w32) .nil) (.bool ⟨3⟩)
    let b : Ty := .fn ⟨4⟩ (.cons "y" (.int ⟨2⟩ .w32) .nil) (.bool ⟨3⟩)
    a.combine b = .ok a ∧ b.combine a = .ok b ∧ a.Alike b ∧ a.same b = false := by
  intro a b
  have ha : a.combine b = .ok a := by rfl
  have hb : b.combine a = .ok b := by rfl
  obtain ⟨halike, hiff⟩ := (combine_swap a b).2 a b ha hb
  refine ⟨ha, hb, halike, Bool.eq_false_iff.2 fun hsame => ?_⟩
  cases hiff.1 hsame

/-- Without error types it does not matter which two of three types are combined first: either both
ways fail, or both lead to the same type, with all that it carries along. -/
theorem Ty.combine_assoc {a b c : Ty} (ha : a.errorFree = true) (hb : b.errorFree = true)
    (hc : c.errorFree = true) (d : Ty) :
    (do (← a.combine b).combine c) = .ok d ↔ (do a.combine (← b.combine c)) = .ok d := by
  have hbind : ∀ {m : Except Mismatch Ty} {f : Ty → Except Mismatch Ty},
      (m >>= f) = .ok d ↔ ∃ x, m = .ok x ∧ f x = .ok d := by
    intro m f
    rcases m with e | x
    · exact ⟨nofun, fun ⟨_, h, _⟩ => nomatch h⟩
    · exact ⟨fun h => ⟨x, rfl, h⟩, fun ⟨_, h, k⟩ => Except.ok.inj h ▸ k⟩
  rw [hbind, hbind]
  simp only [combine_eq_ok_iff]
  constructor
  · rintro ⟨x, h, k⟩
    exact h.assoc_right ha hb hc k
  · rintro ⟨y, h, k⟩
    exact h.assoc_left ha hb hc k

/-- Two arrays of two elements and a type between them, of which nothing is settled: the array comes
from the first one, its element from the last. -/
theorem Ty.combine_assoc_unsettled :
    let a : Ty := .array ⟨1⟩ (.infer ⟨2⟩) 2
    let b : Ty := .infer ⟨3⟩
    let c : Ty := .array ⟨4⟩ (.infer ⟨5⟩) 2
    let d : Ty := .array ⟨1⟩ (.infer ⟨5⟩) 2
    a.errorFree = true ∧ b.errorFree = true ∧ c.errorFree = true ∧
      (do (← a.combine b).combine c) = .ok d ∧ (do a.combine (← b.combine c)) = .ok d := by
  intro a b c d
  have ha : a.errorFree = true := by decide
  have hb : b.errorFree = true := by decide
  have hc : c.errorFree = true := by decide
  have h : (do (← a.combine b).combine c) = .ok d := by rfl
  exact ⟨ha, hb, hc, h, (combine_assoc ha hb hc d).1 h⟩

end MiddleEnd
