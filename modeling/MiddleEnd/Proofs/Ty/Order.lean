/-
  Types ordered by how much is said of them. The unsettled type says nothing and lies below every
  other, the error type says too much and lies above; in between, types are related that agree in
  kind and whose parts are related. Identities count where the identity is the type only, and the
  names of function parameters do not count.

  Combining two types finds their least upper bound. Without error types it fails exactly where no
  upper bound is free of them (`Ty.combine_least`).
-/
import MiddleEnd.Proofs.Check.Run
import MiddleEnd.Proofs.Ty.Alike

namespace MiddleEnd

mutual

/-- Whatever the first type says, the second says as well. -/
inductive Ty.Below : Ty → Ty → Prop
  | infer (r : IrId) (t : Ty) : Ty.Below (.infer r) t
  | error (t : Ty) (r : IrId) : Ty.Below t (.error r)
  | unit (r s : IrId) : Ty.Below (.unit r) (.unit s)
  | bool (r s : IrId) : Ty.Below (.bool r) (.bool s)
  | int (r s : IrId) (w : IntWidth) : Ty.Below (.int r w) (.int s w)
  | uint (r s : IrId) (w : IntWidth) : Ty.Below (.uint r w) (.uint s w)
  | float (r s : IrId) (w : FloatWidth) : Ty.Below (.float r w) (.float s w)
  | struct (r : IrId) (name name' : String) (fields fields' : Members) :
    Ty.Below (.struct r name fields) (.struct r name' fields')
  | generic (r : IrId) (symbol symbol' : String) :
    Ty.Below (.generic r symbol) (.generic r symbol')
  | array {x y : Ty} (r s : IrId) (n : Nat) :
    Ty.Below x y → Ty.Below (.array r x n) (.array s y n)
  | field {x y : Ty} (r s : IrId) (name : String) :
    Ty.Below x y → Ty.Below (.field r name x) (.field s name y)
  | fn {ps qs : Members} {x y : Ty} (r s : IrId) :
    Members.Below ps qs → Ty.Below x y → Ty.Below (.fn r ps x) (.fn s qs y)

/-- Equally many members whose types are related one by one. -/
inductive Members.Below : Members → Members → Prop
  | nil : Members.Below .nil .nil
  | cons {x y : Ty} {ps qs : Members} (m n : String) :
    Ty.Below x y → Members.Below ps qs → Members.Below (.cons m x ps) (.cons n y qs)

end

mutual

theorem Ty.Below.refl (t : Ty) : t.Below t := by
  cases t with
  | error r => exact .error _ r
  | unit r => exact .unit r r
  | infer r => exact .infer r _
  | bool r => exact .bool r r
  | int r w => exact .int r r w
  | uint r w => exact .uint r r w
  | float r w => exact .float r r w
  | array r x n => exact .array r r n (Ty.Below.refl x)
  | struct r name fields => exact .struct r name name fields fields
  | fn r ps x => exact .fn r r (Members.Below.refl ps) (Ty.Below.refl x)
  | field r name x => exact .field r r name (Ty.Below.refl x)
  | generic r symbol => exact .generic r symbol symbol

theorem Members.Below.refl (ms : Members) : ms.Below ms := by
  cases ms with
  | nil => exact .nil
  | cons name x rest => exact .cons name name (Ty.Below.refl x) (Members.Below.refl rest)

end

mutual

theorem Ty.Below.trans : ∀ {a b c : Ty}, a.Below b → b.Below c → a.Below c := by
  intro a b c h k
  cases h with
  | infer r t => exact .infer r c
  | error t r =>
    cases k
    exact .error a _
  | array r s n hxy =>
    cases k with
    | error => exact .error _ _
    | array _ s' _ hyz => exact .array r s' n (hxy.trans hyz)
  | field r s name hxy =>
    cases k with
    | error => exact .error _ _
    | field _ s' _ hyz => exact .field r s' name (hxy.trans hyz)
  | fn r s hps hxy =>
    cases k with
    | error => exact .error _ _
    | fn _ s' hqs hyz => exact .fn r s' (hps.trans hqs) (hxy.trans hyz)
  | _ => cases k <;> constructor

theorem Members.Below.trans : ∀ {a b c : Members}, a.Below b → b.Below c → a.Below c := by
  intro a b c h k
  cases h with
  | nil => exact k
  | cons m n hxy hr =>
    cases k with
    | cons _ n' hyz hs => exact .cons m n' (hxy.trans hyz) (hr.trans hs)

end

mutual

/-- Types that lie below each other differ in what does not matter only. -/
theorem Ty.Below.alike : ∀ {a b : Ty}, a.Below b → b.Below a → a.Alike b := by
  intro a b h k
  unfold Ty.Alike
  cases h with
  | infer r t =>
    cases k
    rfl
  | error t r =>
    cases k
    rfl
  | array r s n hxy =>
    cases k with
    | array _ _ _ hyx => rw [Ty.shape, Ty.shape, hxy.alike hyx]
  | field r s name hxy =>
    cases k with
    | field _ _ _ hyx => rw [Ty.shape, Ty.shape, hxy.alike hyx]
  | fn r s hps hxy =>
    cases k with
    | fn _ _ hqs hyx => rw [Ty.shape, Ty.shape, hps.shape_eq hqs, hxy.alike hyx]
  | _ => rfl

theorem Members.Below.shape_eq : ∀ {a b : Members}, a.Below b → b.Below a → a.shape = b.shape := by
  intro a b h k
  cases h with
  | nil => rfl
  | cons m n hxy hr =>
    cases k with
    | cons _ _ hyx hs => rw [Members.shape, Members.shape, hxy.alike hyx, hr.shape_eq hs]

end

/-! ## Types without errors -/

mutual

/-- No part of the type is the error type. The fields of a struct type are no parts of it: the
identity of the struct stands for them. -/
def Ty.errorFree : Ty → Bool
  | .error _ => false
  | .array _ element _ => element.errorFree
  | .fn _ params result => params.errorFree && result.errorFree
  | .field _ _ type => type.errorFree
  | _ => true

def Members.errorFree : Members → Bool
  | .nil => true
  | .cons _ type rest => type.errorFree && rest.errorFree

end

theorem Ty.isError_of_errorFree {a : Ty} (h : a.errorFree = true) : a.isError = false := by
  cases a <;> first | rfl | exact absurd h nofun

mutual

/-- What lies below a type without errors has none either. -/
theorem Ty.Below.errorFree : ∀ {a b : Ty}, a.Below b → b.errorFree = true → a.errorFree = true := by
  intro a b h hb
  cases h with
  | error t r => cases hb
  | array r s n hxy => exact hxy.errorFree hb
  | field r s name hxy => exact hxy.errorFree hb
  | fn r s hps hxy =>
    rw [Ty.errorFree, Bool.and_eq_true] at hb ⊢
    exact ⟨hps.errorFree hb.1, hxy.errorFree hb.2⟩
  | _ => rfl

theorem Members.Below.errorFree : ∀ {a b : Members}, a.Below b → b.errorFree = true →
    a.errorFree = true := by
  intro a b h hb
  cases h with
  | nil => rfl
  | cons m n hxy hr =>
    rw [Members.errorFree, Bool.and_eq_true] at hb ⊢
    exact ⟨hxy.errorFree hb.1, hr.errorFree hb.2⟩

end

/-! ## Least upper bounds -/

/-- `c` lies above both types, and below all types that do. -/
structure Ty.Least (a b c : Ty) : Prop where
  left : a.Below c
  right : b.Below c
  least : ∀ d, a.Below d → b.Below d → c.Below d

/-- As `Ty.Least`, for members. -/
structure Members.Least (a b c : Members) : Prop where
  left : a.Below c
  right : b.Below c
  least : ∀ d, a.Below d → b.Below d → c.Below d

/-- The left one of two types that lie below each other is their least upper bound. -/
theorem Ty.Least.of_below {a b : Ty} (h : b.Below a) : a.Least b a :=
  ⟨.refl a, h, fun _ hd _ => hd⟩

mutual

theorem Ty.Settles.least : ∀ {a b c : Ty}, a.Settles b c → a.Least b c := by
  intro a b c h
  cases h with
  | errorRight r ha => exact ⟨.error a r, .refl _, fun _ _ hd => hd⟩
  | inferLeft r hb => exact ⟨.infer r b, .refl b, fun _ _ hd => hd⟩
  | array r s n hxy =>
    obtain ⟨hxz, hyz, hleast⟩ := hxy.least
    refine ⟨.array r r n hxz, .array s r n hyz, fun d hd hd' => ?_⟩
    cases hd with
    | error => exact .error _ _
    | array _ q _ hxe =>
      cases hd' with
      | array _ _ _ hye => exact .array r q n (hleast _ hxe hye)
  | field r s name hxy =>
    obtain ⟨hxz, hyz, hleast⟩ := hxy.least
    refine ⟨.field r r name hxz, .field s r name hyz, fun d hd hd' => ?_⟩
    cases hd with
    | error => exact .error _ _
    | field _ q _ hxe =>
      cases hd' with
      | field _ _ _ hye => exact .field r q name (hleast _ hxe hye)
  | fn r s hps hxy =>
    obtain ⟨hp, hq, hleast⟩ := hps.least
    obtain ⟨hxz, hyz, hleast'⟩ := hxy.least
    refine ⟨.fn r r hp hxz, .fn s r hq hyz, fun d hd hd' => ?_⟩
    cases hd with
    | error => exact .error _ _
    | fn _ t hpd hxd =>
      cases hd' with
      | fn _ _ hqd hyd => exact .fn r t (hleast _ hpd hqd) (hleast' _ hxd hyd)
  | _ => exact .of_below (by constructor)

theorem Members.Settles.least : ∀ {a b c : Members}, a.Settles b c → a.Least b c := by
  intro a b c h
  cases h with
  | nil => exact ⟨.nil, .nil, fun _ hd _ => hd⟩
  | cons m n hxy hps =>
    obtain ⟨hxz, hyz, hleast⟩ := hxy.least
    obtain ⟨hp, hq, hleast'⟩ := hps.least
    refine ⟨.cons m m hxz hp, .cons n m hyz hq, fun d hd hd' => ?_⟩
    cases hd with
    | cons _ k hxd hpd =>
      cases hd' with
      | cons _ _ hyd hqd => exact .cons m k (hleast _ hxd hyd) (hleast' _ hpd hqd)

end

/-- What two types combine to is their least upper bound. -/
theorem Ty.least_of_combine? {a b c : Ty} (h : a.combine? b = some c) : a.Least b c :=
  (settles_of_combine? h).least

/-! ## Types that combine -/

mutual

/-- Types below one type without errors settle. -/
theorem Ty.Below.settles : ∀ {a b d : Ty}, a.Below d → b.Below d → d.errorFree = true →
    ∃ c, a.Settles b c := by
  intro a b d ha hb hd
  cases ha with
  | infer r => exact ⟨b, .inferLeft r (Ty.isError_of_errorFree (hb.errorFree hd))⟩
  | error => cases hd
  | array r s n hx =>
    cases hb with
    | infer q => exact ⟨_, .inferRight q rfl rfl⟩
    | array q _ _ hy =>
      obtain ⟨c, hc⟩ := hx.settles hy hd
      exact ⟨_, .array r q n hc⟩
  | field r s name hx =>
    cases hb with
    | infer q => exact ⟨_, .inferRight q rfl rfl⟩
    | field q _ _ hy =>
      obtain ⟨c, hc⟩ := hx.settles hy hd
      exact ⟨_, .field r q name hc⟩
  | fn r s hps hx =>
    rw [Ty.errorFree, Bool.and_eq_true] at hd
    cases hb with
    | infer q => exact ⟨_, .inferRight q rfl rfl⟩
    | fn q _ hqs hy =>
      obtain ⟨ms, hms⟩ := hps.settles hqs hd.1
      obtain ⟨c, hc⟩ := hx.settles hy hd.2
      exact ⟨_, .fn r q hms hc⟩
  | _ =>
    cases hb with
    | infer q => exact ⟨_, .inferRight q rfl rfl⟩
    | _ => exact ⟨_, by constructor⟩

theorem Members.Below.settles : ∀ {a b d : Members}, a.Below d → b.Below d →
    d.errorFree = true → ∃ c, a.Settles b c := by
  intro a b d ha hb hd
  cases ha with
  | nil =>
    cases hb
    exact ⟨.nil, .nil⟩
  | cons m k hx hps =>
    rw [Members.errorFree, Bool.and_eq_true] at hd
    cases hb with
    | cons n _ hy hqs =>
      obtain ⟨c, hc⟩ := hx.settles hy hd.1
      obtain ⟨ms, hms⟩ := hps.settles hqs hd.2
      exact ⟨_, .cons m n hc hms⟩

end

mutual

/-- Types without errors settle on a type without errors. -/
theorem Ty.Settles.errorFree : ∀ {a b c : Ty}, a.Settles b c → a.errorFree = true →
    b.errorFree = true → c.errorFree = true := by
  intro a b c h ha hb
  cases h with
  | errorRight | inferLeft => exact hb
  | array r s n hxy => exact hxy.errorFree ha hb
  | field r s name hxy => exact hxy.errorFree ha hb
  | fn r s hps hxy =>
    rw [Ty.errorFree, Bool.and_eq_true] at ha hb ⊢
    exact ⟨hps.errorFree ha.1 hb.1, hxy.errorFree ha.2 hb.2⟩
  | _ => exact ha

theorem Members.Settles.errorFree : ∀ {a b c : Members}, a.Settles b c → a.errorFree = true →
    b.errorFree = true → c.errorFree = true := by
  intro a b c h ha hb
  cases h with
  | nil => rfl
  | cons m n hxy hps =>
    rw [Members.errorFree, Bool.and_eq_true] at ha hb ⊢
    exact ⟨hxy.errorFree ha.1 hb.1, hps.errorFree ha.2 hb.2⟩

end

/-- Types without errors combine exactly where they have an upper bound without errors. -/
theorem Ty.combine?_isSome_iff {a b : Ty} (ha : a.errorFree = true) (hb : b.errorFree = true) :
    (∃ c, a.combine? b = some c) ↔ ∃ d, d.errorFree = true ∧ a.Below d ∧ b.Below d := by
  simp only [combine?_eq_some_iff]
  constructor
  · rintro ⟨c, h⟩
    exact ⟨c, h.errorFree ha hb, h.least.left, h.least.right⟩
  · rintro ⟨d, hd, hda, hdb⟩
    exact hda.settles hdb hd

/-- Combining computes least upper bounds: what it gives lies above both types and below every
other type that does, and between types without errors it fails only where no type without errors
lies above both. -/
theorem Ty.combine_least (a b : Ty) :
    (∀ c, a.combine b = .ok c → a.Below c ∧ b.Below c ∧ ∀ d, a.Below d → b.Below d → c.Below d) ∧
    (a.errorFree = true → b.errorFree = true →
      ((∃ c, a.combine b = .ok c) ↔ ∃ d, d.errorFree = true ∧ a.Below d ∧ b.Below d)) := by
  simp only [Check.combine_eq_ok]
  refine ⟨fun c h => ?_, combine?_isSome_iff⟩
  have hleast := least_of_combine? h
  exact ⟨hleast.left, hleast.right, hleast.least⟩

/-- Two function types that are unsettled at different places: `fn(x: [_; 2]) -> i32` and
`fn(y: [i32; 2]) -> _`. -/
theorem Ty.combine_least_open :
    let a : Ty := .fn ⟨1⟩ (.cons "x" (.array ⟨2⟩ (.infer ⟨3⟩) 2) .nil) (.int ⟨4⟩ .w32)
    let b : Ty := .fn ⟨5⟩ (.cons "y" (.array ⟨6⟩ (.int ⟨4⟩ .w32) 2) .nil) (.infer ⟨7⟩)
    let c : Ty := .fn ⟨1⟩ (.cons "x" (.array ⟨2⟩ (.int ⟨4⟩ .w32) 2) .nil) (.int ⟨4⟩ .w32)
    a.errorFree = true ∧ b.errorFree = true ∧ a.combine b = .ok c ∧
      (a.Below c ∧ b.Below c ∧ ∀ d, a.Below d → b.Below d → c.Below d) ∧
      ∃ d, d.errorFree = true ∧ a.Below d ∧ b.Below d := by
  intro a b c
  have ha : a.errorFree = true := by decide
  have hb : b.errorFree = true := by decide
  have hc : a.combine b = .ok c := by rfl
  exact ⟨ha, hb, hc, (combine_least a b).1 c hc, ((combine_least a b).2 ha hb).1 ⟨c, hc⟩⟩

end MiddleEnd
