/-
  Where the body of a function is checked, in a clean pass over a program (`Check.Body`): the tables
  before and after, the types of the parameters and what the final table keeps. So evaluating the
  body for arguments that fit keeps to the final table (`Check.Body.preserves`).
-/
import MiddleEnd.Proofs.Check.Outcome
import MiddleEnd.Proofs.Meaning.Conformance

namespace MiddleEnd.Check

variable {s : Scope} {b T : TypeTable} {V F : IrId → Prop} {p : Program} {i : Item}
  {d : FunctionDecl} {t u v : TypeTable} {ps : Members} {result ty : Ty}

/-- The body of the function item is checked between `t` and `u`, on the way to the final table `T`.
Table `v` has all the signatures. -/
structure Body (s : Scope) (b : TypeTable) (V F : IrId → Prop) (T : TypeTable) (i : Item)
    (d : FunctionDecl) (v t u : TypeTable) (ps : Members) (result ty : Ty) : Prop where
  start : Keeps V b v
  signed : Good b F v
  params : TypedParams s v d.params ps
  before : Keeps V v t
  signature : ∃ r, T.get? i.head.id.ir = some (.fn r ps result)
  ready : Ready s b V F (some result) d.body.ids d.body.parts (t.pushReturn result)
  derives : Derives s (t.pushReturn result) (.expr d.body true ty) u
  after : Keeps V u T
  fits : ∀ tail, d.body.tail? = some tail → ty.Alike result

/-- Every function item of a program is checked on the way. -/
theorem Passes.body (h : Passes s p b T) (hp : ItemsPlaced s b V F p) (hg : Good b F b)
    (hr : b.returns = []) (hn : p.ids.Nodup) (hfresh : ∀ id ∈ p.ids, b.get? id = none)
    {before after : List Item} (hitems : p.items = before ++ i :: after)
    (hd : i.kind = .function d) :
    ∃ v t u ps result ty, Body s b V F T i d v t u ps result ty := by
  obtain ⟨v, hsigns, hfits⟩ := h
  have horder := ids_perm_of_order p
  have hsigning : Signing b F p (signatureOrder p.items) b :=
    ⟨hg, hr, fun i hi => mem_signatureOrder.1 hi, horder.nodup_iff.1 hn,
      fun id hid => hfresh id (horder.mem_iff.2 hid)⟩
  have hm : i ∈ p.items := hitems ▸ List.mem_append_right _ (List.mem_cons_self ..)
  -- the signatures, and the types of the item and its parameters
  obtain ⟨hend, hsigned⟩ := hsigns.each (I := Signing b F p) (K := fun t => Knows V t v)
    (fun hi h => hp.sign hi h) hsigning
  obtain ⟨hkeeps, _⟩ := hsigns.known (I := Signing b F p) (K := fun t => Keeps V t v)
    (fun hi h => ⟨(hp.signKeeps hi h).1, (hp.signKeeps hi h).2.trans⟩) hsigning (.refl v)
  obtain ⟨sig, hsig, hv⟩ := (hsigned (.refl v)).2 i (mem_signatureOrder.2 hm)
  -- the bodies before, and then this one
  have hfitting : Fitting b F p (before ++ i :: after) v :=
    ⟨hend.good, hend.outside, fun i hi => hitems ▸ hi, hitems ▸ hend.unrecorded⟩
  rw [hitems] at hfits
  obtain ⟨t, hpre, hrest⟩ := hfits.split
  have hhere : Fitting b F p (i :: after) t :=
    hpre.invariant (I := fun l => Fitting b F p (l ++ i :: after))
      (fun hi h => (hp.fit (T := t) hi h).1) hfitting
  obtain ⟨hkv, _⟩ := hpre.known (I := fun l => Fitting b F p (l ++ i :: after))
    (K := fun w => Keeps V w t)
    (fun hi h => ⟨(hp.fit (T := t) hi h).1, fun hk => ((hp.fitKeeps hi h).2 hk).1⟩) hfitting
    (.refl t)
  cases hrest with
  | @cons _ u _ _ _ hthis hafter =>
    obtain ⟨hnext, hall⟩ := hp.fitKeeps (T := T) hhere hthis
    obtain ⟨hku, _⟩ := hafter.known (I := Fitting b F p) (K := fun w => Keeps V w T)
      (fun hi h => ⟨(hp.fit (T := T) hi h).1, fun hk => ((hp.fitKeeps hi h).2 hk).1⟩) hnext
      (.refl T)
    have hkt := (hall hku).1
    have hF := hp.firm i hm _ i.head_mem_firm
    have hV := hp.separate _ hF
    have hplaced := (hp.bodies i hm).of_irsAll i.irsAll_bodyParts
    have hunrecorded := hhere.unrecorded
    rw [List.flatMap_cons] at hunrecorded
    cases hthis with
    | @function w r ps result ty g d' hget hb ht =>
      cases hd
      have hfn := hhere.good.firm hget hF
      have hresult : result.complete = true := (Bool.and_eq_true _ _ ▸ hfn).2
      have hready : Ready s b V F (some result) d.body.ids d.body.parts (t.pushReturn result) :=
        ⟨hplaced, hhere.good.pushReturn hresult, hunrecorded.left.fresh, rfl⟩
      have hpop : Keeps V w w.popReturn.2 := .of_exact rfl fun hg _ => hg
      -- the signature that the body is checked against is that of the item
      have hsame := hkv.exact hv (hend.good.firm hv hF) hV
      cases hsig with
      | function g d' hps _ =>
        cases hget.symm.trans hsame
        refine ⟨v, t, w, _, _, ty, hkeeps, hend.good, hps, hkv,
          ⟨_, hkt.exact hget hfn hV⟩, hready, hb, hpop.trans hku, ?_⟩
        intro tail htail
        obtain ⟨both, hcomb⟩ := Option.isSome_iff_exists.1 (ht tail htail)
        exact (Ty.combine?_complete hresult (hb.evolved trivial hready).found hcomb).2.symm
    | struct => cases hd
    | constant => cases hd
    | static => cases hd

namespace Body

variable {k : Checked}

/-- The final table has the type of the body, which is unit if the result is and the body has a last
expression. -/
theorem isUnit (h : Body k.scope b V F k.types i d v t u ps result ty) (hu : result.isUnit = true)
    {tail : Expr} (ht : d.body.tail? = some tail) : k.types.IsUnit d.body.ir :=
  ⟨ty, h.derives.kept h.ready h.after, (h.fits tail ht).isUnit_eq.trans hu⟩

theorem keeps (h : Body s b V F T i d v t u ps result ty) : Keeps V b T :=
  have hpush : Keeps V t (t.pushReturn result) := .of_exact rfl fun hg _ => hg
  h.start.trans (h.before.trans (hpush.trans ((h.derives.keeps trivial h.ready).trans h.after)))

/-- Literals have the primitive types that they select. -/
theorem literal (h : Body k.scope b V F k.types i d v t u ps result ty) {g : Head} {lit : Literal}
    (hm : .expr (.literal g lit) ∈ d.body.parts) :
    ∃ ty, b.builtin? lit.primitive.name = some ty ∧ k.types.get? g.id.ir = some ty := by
  have hreached := (h.derives.reached trivial h.ready).keep h.after
  cases hreached.exprs _ hm with
  | @derived t' v' _ final ty' hd hb hget _ =>
    refine ⟨ty', ?_, hget⟩
    cases hd with
    | literal _ _ _ hl =>
      unfold TypeTable.builtin? at hl ⊢
      rw [hb, h.keeps.builtins] at hl
      exact hl

end Body

end MiddleEnd.Check
