/-
  Operators as a text has them, before anything is simplified: in which form the operands are
  converted, and in which the operator is computed. Where both operands are widened from a narrower
  form in the same way, it is computed in that form. An operator on constants alone is computed at
  once.

  Conversions of simplified expressions come last. Where bits are dropped, an operator whose last
  bits only depend on the last bits of its operands is computed in the narrower form.
-/
import MiddleEnd.Compiler.Simplify

namespace MiddleEnd.Compiler

namespace Tree

/-! ## Constants -/

/-- Whether an expression is made of constants alone. -/
def isLiteral : Tree → Bool
  | int .. | stuck _ => true
  | _ => false

def unstuck : Tree → Tree
  | stuck t => t
  | t => t

/-- A value that is known, but does not make up a constant expression. -/
def known (f : Form) (b : Bool) : Tree := convert f (ofTruth f b)

/-! ## Conversions -/

/-- An expression converted to an integer form. -/
def cast (f : IntForm) (t : Tree) : Tree :=
  if t.form = .int f then t
  else
    match t with
    | int _ v => int f (f.wrap v)
    | relation r _ a b => relation r (.int f) a b
    | stuck t => stuck (convert (.int f) t)
    | t => convert (.int f) t

/-- What is left of an expression when widening conversions are taken away, and whether it is widened
without a sign. After one way of widening the other one is not taken away. -/
def narrower (t : Tree) : Tree × Bool :=
  go t none t
where
  go (win : Tree) (unsigned : Option Bool) : Tree → Tree × Bool
    | convert (.int f) e =>
      match e.form with
      | .int g =>
        let u := !g.isSigned
        if f.bits < g.bits then (win, unsigned.getD false)
        else if g.bits < f.bits then
          if unsigned.any (· != u) then (win, unsigned.getD false) else go e (some (unsigned.getD u)) e
        else go e (some (unsigned.getD u)) e
      | _ => (win, unsigned.getD false)
    | _ => (win, unsigned.getD false)

/-- The integer form of an expression. -/
def intForm (t : Tree) : IntForm :=
  match t.form with
  | .int f => f
  | _ => .int

/-- An expression with widening conversions taken away as far as it is no narrower than a form, and
converted to that form. -/
def castBack (f : IntForm) : Tree → Tree
  | convert (.int g) e =>
    match e.form with
    | .int h =>
      if h = f && h.bits ≤ g.bits then e
      else if h.bits < g.bits then castBack f e
      else cast f (convert (.int g) e)
    | _ => cast f (convert (.int g) e)
  | t => cast f t

/-! ## Arithmetic -/

/-- The form with as many bits as another one. Truth values have no sign. -/
def withSign (f : IntForm) (isSigned : Bool) : IntForm := if f.bits = 1 then f else .plain f.bits isSigned

/-- The form in which an operator is computed whose operands were converted to a form. On truth values
it is computed as on any numbers. -/
def sharedForm (f : IntForm) (bitwise : Bool) (a b : Tree) : IntForm :=
  let (p, u) := narrower a
  let (q, v) := narrower b
  let g := p.intForm
  let h := q.intForm
  let unsigned := if bitwise then u else !f.isSigned
  let fits (c : Tree) (e : Tree) (w : Bool) : Option IntForm :=
    match c with
    | int _ n =>
      let t := withSign e.intForm (!w)
      let isNarrow := 1 < e.intForm.bits && e.intForm.bits < f.bits
      if (w || !unsigned) && isNarrow && t.holds n then some t else none
    | _ => none
  let isNarrow := 1 < g.bits && g.bits < f.bits
  if isNarrow && h.bits = g.bits && u = v && (u || !unsigned) then withSign g (!u)
  else ((fits p q v) <|> (fits q p u)).getD f

/-- An operator on two operands, which are converted to a form. `unsigned` says that the left operand
has no sign as it stands in the text. -/
def compute (op : Arith) (unsigned : Bool) (f : IntForm) (a b : Tree) : Tree :=
  let F := Form.int f
  let a := cast f a
  let b := if op.isShift then b else cast f b
  if a.isLiteral && b.isLiteral then
    match a, b with
    | int .., int .. =>
      match (arith op F a b).reduced false with
      | int _ n => int f n
      | t => stuck t
    | a, b => stuck (arith op F a.unstuck b.unstuck)
  else
    let g : IntForm :=
      match op with
      | .div | .rem =>
        let isSafe := match b with
          | int .. => !b.isAllOnes
          | _ => false
        if unsigned || isSafe then sharedForm f false a b else f
      | .and | .or | .xor => sharedForm f true a b
      | .shr =>
        let (e, u) := narrower a
        let h := e.intForm
        match b with
        | int _ n =>
          if h.bits < f.bits && 0 < n && n < h.bits && (f.isSigned || u) then withSign h (!u) else f
        | _ => f
      | _ => f
    if g = f then arith op F a b
    else
      let b := if op.isShift then b else castBack g b
      convert F (arith op (.int g) (castBack g a) b)

/-! ## Comparisons -/

/-- A comparison of two integers, whose common form is given. -/
def compare (r : Relation) (f : IntForm) (a b : Tree) : Tree :=
  let F := Form.int .int
  let isLiteral := a.isLiteral && b.isLiteral
  let done (v : Bool) : Tree := if isLiteral then ofTruth F v else known F v
  let finish (r : Relation) (a b : Tree) : Tree :=
    match a, b with
    | int _ v, int _ w => ofTruth F (r.holds v w)
    | a, b =>
      if isLiteral then stuck (relation r F a.unstuck b.unstuck) else relation r F a b
  let (p₀, u₀) := narrower a
  let (q₀, v₀) := narrower b
  /- what is first widened with a sign and then without one stays as it is -/
  let keep (e t : Tree) (u : Bool) : Tree :=
    if e.intForm.bits < t.intForm.bits && t.intForm.bits < f.bits && !u && !t.intForm.isSigned then t
    else e
  let p := keep p₀ a u₀
  let q := keep q₀ b v₀
  let signless (e t : Tree) (u : Bool) : Bool :=
    if e = t && t.form ≠ .int f then !t.intForm.isSigned else u
  let u := signless p a u₀
  let v := signless q b v₀
  let isExchanged := p.isConstant && !q.isZero
  let (r, a, b, p, q, u, v) :=
    if isExchanged then (r.swap, b, a, q, p, v, u) else (r, a, b, p, q, u, v)
  let g := p.intForm
  let whole : Tree :=
    let unsignedZero := q.isZero && !f.isSigned
    if unsignedZero && r = .ge then done true
    else if unsignedZero && r = .lt then done false
    else finish r (cast f a) (cast f b)
  match q with
  | int h n =>
    if g.bits < f.bits then
      let t := withSign g (!u)
      let isMixed := !f.isSigned && !u
      let wide : IntForm := if isMixed then f.signed else f
      let n := wide.wrap n
      match decided? r t.least t.greatest n with
      | some d =>
        if isMixed && !r.isEquality then
          /- the sign alone decides -/
          let bound := if r = .lt || r = .ge then t.least else t.greatest
          let t := t.unsigned
          finish r (castBack t p) (ofInt t bound)
        else done d
      | none =>
        let t := if isMixed then t.unsigned else t
        finish r (castBack t p) (ofInt t n)
    else if u = v && g.bits < f.bits && h.bits < f.bits then whole
    else whole
  | q =>
    let h := q.intForm
    if u = v && g.bits < f.bits && h.bits < f.bits then
      let widest := if g.bits < h.bits then h else g
      let t := withSign widest (!(u || !f.isSigned))
      finish r (cast t (castBack (withSign g (!u)) p)) (cast t (castBack (withSign h (!v)) q))
    else whole

/-! ## Truth values -/

/-- An expression as a truth value. -/
def truth : Tree → Tree
  | int _ v => ofTruth (.int .int) (v ≠ 0)
  | real _ v => ofTruth (.int .int) (!Real.isZero v)
  | address _ => ofTruth (.int .int) true
  | t@(relation r _ a b) => if t.form = .int .int then t else relation r (.int .int) a b
  | both _ a b => both (.int .int) a b
  | either _ a b => either (.int .int) a b
  | negate _ e => e.truth
  | convert f e =>
    match f, e.form with
    | .int f, .int g =>
      if g.bits ≤ f.bits then e.truth else compare .ne f (convert (.int f) e) (int .int 0)
    | .real _, .int _ => e.truth
    | .int f, _ => compare .ne f (convert (.int f) e) (int .int 0)
    | .real k, _ => relation .ne (.int .int) (convert f e) (real k (Binary.zero false))
    | .pointer, _ => relation .ne (.int .int) (convert f e) (int .address 0)
    | .other, _ => unknown (.int .int)
  | choose _ c a b => choose (.int .int) c a.truth b.truth
  | t =>
    match t.form with
    | .int f =>
      let wide : IntForm := if f.bits < 32 then .int else f
      compare .ne wide (cast wide t) (cast wide (int .int 0))
    | .real k => relation .ne (.int .int) t (real k (Binary.zero false))
    | .pointer => relation .ne (.int .int) t (int .address 0)
    | .other => unknown (.int .int)

/-- Whether two truth values hold, or one of them. The second one does not count if the first one
decides. -/
def joinTruth (isBoth : Bool) (a b : Tree) : Tree :=
  let F := Form.int .int
  let a := a.truth
  let b := b.truth
  let node (a b : Tree) : Tree := if isBoth then both F a b else either F a b
  if a.isLiteral && b.isLiteral then
    match a, b with
    | int _ v, b =>
      if (v ≠ 0) != isBoth then ofTruth F (v ≠ 0)
      else
        match b with
        | int .. => b
        | b => stuck (node (int .int v) b.unstuck)
    | a, b => stuck (node a.unstuck b.unstuck)
  else node a b

/-! ## Conversions of simplified expressions -/

/-- An operand without conversions that only widen it, for one that is narrowed to a form. Of a
constant only as many bits are kept as it needs. -/
def unwidened (f : IntForm) : Tree → Tree
  | convert (.int g) e =>
    match e.form with
    | .int h => if h.bits ≤ g.bits then e.unwidened f else convert (.int g) e
    | _ => convert (.int g) e
  | int g n =>
    let fits (bits : Nat) : Bool := f.bits ≤ bits && (IntForm.plain bits g.isSigned).holds n
    match [8, 16, 32, 64].find? fits with
    | some bits => if bits < g.bits then int (.plain bits g.isSigned) n else int g n
    | none => int g n
  | t => t

/-- The sign with which an operator is computed that is narrowed to a form. -/
def narrowedSign (op : Arith) (f g : IntForm) (a b : Tree) : Bool :=
  let p := (a.unwidened f).intForm
  let q := (b.unwidened f).intForm
  let mayOverflow := (p.isSigned || q.isSigned) && (f.bits < 2 * p.bits || f.bits < 2 * q.bits) &&
    (op = .add || op = .sub || op = .mul)
  !(!g.isSigned || (!p.isSigned && (!q.isSigned || op.isShift)) || op = .shl || mayOverflow)

/-- Convert to an integer form with fewer bits. -/
def narrow (exact : Bool) (f : IntForm) : Tree → Tree
  | int _ v => int f (f.wrap v)
  | relation r _ a b => relation r (.int f) a b
  | arith op (.int g) a b =>
    let t := arith op (.int g) a b
    let h := IntForm.plain f.bits (narrowedSign op f g a b)
    let plain := (convert (.int f) t).reduced exact
    let inside (b : Tree) : Tree := (arith op (.int h) (a.narrow exact h) b).reduced exact
    let back (t : Tree) : Tree := if h = f then t else (convert (.int f) t).reduced exact
    match op with
    | .add | .sub | .and | .or | .xor | .mul => back (inside (b.narrow exact h))
    | .div =>
      let p := (a.unwidened f).intForm
      let q := (b.unwidened f).intForm
      let isSafe := !p.isSigned || (b.isInt && !b.isAllOnes)
      if p.bits ≤ f.bits && q.bits ≤ f.bits && p.isSigned = q.isSigned && g.isSigned = p.isSigned &&
          isSafe then
        back (inside (b.narrow exact h))
      else plain
    | .shl =>
      match b with
      | int _ n =>
        if f.isSigned || n < 0 then plain
        else if (f.bits : Int) ≤ n then int f 0
        else back (inside b)
      | _ => plain
    | .shr => if b.isZero then back (inside b) else plain
    | .rem => plain
  | negate (.int _) e =>
    let h := f.unsigned
    (convert (.int f) ((negate (.int h) (e.narrow exact h)).reduced exact)).reduced exact
  | complement (.int _) e =>
    let h := f.unsigned
    (convert (.int f) ((complement (.int h) (e.narrow exact h)).reduced exact)).reduced exact
  | convert (.int g) e =>
    match e.form with
    | .int h =>
      if f.bits < h.bits then e.narrow exact f
      else if h = f then e
      else (convert (.int f) e).reduced exact
    | _ => (convert (.int f) (convert (.int g) e)).reduced exact
  | choose _ c a b => (choose (.int f) c (a.narrow exact f) (b.narrow exact f)).reduced exact
  | t => (convert (.int f) t).reduced exact

/-- Convert a simplified expression to another form. -/
def converted (exact : Bool) (target : Form) (t : Tree) : Tree :=
  if t.form.isLike target then t
  else
    match target, t.form with
    | .int f, .int g =>
      if f = .bool then
        match t.truth with
        | int _ v => int f v
        | relation r _ a b => relation r target a b
        | u => (convert target u).reduced exact
      else if f.bits < g.bits then t.narrow exact f
      else
        match t with
        | relation r _ a b => relation r target a b
        | t => (convert target t).reduced exact
    | .int f, _ =>
      if f = .bool then
        match t.truth with
        | int _ v => int f v
        | u => (convert target u).reduced exact
      else (convert target t).reduced exact
    | _, _ => (convert target t).reduced exact

end Tree

end MiddleEnd.Compiler
