/-
  Small units that theorems about checking and lowering are tried on. All nodes stand in crate 0
  and have the same number in the surface syntax and in the checked tree.
-/
import MiddleEnd.Syntax.Basic

namespace MiddleEnd.Samples

def identity (n : UInt32) : Identity := ⟨⟨0⟩, ⟨n⟩, ⟨n⟩⟩

def head (n : UInt32) : Head := ⟨identity n, ⟨0, 1, 1⟩⟩

def name (n : UInt32) (x : String) : Expr := .identifier (head n) x

def number (n : UInt32) (spelling : String) : Expr :=
  .literal (head n) ⟨spelling, .int, .unknown⟩

def truth (n : UInt32) : Expr := .literal (head n) ⟨"true", .bool, .unknown⟩

/-- A call without arguments, of the function that node `c` names. -/
def call (n c : UInt32) (f : String) : Expr := .call (head n) (name c f) []

/-- A `let` at node `n` with its pattern at `p`. -/
def bind (n p : UInt32) (x : String) (init : Option Expr) : Stmt :=
  .bind (head n) ⟨identity p, x, true⟩ none init

/-- A function without parameters, at node `n` with its body at `b`. -/
def function (n b : UInt32) (f : String) (returns : Option TypeExpr) (stmts : List Stmt)
    (tail : Option Expr) : Item :=
  ⟨head n, .function ⟨f, [], returns, .block (head b) stmts tail⟩⟩

/-- A unit of these items; `uses` says which pattern a name means, `lets` which statement a pattern
belongs to. -/
def unit (items : List Item) (uses lets : List (UInt32 × UInt32)) : CompilationUnit :=
  ⟨⟨⟨0⟩, items⟩, uses.map fun b => ⟨⟨b.1⟩, ⟨b.2⟩⟩, [], lets.map fun b => ⟨⟨b.1⟩, ⟨b.2⟩⟩⟩

/-- `fn f() { let y; let x; x = 1; }` -/
def leaving : CompilationUnit :=
  unit [function 1 2 "f" none
    [bind 8 9 "y" none, bind 3 4 "x" none,
      .expr (.assign (head 5) (name 6 "x") (number 7 "1"))] none] [(6, 4)] [(4, 3), (9, 8)]

/-- `{ x = 5; }` -/
def resettledValue : Expr :=
  .block (head 8) [.expr (.assign (head 9) (name 10 "x") (number 11 "5"))] none

/-- `fn f() { let x; x = { x = 5; }; }` -/
def resettling : CompilationUnit :=
  unit [function 1 2 "f" none
    [bind 3 4 "x" none, .expr (.assign (head 5) (name 6 "x") resettledValue)] none]
    [(6, 4), (10, 4)] [(4, 3)]

/-- `if true { f() }` -/
def droppedCall : Expr := .ifOnly (head 7) (truth 8) (.block (head 9) [] (some (call 10 11 "f")))

/-- `fn f() -> i32 { 1 }  fn g() { if true { f() } }` -/
def dropping : CompilationUnit :=
  unit [
    function 1 2 "f" (some (.path (head 3) "i32")) [] (some (number 4 "1")),
    function 5 6 "g" none [] (some droppedCall)] [(11, 1)] []

/-- `fn f() -> i32 { }` -/
def resultless : CompilationUnit :=
  unit [function 1 2 "f" (some (.path (head 3) "i32")) [] none] [] []

/-- `if true { 1 } else { return 2 }` -/
def alternatives : Expr :=
  .ifElse (head 4) (truth 5) (.block (head 6) [] (some (number 7 "1")))
    (.block (head 8) [] (some (.ret (head 9) (some (number 10 "2")))))

/-- `fn f() -> i32 { if true { 1 } else { return 2 } }` -/
def alternating : CompilationUnit :=
  unit [function 1 2 "f" (some (.path (head 3) "i32")) [] (some alternatives)] [] []

/-- `y[0] = 5` -/
def strayingAssignment : Expr :=
  .assign (head 9) (.index (head 10) (name 11 "y") (number 12 "0")) (number 13 "5")

/-- `fn f() { let x; let y: [T; 1]; y[0] = 5; f(); }`, where `T` is bound to the first statement and
the place `y[0]` to the callee of the last one. -/
def straying : CompilationUnit :=
  let array : TypeExpr := .array (head 7) (.path (head 8) "T") 1
  { unit [function 1 2 "f" none
      [bind 3 4 "x" none, .bind (head 5) ⟨identity 6, "y", true⟩ (some array) none,
        .expr strayingAssignment, .expr (call 14 15 "f")] none]
      [(11, 6), (10, 15), (15, 1)] [(4, 3), (6, 5), (15, 15)] with
    types := [⟨⟨8⟩, ⟨3⟩⟩] }

/-- `{ y[0] = 5; z }` -/
def strayingBlock : Expr := .block (head 14) [.expr strayingAssignment] (some (name 15 "z"))

/-- `let x; let y: [T; 1];` -/
def unsettledArray : List Stmt :=
  [bind 3 4 "x" none,
    .bind (head 5) ⟨identity 6, "y", true⟩ (some (.array (head 7) (.path (head 8) "T") 1)) none]

/-- `fn f() { let x; let y: [T; 1]; { y[0] = 5; z }; }`, where `T` is bound to the first statement,
the place `y[0]` to the block around it and `z` to nothing. -/
def enclosing : CompilationUnit :=
  { unit [function 1 2 "f" none (unsettledArray ++ [.expr strayingBlock]) none]
      [(11, 6), (10, 14)] [(4, 3), (6, 5), (14, 14)] with
    types := [⟨⟨8⟩, ⟨3⟩⟩] }

/-- `fn f() { g(y); }`, where neither `g` nor `y` means anything. -/
def refusing : CompilationUnit :=
  unit [function 1 2 "f" none [.expr (.call (head 3) (name 4 "g") [name 5 "y"])] none] [] []

/-- `const x: i32 = 1;  fn f() { let x = x; }` -/
def capturing : CompilationUnit :=
  unit [
    ⟨head 1, .constant ⟨"x", .path (head 2) "i32", number 3 "1"⟩⟩,
    function 4 5 "f" none [bind 6 7 "x" (some (name 8 "x"))] none] [(8, 1)] [(7, 6)]

/-- `{ let y: i32; f }` -/
def calleeBlockCallee : Expr :=
  .block (head 4) [.bind (head 5) ⟨identity 6, "y", true⟩ (some (.path (head 7) "i32")) none]
    (some (name 8 "f"))

/-- `fn f() { { let y: i32; f }(); }`, where the block is bound to the function. -/
def calleeBlock : CompilationUnit :=
  unit [function 1 2 "f" none [.expr (.call (head 3) calleeBlockCallee [])] none]
    [(4, 1), (8, 1)] [(6, 5)]

/-- `struct P { a: i32 }  const N: i32 = 1;  fn g(n: i32) -> i32 { n }
fn f() { let y = g(N); let p = P { a: y }; }` -/
def building : CompilationUnit :=
  let i32 n : TypeExpr := .path (head n) "i32"
  { unit [
      ⟨head 1, .struct ⟨"P", [⟨head 2, "a", i32 3⟩]⟩⟩,
      ⟨head 4, .constant ⟨"N", i32 5, number 6 "1"⟩⟩,
      ⟨head 7, .function ⟨"g", [⟨head 8, ⟨identity 9, "n", false⟩, i32 10⟩], some (i32 11),
        .block (head 12) [] (some (name 13 "n"))⟩⟩,
      function 14 15 "f" none
        [bind 16 17 "y" (some (.call (head 18) (name 19 "g") [name 20 "N"])),
          bind 21 22 "p" (some (.struct (head 23) ⟨identity 24, "P"⟩
            [.mk (head 25) "a" (name 26 "y")]))] none]
      [(13, 9), (19, 7), (20, 4), (26, 17)] [(9, 8), (17, 16), (22, 21)] with
    types := [⟨⟨24⟩, ⟨1⟩⟩] }

/-- `{ x = 2; true }` -/
def assigningTruth : Expr :=
  .block (head 9) [.expr (.assign (head 10) (name 11 "x") (number 12 "2"))] (some (truth 13))

/-- `false && { x = 2; true }` -/
def decidedAnd : Expr :=
  .binary (head 7) (.lazy .and) (.literal (head 8) ⟨"false", .bool, .unknown⟩) assigningTruth

/-- `fn f() { let x = 1; false && { x = 2; true }; }` -/
def deciding : CompilationUnit :=
  unit [function 1 2 "f" none [bind 3 4 "x" (some (number 5 "1")), .expr decidedAnd] none]
    [(11, 4)] [(4, 3)]

/-- `P { b: x, a: { x = 2; 3 } }` -/
def staleLiteral : Expr :=
  .struct (head 13) ⟨identity 14, "P"⟩ [
    .mk (head 15) "b" (name 16 "x"),
    .mk (head 17) "a" (.block (head 18)
      [.expr (.assign (head 19) (name 20 "x") (number 21 "2"))] (some (number 22 "3")))]

/-- `struct P { a: i32, b: i32 }  fn f() { let x = 1; let p = P { b: x, a: { x = 2; 3 } }; }` -/
def staling : CompilationUnit :=
  { unit [
      ⟨head 1, .struct ⟨"P", [⟨head 2, "a", .path (head 3) "i32"⟩,
        ⟨head 4, "b", .path (head 5) "i32"⟩]⟩⟩,
      function 6 7 "f" none
        [bind 8 9 "x" (some (number 10 "1")), bind 11 12 "p" (some staleLiteral)] none]
      [(16, 9), (20, 9)] [(9, 8), (12, 11)] with
    types := [⟨⟨14⟩, ⟨1⟩⟩] }

/-- `fn f(x: i32) -> i32 { let x = { let x = x; x }; x }` -/
def shadowing : CompilationUnit :=
  unit [⟨head 1, .function ⟨"f", [⟨head 2, ⟨identity 3, "x", false⟩, .path (head 4) "i32"⟩],
    some (.path (head 5) "i32"),
    .block (head 6) [bind 7 8 "x" (some (.block (head 9) [bind 10 11 "x" (some (name 12 "x"))]
      (some (name 13 "x"))))] (some (name 14 "x"))⟩⟩]
    [(12, 3), (13, 11), (14, 8)] [(3, 2), (8, 7), (11, 10)]

/-- `fn f() -> i32 { 5 }  fn g() { { }; }`, where `5` and the inner block of `g` are one node. -/
def sharing : CompilationUnit :=
  unit [
    function 1 2 "f" (some (.path (head 3) "i32")) [] (some (number 9 "5")),
    function 4 5 "g" none [.expr (.block (head 9) [] none)] none] [] []

/-- `struct A { b: B }  struct B { x: i32 }` -/
def mentioning : CompilationUnit :=
  unit [
    ⟨head 1, .struct ⟨"A", [⟨head 2, "b", .path (head 3) "B"⟩]⟩⟩,
    ⟨head 4, .struct ⟨"B", [⟨head 5, "x", .path (head 6) "i32"⟩]⟩⟩] [] []

/-- `static s: i32 = 1;  const c: i32 = s;` -/
def initializing : CompilationUnit :=
  unit [
    ⟨head 1, .static ⟨"s", false, .path (head 2) "i32", number 3 "1"⟩⟩,
    ⟨head 4, .constant ⟨"c", .path (head 5) "i32", name 6 "s"⟩⟩] [(6, 1)] []

/-- `struct P { a: [i32; 2] }  struct Q { p: P, r: [P; 3] }  fn f(x: [i32; 2]) { }` -/
def wrapping : CompilationUnit :=
  { unit [
      ⟨head 1, .struct ⟨"P", [⟨head 2, "a", .array (head 3) (.path (head 4) "i32") 2⟩]⟩⟩,
      ⟨head 5, .struct ⟨"Q", [⟨head 6, "p", .path (head 7) "P"⟩,
        ⟨head 8, "r", .array (head 9) (.path (head 10) "P") 3⟩]⟩⟩,
      ⟨head 11, .function ⟨"f", [⟨head 13, ⟨identity 14, "x", false⟩,
        .array (head 15) (.path (head 16) "i32") 2⟩], none, .block (head 12) [] none⟩⟩] [] [] with
    types := [⟨⟨7⟩, ⟨1⟩⟩, ⟨⟨10⟩, ⟨1⟩⟩] }

/-- `fn f(x: i32) -> bool { y }`, where `y` means the parameter, under any names. -/
def mistyping (f x y : String) : CompilationUnit :=
  unit [⟨head 1, .function ⟨f, [⟨head 2, ⟨identity 3, x, false⟩, .path (head 4) "i32"⟩],
    some (.path (head 5) "bool"), .block (head 6) [] (some (name 7 y))⟩⟩] [(7, 3)] [(3, 2)]

/-- `fn f() { let x; let y: [T; 1]; y[0] = 5; }  fn g() { }`, where `T` is bound to the first
statement and the place `y[0]` to the function `g`. -/
def overwriting : CompilationUnit :=
  { unit [function 1 2 "f" none (unsettledArray ++ [.expr strayingAssignment]) none,
      function 14 15 "g" none [] none] [(11, 6), (10, 14)] [(4, 3), (6, 5)] with
    types := [⟨⟨8⟩, ⟨3⟩⟩] }

/-- `fn f() { let x; let y: [T; 1]; y[0] = h; }` -/
def replacer : FunctionDecl :=
  ⟨"f", [], none, .block (head 2) (unsettledArray ++
    [.expr (.assign (head 9) (.index (head 10) (name 11 "y") (number 12 "0")) (name 13 "h"))]) none⟩

/-- `fn g() -> i32 { return 5; }` -/
def replaced : FunctionDecl :=
  ⟨"g", [], some (.path (head 16) "i32"),
    .block (head 15) [.expr (.ret (head 17) (some (number 18 "5")))] none⟩

/-- Both of them and `fn h() -> bool { true }`, where `T` is bound to the first statement of `f` and
the place `y[0]` to the function `g`. -/
def replacing : CompilationUnit :=
  { unit [⟨head 1, .function replacer⟩, ⟨head 14, .function replaced⟩,
      function 19 20 "h" (some (.path (head 21) "bool")) [] (some (truth 22))]
      [(11, 6), (10, 14), (13, 19)] [(4, 3), (6, 5)] with
    types := [⟨⟨8⟩, ⟨3⟩⟩] }

/-- `fn f() { y; let x = 1; x[0]; z; }`, where `y` and `z` mean nothing. -/
def indexing : CompilationUnit :=
  unit [function 1 2 "f" none
    [.expr (name 3 "y"), bind 4 5 "x" (some (number 6 "1")),
      .expr (.index (head 7) (name 8 "x") (number 9 "0")), .expr (name 10 "z")] none]
    [(8, 5)] [(5, 4)]

/-- `-170_141_183460469231731687303715884105728`, of type `i128` -/
def leastLiteral : Literal := ⟨"-170_141_183460469231731687303715884105728", .int, .i128⟩

/-- `340282366920938463463374607431768211455`, of type `u128` -/
def greatestLiteral : Literal := ⟨"340282366920938463463374607431768211455", .int, .u128⟩

/-- `fn f() { let x = -170_141_183460469231731687303715884105728;
let y = 340282366920938463463374607431768211455; }` -/
def extreme : CompilationUnit :=
  unit [function 1 2 "f" none
    [bind 3 4 "x" (some (.literal (head 5) leastLiteral)),
      bind 6 7 "y" (some (.literal (head 8) greatestLiteral))] none] [] [(4, 3), (7, 6)]

/-- `a: 1, a: 2` -/
def repeatedFields : List FieldInit :=
  [.mk (head 11) "a" (number 12 "1"), .mk (head 13) "a" (number 14 "2")]

/-- `P { a: 1, a: 2 }` -/
def repeatedField : Expr := .struct (head 9) ⟨identity 10, "P"⟩ repeatedFields

/-- `struct P { a: i32 }  fn f() { P { a: 1, a: 2 }; }` -/
def repeating : CompilationUnit :=
  { unit [
      ⟨head 1, .struct ⟨"P", [⟨head 2, "a", .path (head 3) "i32"⟩]⟩⟩,
      function 4 5 "f" none [.expr repeatedField] none] [] [] with
    types := [⟨⟨10⟩, ⟨1⟩⟩] }

/-- `{ let a = [f(); 2]; }` -/
def copyingBody : Expr :=
  .block (head 6) [bind 7 8 "a" (some (.copies (head 9) (call 10 11 "f") 2))] none

/-- `fn f() -> i32 { 1 }  fn g() { let a = [f(); 2]; }` -/
def copying : CompilationUnit :=
  unit [
    function 1 2 "f" (some (.path (head 3) "i32")) [] (some (number 4 "1")),
    ⟨head 5, .function ⟨"g", [], none, copyingBody⟩⟩] [(11, 1)] [(8, 7)]

/-- `fn f() { }`, where the function has the greatest number that leaves room behind it. -/
def topmost : CompilationUnit := unit [function 4294967280 1 "f" none [] none] [] []

end MiddleEnd.Samples
