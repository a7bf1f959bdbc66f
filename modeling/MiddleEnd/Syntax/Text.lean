/-
  How messages show expressions and type annotations: close to the source text, on one line, with
  the bodies of blocks and struct literals left out.
-/
import MiddleEnd.Syntax.Basic

namespace MiddleEnd

/-- The annotation as messages show it. -/
def TypeExpr.text : TypeExpr → String
  | .path _ name => name
  | .array _ element capacity => s!"[{element.text}; {capacity.toNat}]"
  | .unit _ => "()"

mutual

/-- The expression as messages show it. -/
def Expr.text : Expr → String
  | .literal _ lit => lit.spelling
  | .identifier _ name => name
  | .ret _ none => "return"
  | .ret _ (some value) => s!"return {value.text}"
  | .call _ callee args => s!"{callee.text}({Expr.texts args})"
  | .assign _ target value => s!"{target.text} = {value.text}"
  | .binary _ op lhs rhs => s!"{lhs.text} {op.symbol} {rhs.text}"
  | .ifOnly _ condition _ => s!"if {condition.text} \x7b .. \x7d"
  | .ifElse _ condition _ _ => s!"if {condition.text} \x7b .. \x7d else \x7b .. \x7d"
  | .ifElseIf _ condition _ elseIf => s!"if {condition.text} \x7b .. \x7d else {elseIf.text}"
  | .block .. => "\x7b .. \x7d"
  | .index _ base position => s!"{base.text}[{position.text}]"
  | .array _ values => s!"[{Expr.texts values}]"
  | .copies _ element count => s!"[{element.text}; {count.toNat}]"
  | .struct _ path _ => s!"{path.name} \x7b .. \x7d"

/-- Expressions with a comma and a blank between them. -/
def Expr.texts : List Expr → String
  | [] => ""
  | [e] => e.text
  | e :: f :: rest => s!"{e.text}, {Expr.texts (f :: rest)}"

end

end MiddleEnd
