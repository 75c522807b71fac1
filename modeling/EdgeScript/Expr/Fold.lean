import EdgeScript.Literal.Eval
import EdgeScript.Text.Search
import EdgeScript.Text.Lowercase

/-!
# Folding expressions

`Expr.fold` computes, from the leaves up, every operator whose operands are known.  What a single
node is worth once its parts are folded is `Expr.value?`; a folded node keeps its place.
-/

set_option autoImplicit false

namespace EdgeScript.Expr

/-- What an expression counts as in a condition, where that is known at compile time. -/
def truth? (e : Expr) : Option Bool :=
  e.literal?.bind Literal.truth?

/-- Whether a text is found in another one, for the tests that look for parts. -/
def found? (op : MatchOp) (s part : String) : Option Bool :=
  match op with
  | .part => some (Text.contains s part)
  | .partIgnoringCase => some (Text.contains (Text.lowercase s) (Text.lowercase part))
  | .pattern | .patternIgnoringCase => none

/-- The value of a node, judged by the literals among its parts.  The right operand of `&&` and
`||` counts only if the left one does not decide. -/
def value? : Expr → Option Literal
  | .binary .and left right _ =>
    match truth? left with
    | some true => (truth? right).map .bool
    | some false => some (.bool false)
    | none => none
  | .binary .or left right _ =>
    match truth? left with
    | some true => some (.bool true)
    | some false => (truth? right).map .bool
    | none => none
  | .binary op (.lit l _) (.lit r _) _ => Literal.binary? op l r
  | .unary op (.lit v _) _ => Literal.unary? op v
  | .test op (.lit (.str s) _) (.lit (.str part) _) _ _ => (found? op s part).map .bool
  | _ => none

/-- A node whose parts are folded, replaced by its value if it has one. -/
def foldNode (e : Expr) : Expr :=
  match value? e with
  | some v => .lit v e.span
  | none => e

/-- The expression with every known operator computed. -/
def fold (e : Expr) : Expr := bottomUp foldNode e

end EdgeScript.Expr
