import EdgeScript.Expr
import EdgeScript.Error
import EdgeScript.Markup.Escape

/-!
# Writing expressions

An expression is written in one of two styles: in the expression language of the markup, where
strings are quoted and operands that are operators themselves stand in parentheses, or as text with
variables, where strings stand as they are and `+` is juxtaposition.  Arguments, indices and
elements are always in the expression language.
-/

set_option autoImplicit false

namespace EdgeScript

/-- How an expression is written. -/
inductive Style where
  /-- In the expression language. -/
  | expression
  /-- As text with variables in it. -/
  | text
deriving DecidableEq, Repr

/-- What the writing of an expression depends on. -/
structure RenderContext where
  /-- The functions that the script declares; the markup cannot call them. -/
  functions : List String
  /-- How long a list may be that a range is written as. -/
  maxListLength : Nat
deriving Repr

/-- The decimal digits of an integer, with a sign if it is negative. -/
def integerText (n : Int64) : String := toString n.toInt

/-- A literal in either style. -/
def Literal.render (style : Style) : Literal → String
  | .bool true => "1"
  | .bool false => "0"
  | .int n => integerText n
  | .str s =>
    match style with
    | .expression => String.ofList (Markup.quoteString s.toList)
    | .text => String.ofList (Markup.escapeText s.toList)

/-! ## Ranges -/

/-- The 64-bit integer nearest to a number. -/
def saturate (n : Int) : Int :=
  if n < leastInt then leastInt else if greatestInt < n then greatestInt else n

/-- How many integers a range has, as far as that can be counted in a 64-bit integer. -/
def rangeLength (first last : Int64) : Nat :=
  (saturate (saturate (last.toInt - first.toInt) + 1)).toNat

/-- The integers of a range. -/
def rangeElements (first last : Int64) : List Int :=
  (List.range (last.toInt - first.toInt + 1).toNat).map fun (i : Nat) => first.toInt + i

/-- A range outside of a loop is written as the list of its integers. -/
def renderRange (ctx : RenderContext) (first last : Expr) (span : Span) : Except Error String :=
  match first.literal?, last.literal? with
  | some (.int a), some (.int b) =>
    if ctx.maxListLength < rangeLength a b then
      .error (.limitExceeded (.rangeLength a b ctx.maxListLength) span)
    else .ok ("[" ++ Text.joinWith "," ((rangeElements a b).map toString) ++ "]")
  | _, _ => .error (.unsupported .rangeBounds span)

/-! ## Expressions -/

/-- The text in parentheses. -/
def parenthesized (text : String) : String := "(" ++ text ++ ")"

/-- Whether an expression is a negative integer. -/
def Expr.isNegative : Expr → Bool
  | .lit (.int n) _ => n.toInt < 0
  | _ => false

/-- The text of an operand beside an operator, given the text of the expression alone. -/
def operandText (style : Style) (e : Expr) (text : String) : String :=
  if (e.isOperator && style == .expression) || e.isNegative then parenthesized text else text

/-- The text of an operand behind a prefix operator. -/
def prefixedText (style : Style) (e : Expr) (text : String) : String :=
  if e.isOperator then parenthesized text else operandText style e text

namespace Expr

mutual

/-- The text of an expression. -/
def render (ctx : RenderContext) (style : Style) : Expr → Except Error String
  | .lit value _ => .ok (value.render style)
  | .ident id => .ok ("$(" ++ id.name ++ ")")
  | .index (.ident id) key _ => do
    let key ← render ctx .expression key
    return "$(" ++ id.name ++ "\x7b" ++ key ++ "\x7d)"
  | .index _ _ span => .error (.unsupported .indexTarget span)
  | .binary op left right _ => do
    let l ← render ctx style left
    let r ← render ctx style right
    if op = .add && style == .text then return l ++ r
    else return operandText style left l ++ op.symbol ++ operandText style right r
  | .unary op operand _ => do
    let text ← render ctx style operand
    return op.symbol ++ prefixedText style operand text
  | .test op subject pattern _ _ => do
    let s ← render ctx style subject
    let p ← render ctx style pattern
    return operandText style subject s ++ " " ++ op.keyword ++ " " ++ operandText style pattern p
  | .call callee args span => do
    if callee.name ∈ ctx.functions then throw (.unsupported (.userCall callee.name) span)
    let args ← renderAll ctx args
    return "$" ++ callee.name ++ "(" ++ Text.joinWith "," args ++ ")"
  | .range first last span => renderRange ctx first last span
  | .array elements _ => do
    let elements ← renderAll ctx elements
    return "[" ++ Text.joinWith "," elements ++ "]"
  | .dict entries _ => do
    let entries ← renderEntries ctx entries
    return "\x7b" ++ Text.joinWith "," entries ++ "\x7d"

/-- The texts of expressions in the expression language. -/
def renderAll (ctx : RenderContext) : List Expr → Except Error (List String)
  | [] => return []
  | e :: es => do
    let text ← render ctx .expression e
    let rest ← renderAll ctx es
    return text :: rest

/-- The texts of the entries of a dictionary. -/
def renderEntries (ctx : RenderContext) : List (Expr × Expr) → Except Error (List String)
  | [] => return []
  | (key, value) :: entries => do
    let k ← render ctx .expression key
    let v ← render ctx .expression value
    let rest ← renderEntries ctx entries
    return (k ++ ":" ++ v) :: rest

end

end Expr

end EdgeScript
