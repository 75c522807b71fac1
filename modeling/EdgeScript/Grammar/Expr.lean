import EdgeScript.Expr
import EdgeScript.Grammar.Stream

/-!
# The grammar of expressions

`Grammar.expr power` reads an expression whose outermost operators bind at least as tightly as
`power`.  Binary operators group to the left, and a prefix operator binds more tightly than every
binary one.  Calls, indices and members follow a primary expression.
-/

set_option autoImplicit false

namespace EdgeScript.Grammar

open EdgeScript.Parser

/-- Reads a name. -/
def ident : Parser Ident := do
  let t ← current
  match t.kind with
  | .ident name =>
    let _ ← advance
    return ⟨name, t.span⟩
  | other => throw (.expectedIdent other t.span)

/-- The operator that a symbol stands for between two operands. -/
def binOp? : TokenKind → Option BinOp
  | .symbol .plus => some .add
  | .symbol .minus => some .sub
  | .symbol .star => some .mul
  | .symbol .slash => some .div
  | .symbol .percent => some .mod
  | .symbol .eqEq => some .eq
  | .symbol .notEq => some .ne
  | .symbol .less => some .lt
  | .symbol .lessEq => some .le
  | .symbol .greater => some .gt
  | .symbol .greaterEq => some .ge
  | .symbol .andAnd => some .and
  | .symbol .orOr => some .or
  | .symbol .and => some .bitAnd
  | .symbol .or => some .bitOr
  | .symbol .caret => some .bitXor
  | .symbol .shiftLeft => some .shl
  | .symbol .shiftRight => some .shr
  | _ => none

/-- The operator that a symbol stands for in front of an operand. -/
def unOp? : TokenKind → Option UnOp
  | .symbol .not => some .not
  | .symbol .tilde => some .bitNot
  | .symbol .minus => some .neg
  | _ => none

/-- The test that a keyword stands for. -/
def matchOp? : TokenKind → Option MatchOp
  | .keyword .matches_ => some .pattern
  | .keyword .matchesI => some .patternIgnoringCase
  | .keyword .has => some .part
  | .keyword .hasI => some .partIgnoringCase
  | _ => none

/-! ## Primary expressions -/

/-- The strings that follow a string directly are parts of it. -/
def adjacentStrings : String × Span → Parser (String × Span) :=
  loop fun (value, span) => do
    match ← currentKind with
    | .str next =>
      let t ← advance
      return .inl (value ++ next, span.merge t.span)
    | _ => return .inr (value, span)

/-- What follows the bracket at `start`: a range or an array. -/
def arrayOrRange (expr : Parser Expr) (start : Span) : Parser Expr := do
  if ← consumeSymbol .closeBracket then return .array [] (← spanFrom start)
  let first ← expr
  if ← consumeSymbol .dotDot then
    let last ← expr
    let _ ← symbol .closeBracket
    return .range first last (← spanFrom start)
  let elements ← loop (fun (read : List Expr) => do
    if !(← consumeSymbol .comma) then return .inr read
    if ← check (.symbol .closeBracket) then return .inr read
    let e ← expr
    return .inl (read ++ [e])) [first]
  let _ ← symbol .closeBracket
  return .array elements (← spanFrom start)

/-- The key of a dictionary entry; a bare name stands for itself. -/
def dictKey (expr : Parser Expr) : Parser Expr := do
  match ← currentKind with
  | .ident _ =>
    let id ← ident
    return .lit (.str id.name) id.span
  | _ => expr

/-- What follows the brace at `start`: a dictionary. -/
def dict (expr : Parser Expr) (start : Span) : Parser Expr := do
  let entries ← commaList (.symbol .closeBrace) fun _ => do
    let key ← dictKey expr
    let _ ← symbol .colon
    let value ← expr
    return (key, value)
  let _ ← symbol .closeBrace
  return .dict entries (← spanFrom start)

/-- A literal, a name, or an expression in brackets of some kind. -/
def primary (expr : Parser Expr) : Parser Expr := do
  let t ← current
  match t.kind with
  | .int n =>
    let _ ← advance
    return .lit (.int n) t.span
  | .str s =>
    let _ ← advance
    let (value, span) ← adjacentStrings (s, t.span)
    return .lit (.str value) span
  | .keyword .true_ =>
    let _ ← advance
    return .lit (.bool true) t.span
  | .keyword .false_ =>
    let _ ← advance
    return .lit (.bool false) t.span
  | .ident _ => return .ident (← ident)
  | .symbol .openParen =>
    let _ ← advance
    let e ← expr
    let _ ← symbol .closeParen
    return e
  | .symbol .openBracket =>
    let _ ← advance
    arrayOrRange expr t.span
  | .symbol .openBrace =>
    let _ ← advance
    dict expr t.span
  | other => throw (.expectedExpr other t.span)

/-! ## Calls, indices and members -/

/-- The arguments of a call, from behind the opening parenthesis to behind the closing one. -/
def arguments (expr : Parser Expr) : Parser (List Expr) := do
  let args ← commaList (.symbol .closeParen) fun _ => expr
  let _ ← symbol .closeParen
  return args

/-- One call, index or member of `e`, if one follows. -/
def selector (expr : Parser Expr) (e : Expr) : Parser (Expr ⊕ Expr) := do
  let t ← current
  match t.kind with
  | .symbol .openParen =>
    match e with
    | .ident callee =>
      let _ ← advance
      let args ← arguments expr
      return .inl (.call callee args (← spanFrom callee.span))
    | _ => misplaced .callee t.span
  | .symbol .openBracket =>
    let _ ← advance
    let key ← expr
    let _ ← symbol .closeBracket
    return .inl (.index e key (← spanFrom e.span))
  | .symbol .dot =>
    let _ ← advance
    let member ← ident
    return .inl (.index e (.lit (.str member.name) member.span) (e.span.merge member.span))
  | _ => return .inr e

/-- A primary expression with all that is selected from it, after any prefix operators. -/
def unary (expr : Parser Expr) : Parser Expr :=
  fix (fun again (_ : Unit) => do
    match unOp? (← currentKind) with
    | some op =>
      let t ← advance
      let operand ← again ()
      return .unary op operand (t.span.merge operand.span)
    | none =>
      let e ← primary expr
      loop (selector expr) e) ()

/-! ## Binary operators -/

/-- The name that a match binds its groups to, if one follows.  A condition may have one. -/
def capture? (op : MatchOp) : Parser (Option Ident) := do
  if !(← check (.keyword .as_)) then return none
  let t ← advance
  if !op.canCapture then misplaced .captureOperator t.span
  let s ← get
  match s.captures with
  | none => misplaced .captureOutsideCondition t.span
  | some (_ + 1) => misplaced .secondCapture t.span
  | some 0 =>
    set { s with captures := some 1 }
    return some (← ident)

/-- The expression of an operator, from behind its right operand. -/
def combine (operator : Token) (left right : Expr) : Parser Expr := do
  let span := left.span.merge right.span
  match matchOp? operator.kind with
  | some op =>
    match ← capture? op with
    | some name => return .test op left right (some name) (span.merge name.span)
    | none => return .test op left right none span
  | none =>
    match binOp? operator.kind with
    | some op => return .binary op left right span
    | none => throw (.unexpectedToken "binary operator" operator.kind operator.span)

/-- One operator with its right operand, if one follows that binds tightly enough. -/
def operation (expr : Nat → Parser Expr) (power : Nat) (left : Expr) : Parser (Expr ⊕ Expr) := do
  let t ← current
  match t.kind.precedence? with
  | none => return .inr left
  | some tightness =>
    if tightness < power then return .inr left
    let operator ← advance
    let right ← expr (tightness + 1)
    return .inl (← combine operator left right)

/-- Operands and the operators between them. -/
def operations (expr : Nat → Parser Expr) (power : Nat) : Parser Expr := do
  let left ← unary (expr 1)
  loop (operation expr power) left

/-- An expression whose outermost binary operators bind at least as tightly as `power`. -/
def exprAt (power : Nat) : Parser Expr := fix operations power

/-- An expression. -/
def expr : Parser Expr := exprAt 1

end EdgeScript.Grammar
