import EdgeScript.Literal
import EdgeScript.Source

/-!
# Expressions

The expression trees of a script, with the place of every node.

* `Expr.bottomUp` rebuilds a tree from its leaves, applying a function to every node; folding and
  substitution are both of this form.
* `Expr.bottomUpM` does the same with effects, in the order of the text.
* `Expr.subterms` lists a tree's nodes in the order in which they are written, each before its
  parts.
-/

set_option autoImplicit false

namespace EdgeScript

/-- A name and its place. -/
structure Ident where
  name : String
  span : Span
deriving DecidableEq, Repr, Inhabited

/-- Binary operators other than matches. -/
inductive BinOp where
  | add | sub | mul | div | mod
  | eq | ne | lt | le | gt | ge
  | and | or
  | bitAnd | bitOr | bitXor | shl | shr
deriving DecidableEq, Repr

/-- The symbol of an operator, in scripts and in markup alike. -/
def BinOp.symbol : BinOp → String
  | .add => "+"
  | .sub => "-"
  | .mul => "*"
  | .div => "/"
  | .mod => "%"
  | .eq => "=="
  | .ne => "!="
  | .lt => "<"
  | .le => "<="
  | .gt => ">"
  | .ge => ">="
  | .and => "&&"
  | .or => "||"
  | .bitAnd => "&"
  | .bitOr => "|"
  | .bitXor => "^"
  | .shl => "<<"
  | .shr => ">>"

inductive UnOp where
  | neg | not | bitNot
deriving DecidableEq, Repr

def UnOp.symbol : UnOp → String
  | .neg => "-"
  | .not => "!"
  | .bitNot => "~"

/-- How a text is tested: by a regular expression (`pattern`) or for a part (`part`), with or
without regard to case. -/
inductive MatchOp where
  | pattern | patternIgnoringCase | part | partIgnoringCase
deriving DecidableEq, Repr

namespace MatchOp

/-- The keyword of a test, in scripts and in markup alike. -/
def keyword : MatchOp → String
  | .pattern => "matches"
  | .patternIgnoringCase => "matches_i"
  | .part => "has"
  | .partIgnoringCase => "has_i"

/-- Whether the test can bind the groups it captures. -/
def canCapture : MatchOp → Bool
  | .pattern | .patternIgnoringCase => true
  | .part | .partIgnoringCase => false

end MatchOp

/-- An expression; `capture` names the groups of a successful match. -/
inductive Expr where
  | lit (value : Literal) (span : Span)
  | ident (id : Ident)
  | binary (op : BinOp) (left right : Expr) (span : Span)
  | unary (op : UnOp) (operand : Expr) (span : Span)
  | test (op : MatchOp) (subject pattern : Expr) (capture : Option Ident) (span : Span)
  | call (callee : Ident) (args : List Expr) (span : Span)
  | index (target key : Expr) (span : Span)
  /-- All integers between two bounds, the bounds included. -/
  | range (first last : Expr) (span : Span)
  | array (elements : List Expr) (span : Span)
  | dict (entries : List (Expr × Expr)) (span : Span)
deriving Repr, Inhabited

namespace Expr

def span : Expr → Span
  | .lit _ span => span
  | .ident id => id.span
  | .binary _ _ _ span => span
  | .unary _ _ span => span
  | .test _ _ _ _ span => span
  | .call _ _ span => span
  | .index _ _ span => span
  | .range _ _ span => span
  | .array _ span => span
  | .dict _ span => span

/-- The value of a literal. -/
def literal? : Expr → Option Literal
  | .lit value _ => some value
  | _ => none

/-- Whether the expression is an operator applied to operands. -/
def isOperator : Expr → Bool
  | .binary .. | .unary .. | .test .. => true
  | _ => false

/-! ## Walking through a tree -/

mutual

/-- The tree with `f` applied to every node, parts before wholes. -/
def bottomUp (f : Expr → Expr) : Expr → Expr
  | .lit value span => f (.lit value span)
  | .ident id => f (.ident id)
  | .binary op left right span => f (.binary op (bottomUp f left) (bottomUp f right) span)
  | .unary op operand span => f (.unary op (bottomUp f operand) span)
  | .test op subject pattern capture span =>
    f (.test op (bottomUp f subject) (bottomUp f pattern) capture span)
  | .call callee args span => f (.call callee (bottomUpAll f args) span)
  | .index target key span => f (.index (bottomUp f target) (bottomUp f key) span)
  | .range first last span => f (.range (bottomUp f first) (bottomUp f last) span)
  | .array elements span => f (.array (bottomUpAll f elements) span)
  | .dict entries span => f (.dict (bottomUpEntries f entries) span)

/-- `bottomUp` on each expression of a list. -/
def bottomUpAll (f : Expr → Expr) : List Expr → List Expr
  | [] => []
  | e :: es => bottomUp f e :: bottomUpAll f es

/-- `bottomUp` on each key and value. -/
def bottomUpEntries (f : Expr → Expr) : List (Expr × Expr) → List (Expr × Expr)
  | [] => []
  | (key, value) :: entries => (bottomUp f key, bottomUp f value) :: bottomUpEntries f entries

end

mutual

/-- The tree with `f` applied to every node, parts before wholes and left before right. -/
def bottomUpM {m : Type → Type} [Monad m] (f : Expr → m Expr) : Expr → m Expr
  | .lit value span => f (.lit value span)
  | .ident id => f (.ident id)
  | .binary op left right span => do
    let left ← bottomUpM f left
    let right ← bottomUpM f right
    f (.binary op left right span)
  | .unary op operand span => do
    let operand ← bottomUpM f operand
    f (.unary op operand span)
  | .test op subject pattern capture span => do
    let subject ← bottomUpM f subject
    let pattern ← bottomUpM f pattern
    f (.test op subject pattern capture span)
  | .call callee args span => do
    let args ← bottomUpAllM f args
    f (.call callee args span)
  | .index target key span => do
    let target ← bottomUpM f target
    let key ← bottomUpM f key
    f (.index target key span)
  | .range first last span => do
    let first ← bottomUpM f first
    let last ← bottomUpM f last
    f (.range first last span)
  | .array elements span => do
    let elements ← bottomUpAllM f elements
    f (.array elements span)
  | .dict entries span => do
    let entries ← bottomUpEntriesM f entries
    f (.dict entries span)

/-- `bottomUpM` on each expression of a list. -/
def bottomUpAllM {m : Type → Type} [Monad m] (f : Expr → m Expr) : List Expr → m (List Expr)
  | [] => pure []
  | e :: es => do
    let e ← bottomUpM f e
    let es ← bottomUpAllM f es
    pure (e :: es)

/-- `bottomUpM` on each key and value. -/
def bottomUpEntriesM {m : Type → Type} [Monad m] (f : Expr → m Expr) :
    List (Expr × Expr) → m (List (Expr × Expr))
  | [] => pure []
  | (key, value) :: entries => do
    let key ← bottomUpM f key
    let value ← bottomUpM f value
    let entries ← bottomUpEntriesM f entries
    pure ((key, value) :: entries)

end

mutual

/-- All nodes of a tree in the order of the text, each before its parts. -/
def subterms : Expr → List Expr
  | .lit value span => [.lit value span]
  | .ident id => [.ident id]
  | .binary op left right span => .binary op left right span :: (subterms left ++ subterms right)
  | .unary op operand span => .unary op operand span :: subterms operand
  | .test op subject pattern capture span =>
    .test op subject pattern capture span :: (subterms subject ++ subterms pattern)
  | .call callee args span => .call callee args span :: subtermsAll args
  | .index target key span => .index target key span :: (subterms target ++ subterms key)
  | .range first last span => .range first last span :: (subterms first ++ subterms last)
  | .array elements span => .array elements span :: subtermsAll elements
  | .dict entries span => .dict entries span :: subtermsEntries entries

/-- The nodes of each expression of a list. -/
def subtermsAll : List Expr → List Expr
  | [] => []
  | e :: es => subterms e ++ subtermsAll es

/-- The nodes of each key and value. -/
def subtermsEntries : List (Expr × Expr) → List Expr
  | [] => []
  | (key, value) :: entries => subterms key ++ subterms value ++ subtermsEntries entries

end

end Expr

end EdgeScript
