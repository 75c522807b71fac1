import EdgeScript.Stmt
import EdgeScript.Error

/-!
# The scope of captures

A condition may bind the groups that its match captures.  The name is seen in the body of that one
branch, and there it can only be read by a literal index, as in `m[1]`.  `Stmt.checkCaptures`
refuses every other use.
-/

set_option autoImplicit false

namespace EdgeScript

namespace Expr

/-- The name that a condition binds: that of its first capture. -/
def captureName? : Expr → Option String
  | .test _ subject pattern capture _ =>
    match capture with
    | some name => some name.name
    | none =>
      match captureName? subject with
      | some name => some name
      | none => captureName? pattern
  | .binary _ left right _ =>
    match captureName? left with
    | some name => some name
    | none => captureName? right
  | .unary _ operand _ => captureName? operand
  | _ => none

end Expr

/-- The captures of a script and those that can be read at a place. -/
structure CaptureScope where
  /-- Every name that a condition of the script binds. -/
  captured : List String
  /-- The names bound by the branches around. -/
  visible : List String
deriving Repr

namespace CaptureScope

/-- The scope in the body of a branch with the given condition. -/
def inside (scope : CaptureScope) (cond : Expr) : CaptureScope :=
  match cond.captureName? with
  | some name => { scope with visible := scope.visible ++ [name] }
  | none => scope

/-- Fails if a capture is not visible. -/
def checkVisible (scope : CaptureScope) (name : String) (span : Span) : Except Error Unit :=
  if name ∈ scope.visible then .ok () else .error (.misplaced (.captureOutOfScope name) span)

/-- Whether an expression is a literal index of a capture. -/
def isIndex : Expr → Bool
  | .lit (.int n) _ => 0 ≤ n.toInt
  | _ => false

mutual

/-- Fails if an expression reads a capture in another way than by a literal index, or where it is
not visible. -/
def checkExpr (scope : CaptureScope) : Expr → Except Error Unit
  | .lit _ _ => .ok ()
  | .ident id =>
    if id.name ∈ scope.captured then do
      scope.checkVisible id.name id.span
      throw (.misplaced (.captureWithoutIndex id.name) id.span)
    else .ok ()
  | .index (.ident id) key span =>
    if id.name ∈ scope.captured then do
      scope.checkVisible id.name span
      if isIndex key then return ()
      else throw (.misplaced (.captureIndex id.name) key.span)
    else checkExpr scope key
  | .index target key _ => do
    checkExpr scope target
    checkExpr scope key
  | .binary _ left right _ => do
    checkExpr scope left
    checkExpr scope right
  | .unary _ operand _ => checkExpr scope operand
  | .test _ subject pattern _ _ => do
    checkExpr scope subject
    checkExpr scope pattern
  | .call _ args _ => checkExprs scope args
  | .range first last _ => do
    checkExpr scope first
    checkExpr scope last
  | .array elements _ => checkExprs scope elements
  | .dict entries _ => checkEntries scope entries

/-- `checkExpr` on each expression of a list. -/
def checkExprs (scope : CaptureScope) : List Expr → Except Error Unit
  | [] => .ok ()
  | e :: es => do
    checkExpr scope e
    checkExprs scope es

/-- `checkExpr` on each key and value. -/
def checkEntries (scope : CaptureScope) : List (Expr × Expr) → Except Error Unit
  | [] => .ok ()
  | (key, value) :: entries => do
    checkExpr scope key
    checkExpr scope value
    checkEntries scope entries

end

mutual

/-- Fails if a statement misuses a capture; the bodies of functions do not count. -/
def checkStmt (scope : CaptureScope) : Stmt → Except Error Unit
  | .atom a => checkExprs scope a.exprs
  | .ifChain branches (some body) _ => do
    checkBranches scope branches
    checkStmts scope body
  | .ifChain branches none _ => checkBranches scope branches
  | .forLoop _ collection body _ => do
    checkExpr scope collection
    checkStmts scope body
  | .attempt body (some handler) _ => do
    checkStmts scope body
    checkStmts scope handler
  | .attempt body none _ => checkStmts scope body
  | .block body _ => checkStmts scope body
  | .function .. | .breakLoop _ | .require .. => .ok ()

/-- `checkStmt` on each statement of a sequence. -/
def checkStmts (scope : CaptureScope) : List Stmt → Except Error Unit
  | [] => .ok ()
  | s :: rest => do
    checkStmt scope s
    checkStmts scope rest

/-- Checks the conditions of branches, and their bodies with what the conditions bind. -/
def checkBranches (scope : CaptureScope) : List (Branch Stmt) → Except Error Unit
  | [] => .ok ()
  | ⟨cond, body, _⟩ :: rest => do
    checkExpr scope cond
    checkStmts (scope.inside cond) body
    checkBranches scope rest

end

end CaptureScope

namespace Stmt

mutual

/-- The names that the conditions in a statement bind; the bodies of functions do not count. -/
def captured : Stmt → List String
  | .ifChain branches (some body) _ => capturedBranches branches ++ capturedAll body
  | .ifChain branches none _ => capturedBranches branches
  | .forLoop _ _ body _ => capturedAll body
  | .attempt body (some handler) _ => capturedAll body ++ capturedAll handler
  | .attempt body none _ => capturedAll body
  | .block body _ => capturedAll body
  | .atom _ | .function .. | .breakLoop _ | .require .. => []

/-- The names that the conditions in a sequence bind. -/
def capturedAll : List Stmt → List String
  | [] => []
  | s :: rest => captured s ++ capturedAll rest

/-- The names that branches, and the conditions in their bodies, bind. -/
def capturedBranches : List (Branch Stmt) → List String
  | [] => []
  | ⟨cond, body, _⟩ :: rest =>
    cond.captureName?.toList ++ capturedAll body ++ capturedBranches rest

end

/-- Fails if a script reads a capture where it is not visible, or in another way than by a literal
index. -/
def checkCaptures (stmts : List Stmt) : Except Error Unit :=
  CaptureScope.checkStmts ⟨capturedAll stmts, []⟩ stmts

end Stmt

end EdgeScript
