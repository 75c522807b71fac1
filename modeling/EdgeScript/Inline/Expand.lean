import EdgeScript.Inline.Cycle
import EdgeScript.Stmt.Fold
import EdgeScript.Expr.Subst

/-!
# Expanding calls of inline functions

An `Inliner` collects the inline functions of a script, makes sure that none calls itself, and then
replaces every call by the function's return expression, with the arguments in place of the
parameters.  Arguments are expanded before the call they belong to, and the calls in the replaced
body after it.

The functions and the counter of an inliner stay when it goes on to another script.
-/

set_option autoImplicit false

namespace EdgeScript

/-- What an inliner knows and has done. -/
structure Inliner where
  /-- Whether expanded expressions are folded. -/
  folding : Bool
  functions : FunctionTable := []
  callsInlined : Nat := 0
  notes : Array Note := #[]
deriving Repr

namespace Inliner

/-- A new inliner. -/
def new (folding : Bool) : Inliner := { folding }

/-- How many inline functions have been met. -/
def functionsInlined (inliner : Inliner) : Nat := inliner.functions.length

/-- Leaves a note. -/
def note (n : Note) : Pass Inliner Unit :=
  modify fun s => { s with notes := s.notes.push n }

/-! ## Collecting -/

/-- Adds one declaration. -/
def collectOne (d : InlineDeclaration) : Pass Inliner Unit := do
  let f ← d.reduce
  let s ← get
  set { s with functions := s.functions.insert d.name f }
  if s.functions.contains d.name then note (.functionRedefined d.name)

/-- Adds declarations in their order. -/
def collect : List InlineDeclaration → Pass Inliner Unit
  | [] => pure ()
  | d :: rest => do
    collectOne d
    collect rest

/-! ## Expanding -/

/-- What the parameters of a function are bound to in a call: the arguments, then the defaults.
The last one counts if a name is repeated, so the bindings are listed backwards. -/
def bind (callee : String) (span : Span) :
    List Param → List Expr → List (String × Expr) → Except Error (List (String × Expr))
  | [], _, bound => .ok bound
  | p :: params, arg :: args, bound => bind callee span params args ((p.name.name, arg) :: bound)
  | p :: params, [], bound =>
    match p.default? with
    | some (value, _) => bind callee span params [] ((p.name.name, .lit value span) :: bound)
    | none => .error (.inline callee (.missingArgument p.name.name) span)

/-- The body of a function with the arguments of a call in place of the parameters. -/
def instantiate (f : InlineFunction) (callee : String) (args : List Expr) (span : Span) :
    Except Error Expr := do
  if f.params.length < args.length then
    throw (.inline callee (.tooManyArguments f.params.length args.length) span)
  let bound ← bind callee span f.params args []
  return f.body.subst fun name => bound.lookup name

/-- One node: a call of an inline function is replaced, with `inner` to expand what replaces it. -/
def expandNode (inner : Expr → Pass Inliner Expr) (e : Expr) : Pass Inliner Expr := do
  match e with
  | .call callee args span =>
    match (← get).functions.get? callee.name with
    | none => return e
    | some f =>
      let body ← instantiate f callee.name args span
      let expanded ← inner body
      modify fun s => { s with callsInlined := s.callsInlined + 1 }
      note (.callInlined callee.name)
      return if (← get).folding then expanded.fold else expanded
  | e => return e

/-- An expression with its calls expanded, to the given depth of calls within calls. -/
def expandAt : Nat → Expr → Pass Inliner Expr
  | 0, e => return e
  | depth + 1, e => e.bottomUpM (expandNode (expandAt depth))

/-- An expression with its calls expanded.  Without recursion, calls nest at most as deep as there
are functions. -/
def expand (e : Expr) : Pass Inliner Expr := do
  expandAt ((← get).functions.length + 1) e

mutual

/-- A statement with its calls expanded; an inline declaration is removed. -/
def expandStmt : Stmt → Pass Inliner (List Stmt)
  | .atom a => do
    let a ← a.mapExprsM expand
    return [.atom a]
  | .function _ _ true _ _ => return []
  | .function name params false body span => do
    let body ← expandStmts body
    return [.function name params false body span]
  | .ifChain branches (some body) span => do
    let branches ← expandBranches branches
    let body ← expandStmts body
    return [.ifChain branches (some body) span]
  | .ifChain branches none span => do
    let branches ← expandBranches branches
    return [.ifChain branches none span]
  | .forLoop var collection body span => do
    let collection ← expand collection
    let body ← expandStmts body
    return [.forLoop var collection body span]
  | .breakLoop span => return [.breakLoop span]
  | .attempt body (some handler) span => do
    let body ← expandStmts body
    let handler ← expandStmts handler
    return [.attempt body (some handler) span]
  | .attempt body none span => do
    let body ← expandStmts body
    return [.attempt body none span]
  | .require path force span => return [.require path force span]
  | .block body span => do
    let body ← expandStmts body
    return [.block body span]

/-- `expandStmt` on each statement of a sequence. -/
def expandStmts : List Stmt → Pass Inliner (List Stmt)
  | [] => return []
  | s :: rest => do
    let first ← expandStmt s
    let rest ← expandStmts rest
    return first ++ rest

/-- The branches of a chain with their calls expanded. -/
def expandBranches : List (Branch Stmt) → Pass Inliner (List (Branch Stmt))
  | [] => return []
  | ⟨cond, body, span⟩ :: rest => do
    let cond ← expand cond
    let body ← expandStmts body
    let rest ← expandBranches rest
    return ⟨cond, body, span⟩ :: rest

end

/-- A script with the calls of inline functions expanded and their declarations removed. -/
def run (stmts : List Stmt) : Pass Inliner (List Stmt) := do
  collect (Stmt.inlineDeclarationsAll stmts)
  (← get).functions.checkCycles
  let stmts ← expandStmts stmts
  return if (← get).folding then Stmt.foldAll stmts else stmts

end Inliner

end EdgeScript
