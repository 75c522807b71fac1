import EdgeScript.Inline.Table

/-!
# Recursion among inline functions

An inline function that calls itself, directly or through others, cannot be expanded.
`FunctionTable.checkCycles` looks for such a function depth first, in the order of the names, and
tells the calls that lead from it back to it.
-/

set_option autoImplicit false

namespace EdgeScript

/-- The names of the functions that an expression calls, in the order of the text. -/
def Expr.calls (e : Expr) : List String :=
  e.subterms.filterMap fun
    | .call callee _ _ => some callee.name
    | _ => none

namespace FunctionTable

/-- The inline functions that an inline function calls. -/
def callees (table : FunctionTable) (f : InlineFunction) : List String :=
  f.body.calls.filter table.contains

/-- The error of a function that is called again from within itself; `path` leads to the call. -/
def cycleError (table : FunctionTable) (path : List String) (name : String) : Error :=
  let cycle := path.dropWhile (· != name) ++ [name]
  let span := ((table.get? name).map InlineFunction.span).getD Span.none
  .inline name (.recursive cycle) span

/-- Follows the calls of one function.  `done` are the functions known to be free of recursion and
`path` the calls that led here; the answer is `done` with what has been added to it.  A path has no
name twice, so the number of functions is depth enough. -/
def visit (table : FunctionTable) :
    Nat → List String → List String → String → Except Error (List String)
  | 0, _, done, _ => .ok done
  | depth + 1, path, done, name =>
    if name ∈ done then .ok done
    else if name ∈ path then .error (table.cycleError path name)
    else
      match table.get? name with
      | none => .ok done
      | some f =>
        match (table.callees f).foldlM (visit table depth (path ++ [name])) done with
        | .ok done => .ok (name :: done)
        | .error e => .error e

/-- Fails if an inline function calls itself. -/
def checkCycles (table : FunctionTable) : Except Error Unit :=
  match table.names.foldlM (visit table (table.length + 1) []) [] with
  | .ok _ => .ok ()
  | .error e => .error e

end FunctionTable

end EdgeScript
