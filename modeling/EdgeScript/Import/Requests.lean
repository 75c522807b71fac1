import EdgeScript.Grammar.Stmt

/-!
# The requests of a script

`Stmt.requests` lists what a script requires, in the order of its text and wherever in it the
`require` stands.
-/

set_option autoImplicit false

namespace EdgeScript

namespace Stmt

mutual

/-- What a statement requires. -/
def requests : Stmt → List String
  | .require path _ _ => [path]
  | .function _ _ _ body _ => requestsAll body
  | .ifChain branches (some body) _ => requestsBranches branches ++ requestsAll body
  | .ifChain branches none _ => requestsBranches branches
  | .forLoop _ _ body _ => requestsAll body
  | .attempt body (some handler) _ => requestsAll body ++ requestsAll handler
  | .attempt body none _ => requestsAll body
  | .block body _ => requestsAll body
  | .atom _ | .breakLoop _ => []

/-- What statements require. -/
def requestsAll : List Stmt → List String
  | [] => []
  | s :: rest => requests s ++ requestsAll rest

/-- What the bodies of branches require. -/
def requestsBranches : List (Branch Stmt) → List String
  | [] => []
  | ⟨_, body, _⟩ :: rest => requestsAll body ++ requestsBranches rest

end

end Stmt

/-- What the script of a text requires; a text that is no script requires nothing. -/
def Program.requestsOf (text : String) : List String :=
  match Program.parse text 0 with
  | .ok program => Stmt.requestsAll program.body
  | .error _ => []

end EdgeScript
