import EdgeScript.Stmt
import EdgeScript.Error

/-!
# Leaving a loop

One round of a loop ends at its first `break`.  `Stmt.cutAtBreak` cuts a round there, blocks
included.  A `break` under a condition that is still open, or in an attempt, has no place to be cut
at and is an error.
-/

set_option autoImplicit false

namespace EdgeScript.Stmt

mutual

/-- Whether a statement has a `break` of the loop around it. -/
def hasBreak : Stmt → Bool
  | .breakLoop _ => true
  | .ifChain branches (some body) _ => hasBreakBranches branches || hasBreakAny body
  | .ifChain branches none _ => hasBreakBranches branches
  | .attempt body (some handler) _ => hasBreakAny body || hasBreakAny handler
  | .attempt body none _ => hasBreakAny body
  | .block body _ => hasBreakAny body
  | .atom _ | .function .. | .forLoop .. | .require .. => false

/-- Whether one of the statements has a `break` of the loop around them. -/
def hasBreakAny : List Stmt → Bool
  | [] => false
  | s :: rest => hasBreak s || hasBreakAny rest

/-- Whether the body of one of the branches has a `break` of the loop around the chain. -/
def hasBreakBranches : List (Branch Stmt) → Bool
  | [] => false
  | ⟨_, body, _⟩ :: rest => hasBreakAny body || hasBreakBranches rest

end

mutual

/-- What is left of a statement of a round, and whether the round ends in it. -/
def cut : Stmt → Except Error (List Stmt × Bool)
  | .breakLoop _ => .ok ([], true)
  | .block body span =>
    match cutAtBreak body with
    | .ok (body, broke) => .ok ([.block body span], broke)
    | .error e => .error e
  | .ifChain branches otherwise span =>
    if hasBreak (.ifChain branches otherwise span) then
      .error (.unsupported .undecidedBreak span)
    else .ok ([.ifChain branches otherwise span], false)
  | .attempt body handler span =>
    if hasBreak (.attempt body handler span) then .error (.unsupported .breakInTry span)
    else .ok ([.attempt body handler span], false)
  | .atom a => .ok ([.atom a], false)
  | .function name params isInline body span =>
    .ok ([.function name params isInline body span], false)
  | .forLoop var collection body span => .ok ([.forLoop var collection body span], false)
  | .require path force span => .ok ([.require path force span], false)

/-- The statements of a round up to its first `break`, and whether there is one. -/
def cutAtBreak : List Stmt → Except Error (List Stmt × Bool)
  | [] => .ok ([], false)
  | s :: rest =>
    match cut s with
    | .error e => .error e
    | .ok (kept, true) => .ok (kept, true)
    | .ok (kept, false) =>
      match cutAtBreak rest with
      | .ok (more, broke) => .ok (kept ++ more, broke)
      | .error e => .error e

end

end EdgeScript.Stmt
