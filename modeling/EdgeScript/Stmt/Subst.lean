import EdgeScript.Stmt
import EdgeScript.Expr.Subst

/-!
# Substituting a loop's variable

`Stmt.subst` replaces the reads of a loop's variable in the loop's body.  The body of an inner loop
over the same name means that loop's variable, and functions do not see loop variables at all.
-/

set_option autoImplicit false

namespace EdgeScript.Stmt

/-- The binding of one name. -/
def binding (var : String) (value : Expr) : String → Option Expr :=
  fun name => if name = var then some value else none

mutual

/-- The statement with the reads of `var` replaced by `value`. -/
def subst (var : String) (value : Expr) : Stmt → Stmt
  | .atom a => .atom (a.mapExprs (Expr.subst (binding var value)))
  | .function name params isInline body span => .function name params isInline body span
  | .ifChain branches (some body) span =>
    .ifChain (substBranches var value branches) (some (substAll var value body)) span
  | .ifChain branches none span => .ifChain (substBranches var value branches) none span
  | .forLoop inner collection body span =>
    .forLoop inner (collection.subst (binding var value))
      (if loopVariable inner = var then body else substAll var value body) span
  | .breakLoop span => .breakLoop span
  | .attempt body (some handler) span =>
    .attempt (substAll var value body) (some (substAll var value handler)) span
  | .attempt body none span => .attempt (substAll var value body) none span
  | .require path force span => .require path force span
  | .block body span => .block (substAll var value body) span

/-- `subst` on each statement of a sequence. -/
def substAll (var : String) (value : Expr) : List Stmt → List Stmt
  | [] => []
  | s :: rest => subst var value s :: substAll var value rest

/-- `subst` on the condition and the body of each branch. -/
def substBranches (var : String) (value : Expr) : List (Branch Stmt) → List (Branch Stmt)
  | [] => []
  | ⟨cond, body, span⟩ :: rest =>
    ⟨cond.subst (binding var value), substAll var value body, span⟩ ::
      substBranches var value rest

end

end EdgeScript.Stmt
