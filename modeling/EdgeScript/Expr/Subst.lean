import EdgeScript.Expr

/-!
# Substituting names

`Expr.subst` replaces names by expressions, all at once: what is put in is not searched again.  The
name of a called function and the name of a capture are no uses of a variable.
-/

set_option autoImplicit false

namespace EdgeScript.Expr

/-- A name replaced by what it is bound to. -/
def substNode (bound : String → Option Expr) : Expr → Expr
  | .ident id => (bound id.name).getD (.ident id)
  | e => e

/-- The expression with every bound name replaced. -/
def subst (bound : String → Option Expr) (e : Expr) : Expr :=
  bottomUp (substNode bound) e

end EdgeScript.Expr
