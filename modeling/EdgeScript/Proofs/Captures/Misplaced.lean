import EdgeScript.Markup.Capture
import EdgeScript.Proofs.Positions.Located

/-!
# How the search for captures fails

The search for captures that are read where they may not be has one way to fail: something is
misplaced, at a place of the script (`CaptureScope.misplaces_checkStmts`).
-/

set_option autoImplicit false

namespace EdgeScript
namespace CaptureScope

/-- A search ends without an error, or with something that is misplaced where `P` says. -/
def Misplaces (P : Span → Prop) : Except Error Unit → Prop
  | .ok _ => True
  | .error e => ∃ what span, e = .misplaced what span ∧ P span

variable {P : Span → Prop}

/-- Of two checks in a row the first that fails is reported. -/
theorem Misplaces.seq {r : Except Error Unit} {f : Unit → Except Error Unit} (h : Misplaces P r)
    (hf : Misplaces P (f ())) : Misplaces P (r >>= f) := by
  cases r with
  | error e => exact h
  | ok a => exact hf

/-- A name that is not in sight is reported where it is used. -/
theorem misplaces_checkVisible (scope : CaptureScope) (name : String) {span : Span} (h : P span) :
    Misplaces P (scope.checkVisible name span) := by
  unfold checkVisible
  split
  · trivial
  · exact ⟨_, _, rfl, h⟩

mutual

/-- What is wrong with an expression is reported at a place in it. -/
theorem misplaces_checkExpr (scope : CaptureScope) :
    ∀ {e : Expr}, e.Located P → Misplaces P (scope.checkExpr e)
  | .lit .., _ => trivial
  | .ident id, h => by
    have hid := Expr.located_ident.1 h
    rw [checkExpr]
    split
    · exact (misplaces_checkVisible scope _ hid).seq ⟨_, _, rfl, hid⟩
    · trivial
  | .index (.ident id) key span, h => by
    obtain ⟨hspan, -, hkey⟩ := Expr.located_index.1 h
    rw [checkExpr]
    split
    · refine (misplaces_checkVisible scope _ hspan).seq ?_
      split
      · trivial
      · exact ⟨_, _, rfl, hkey.span⟩
    · exact misplaces_checkExpr scope hkey
  | .index (.lit ..) _ _, h | .index (.index ..) _ _, h | .index (.binary ..) _ _, h
  | .index (.unary ..) _ _, h | .index (.test ..) _ _, h | .index (.call ..) _ _, h
  | .index (.range ..) _ _, h | .index (.array ..) _ _, h | .index (.dict ..) _ _, h => by
    obtain ⟨-, htarget, hkey⟩ := Expr.located_index.1 h
    exact (misplaces_checkExpr scope htarget).seq (misplaces_checkExpr scope hkey)
  | .binary .., h => by
    obtain ⟨-, hleft, hright⟩ := Expr.located_binary.1 h
    exact (misplaces_checkExpr scope hleft).seq (misplaces_checkExpr scope hright)
  | .unary .., h => by
    rw [checkExpr]
    exact misplaces_checkExpr scope (Expr.located_unary.1 h).2
  | .test .., h => by
    obtain ⟨-, -, hsubject, hpattern⟩ := Expr.located_test.1 h
    exact (misplaces_checkExpr scope hsubject).seq (misplaces_checkExpr scope hpattern)
  | .call _ args _, h => misplaces_checkExprs scope args (Expr.located_call.1 h).2.2
  | .range .., h => by
    obtain ⟨-, hfirst, hlast⟩ := Expr.located_range.1 h
    exact (misplaces_checkExpr scope hfirst).seq (misplaces_checkExpr scope hlast)
  | .array elements _, h => misplaces_checkExprs scope elements (Expr.located_array.1 h).2
  | .dict entries _, h => misplaces_checkEntries scope entries (Expr.located_dict.1 h).2

theorem misplaces_checkExprs (scope : CaptureScope) :
    ∀ (es : List Expr), (∀ e ∈ es, e.Located P) → Misplaces P (scope.checkExprs es)
  | [], _ => trivial
  | _ :: es, h => by
    rw [List.forall_mem_cons] at h
    exact (misplaces_checkExpr scope h.1).seq (misplaces_checkExprs scope es h.2)

theorem misplaces_checkEntries (scope : CaptureScope) :
    ∀ (entries : List (Expr × Expr)), (∀ entry ∈ entries, entry.1.Located P ∧ entry.2.Located P) →
      Misplaces P (scope.checkEntries entries)
  | [], _ => trivial
  | (_, _) :: entries, h => by
    rw [List.forall_mem_cons] at h
    exact (misplaces_checkExpr scope h.1.1).seq (
      (misplaces_checkExpr scope h.1.2).seq (misplaces_checkEntries scope entries h.2))

end

open Stmt

mutual

/-- What is wrong with a statement is reported at a place in it. -/
theorem misplaces_checkStmt (scope : CaptureScope) :
    ∀ {s : Stmt}, s.Located P → Misplaces P (scope.checkStmt s)
  | .atom a, h => misplaces_checkExprs scope a.exprs (Atom.located_iff.1 (located_atom.1 h)).2
  | .ifChain _ (some _) _, h => by
    obtain ⟨-, hbranches, hbody⟩ := located_ifChain.1 h
    exact (misplaces_checkBranches scope hbranches).seq (misplaces_checkStmts scope hbody)
  | .ifChain _ none _, h => misplaces_checkBranches scope (located_ifChain.1 h).2.1
  | .forLoop .., h => by
    obtain ⟨-, -, hcollection, hbody⟩ := located_forLoop.1 h
    exact (misplaces_checkExpr scope hcollection).seq (misplaces_checkStmts scope hbody)
  | .attempt _ (some _) _, h => by
    obtain ⟨-, hbody, hhandler⟩ := located_attempt.1 h
    exact (misplaces_checkStmts scope hbody).seq (misplaces_checkStmts scope hhandler)
  | .attempt _ none _, h => misplaces_checkStmts scope (located_attempt.1 h).2.1
  | .block .., h => misplaces_checkStmts scope (located_block.1 h).2
  | .function .., _ => trivial
  | .breakLoop _, _ => trivial
  | .require .., _ => trivial

theorem misplaces_checkStmts (scope : CaptureScope) :
    ∀ {stmts : List Stmt}, LocatedAll P stmts → Misplaces P (scope.checkStmts stmts)
  | [], _ => trivial
  | _ :: _, h => by
    rw [locatedAll_cons] at h
    exact (misplaces_checkStmt scope h.1).seq (misplaces_checkStmts scope h.2)

theorem misplaces_checkBranches (scope : CaptureScope) :
    ∀ {branches : List (Branch Stmt)}, LocatedBranches P branches →
      Misplaces P (scope.checkBranches branches)
  | [], _ => trivial
  | ⟨_, _, _⟩ :: _, h => by
    obtain ⟨-, hcond, hbody, hrest⟩ := locatedBranches_cons.1 h
    exact (misplaces_checkExpr scope hcond).seq (
      (misplaces_checkStmts _ hbody).seq (misplaces_checkBranches scope hrest))

end

end CaptureScope
end EdgeScript
