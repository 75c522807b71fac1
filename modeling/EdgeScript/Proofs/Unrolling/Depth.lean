import EdgeScript.Proofs.Leftover.Rewriting

/-!
# The depth of loops

The unroller recurses on how deep loops are nested.  The depth that it starts with does not show:
every depth that exceeds that of the loops in a script gives the same, and does the same to the
unroller (`unrollAt_eq_run`).
-/

set_option autoImplicit false

namespace EdgeScript

open Pass

namespace Unroller

variable {inner inner' : Inner} {depth : Nat}

/-- Two unrollers of bodies do the same where loops are nested less deep than `depth`. -/
def Inner.AgreesBelow (depth : Nat) (inner inner' : Inner) : Prop :=
  ∀ known stmts, Stmt.loopDepthAll stmts < depth → inner known stmts = inner' known stmts

/-- A round does not depend on how deep loops are unrolled that it has not. -/
theorem round_congr (h : inner.AgreesBelow depth inner') (known : Known) (var : String)
    (element : Expr) {body : List Stmt} (hdepth : Stmt.loopDepthAll body < depth) :
    round inner known var element body = round inner' known var element body := by
  rw [round, round,
    h known _ (Nat.lt_of_le_of_lt (Stmt.loopDepthAll_copy_le var element body) hdepth)]

theorem copies_congr (h : inner.AgreesBelow depth inner') (known : Known) {task : Task}
    (hdepth : Stmt.loopDepthAll task.body < depth) (rounds i : Nat) :
    copies inner known task rounds i = copies inner' known task rounds i := by
  induction rounds generalizing i with
  | zero =>
    rw [copies, copies]
    simp only [round_congr h known task.var _ hdepth]
  | succ rounds ih =>
    rw [copies, copies]
    simp only [round_congr h known task.var _ hdepth, ih]

theorem unrollLoop_congr (h : inner.AgreesBelow depth inner') (known : Known) (var : Option Ident)
    (collection : Expr) {body : List Stmt} (span : Span) (hdepth : Stmt.loopDepthAll body < depth) :
    unrollLoop inner known var collection body span =
      unrollLoop inner' known var collection body span := by
  have hcopies (task : Task) (htask : task.body = body) (rounds i : Nat) :
      copies inner known task rounds i = copies inner' known task rounds i :=
    copies_congr h known (htask ▸ hdepth) rounds i
  simp only [unrollLoop, hcopies]

mutual

/-- So neither does a statement, if its loops are not deeper. -/
theorem unrollStmt_congr (h : inner.AgreesBelow depth inner') : ∀ (known : Known) (stmt : Stmt),
    Stmt.loopDepth stmt ≤ depth → unrollStmt inner known stmt = unrollStmt inner' known stmt
  | known, .forLoop var collection body span, hdepth => by
    rw [unrollStmt, unrollStmt, unrollLoop_congr h known var collection span hdepth]
  | known, .atom _, _ => by rw [unrollStmt, unrollStmt]
  | known, .block body span, hdepth => by
    rw [unrollStmt, unrollStmt, unrollStmts_congr h known body hdepth]
  | known, .ifChain branches (some body) span, hdepth => by
    rw [Stmt.loopDepth] at hdepth
    obtain ⟨hbranches, hbody⟩ := Nat.max_le.1 hdepth
    rw [unrollStmt, unrollStmt, unrollBranches_congr h known branches hbranches,
      unrollStmts_congr h known body hbody]
  | known, .ifChain branches none span, hdepth => by
    rw [unrollStmt, unrollStmt, unrollBranches_congr h known branches hdepth]
  | known, .attempt body (some handler) span, hdepth => by
    rw [Stmt.loopDepth] at hdepth
    obtain ⟨hbody, hhandler⟩ := Nat.max_le.1 hdepth
    rw [unrollStmt, unrollStmt, unrollStmts_congr h known body hbody,
      unrollStmts_congr h known handler hhandler]
  | known, .attempt body none span, hdepth => by
    rw [unrollStmt, unrollStmt, unrollStmts_congr h known body hdepth]
  | known, .function .., _ => by rw [unrollStmt, unrollStmt]
  | known, .breakLoop _, _ => by rw [unrollStmt, unrollStmt]
  | known, .require .., _ => by rw [unrollStmt, unrollStmt]

theorem unrollStmts_congr (h : inner.AgreesBelow depth inner') :
    ∀ (known : Known) (stmts : List Stmt),
      Stmt.loopDepthAll stmts ≤ depth →
        unrollStmts inner known stmts = unrollStmts inner' known stmts
  | known, [], _ => by rw [unrollStmts, unrollStmts]
  | known, stmt :: rest, hdepth => by
    rw [Stmt.loopDepthAll] at hdepth
    obtain ⟨hstmt, hrest⟩ := Nat.max_le.1 hdepth
    rw [unrollStmts, unrollStmts, unrollStmt_congr h known stmt hstmt]
    exact bind_congr fun ⟨first, between⟩ => by simp only [unrollStmts_congr h between rest hrest]

theorem unrollBranches_congr (h : inner.AgreesBelow depth inner') :
    ∀ (known : Known) (branches : List (Branch Stmt)), Stmt.loopDepthBranches branches ≤ depth →
      unrollBranches inner known branches = unrollBranches inner' known branches
  | known, [], _ => by rw [unrollBranches, unrollBranches]
  | known, ⟨cond, body, span⟩ :: rest, hdepth => by
    rw [Stmt.loopDepthBranches] at hdepth
    obtain ⟨hbody, hrest⟩ := Nat.max_le.1 hdepth
    rw [unrollBranches, unrollBranches, unrollStmts_congr h known body hbody,
      unrollBranches_congr h known rest hrest]

end

/-- **Every depth is enough** that exceeds that of the loops. -/
theorem agreesBelow_unrollAt {depth depth' : Nat} (h : depth ≤ depth') :
    (unrollAt depth).AgreesBelow depth (unrollAt depth') := by
  induction depth generalizing depth' with
  | zero => exact fun _ _ hdepth => absurd hdepth (Nat.not_lt_zero _)
  | succ depth ih =>
    obtain ⟨depth', rfl⟩ := Nat.exists_eq_add_of_lt h
    intro known stmts hdepth
    rw [unrollAt, unrollAt,
      unrollStmts_congr (ih (Nat.le_add_right ..)) known stmts (Nat.le_of_lt_succ hdepth)]

/-- Any depth that is enough gives the same as the depth of the script. -/
theorem unrollAt_eq_run {stmts : List Stmt} {depth : Nat} (h : Stmt.loopDepthAll stmts < depth) :
    unrollAt depth [] stmts = run stmts :=
  (agreesBelow_unrollAt (Nat.succ_le_of_lt h) [] stmts (Nat.lt_succ_self _)).symm

end Unroller

end EdgeScript
