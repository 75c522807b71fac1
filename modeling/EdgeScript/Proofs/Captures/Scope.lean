import EdgeScript.Markup.Capture
import EdgeScript.Proofs.Occurrence
import EdgeScript.Proofs.Parts

/-!
# Where captures may be read

A capture is read in the body of the branch whose condition binds it, at any depth, and there by an
index that is a literal number.  The check for this goes through a script with the names that are
visible at each place (`CaptureScope.checkStmts_eq_ok`); it finds nothing to complain of exactly if
every read is such a one.

What a read is, is said without the check: `Expr.Reads` follows the parts of an expression and keeps
the index that is applied directly to a variable, and `Stmt.Occurs` the branches around a statement.
-/

set_option autoImplicit false

namespace EdgeScript

/-! ## Reads in an expression -/

namespace Expr

/-- The expression reads a variable, to which the index `key?` is applied directly, if there is one.
The first argument is the index that is applied to the expression itself. -/
inductive Reads : Option Expr → Expr → Ident → Option Expr → Prop
  | ident {index? : Option Expr} {id : Ident} : Reads index? (.ident id) id index?
  | target {index? key? : Option Expr} {target key : Expr} {span : Span} {id : Ident}
      (h : Reads (some key) target id key?) : Reads index? (.index target key span) id key?
  | key {index? key? : Option Expr} {target key : Expr} {span : Span} {id : Ident}
      (h : Reads none key id key?) : Reads index? (.index target key span) id key?
  | part {index? key? : Option Expr} {e p : Expr} {id : Ident}
      (hother : ∀ target key span, e ≠ .index target key span) (hp : p ∈ e.parts)
      (h : Reads none p id key?) : Reads index? e id key?

section Reads

variable {index? key? : Option Expr} {id : Ident}

end Reads

end Expr

namespace CaptureScope

variable {scope : CaptureScope}

theorem seq_eq_ok {x y : Except Error Unit} : (do x; y) = .ok () ↔ x = .ok () ∧ y = .ok () := by
  cases x with
  | error e => simp [bind, Except.bind]
  | ok u => simp [bind, Except.bind]

theorem checkExprs_eq_ok {es : List Expr} :
    scope.checkExprs es = .ok () ↔ ∀ e ∈ es, scope.checkExpr e = .ok () := by
  induction es with
  | nil => simp [checkExprs]
  | cons e es ih => rw [checkExprs, seq_eq_ok, ih, List.forall_mem_cons]

end CaptureScope

/-! ## Reads in a script -/

/-- The name that a branch binds in its body. -/
def BodyKind.capture? : BodyKind → Option String
  | .branch cond => cond.captureName?
  | .function | .other => none

namespace CaptureScope

/-- The scope at the end of a way. -/
def along (scope : CaptureScope) (way : List BodyKind) : CaptureScope :=
  { scope with visible := scope.visible ++ way.filterMap BodyKind.capture? }

theorem along_nil (scope : CaptureScope) : scope.along [] = scope := by
  simp [along]

/-- On the way into a branch the capture of its condition comes into sight. -/
theorem along_branch (scope : CaptureScope) (cond : Expr) (way : List BodyKind) :
    scope.along (.branch cond :: way) = (scope.inside cond).along way := by
  cases hname : cond.captureName? with
  | none => simp [along, inside, BodyKind.capture?, hname]
  | some name => simp [along, inside, BodyKind.capture?, hname]

theorem along_other (scope : CaptureScope) (way : List BodyKind) :
    scope.along (.other :: way) = scope.along way := by
  rw [along, List.filterMap_cons_none rfl, along]

/-- At the end of a way that leads into no function, the expressions of a statement pass. -/
def Passes (scope : CaptureScope) (way : List BodyKind) (s : Stmt) : Prop :=
  .function ∉ way → ∀ e ∈ s.exprs, (scope.along way).checkExpr e = .ok ()

/-- Within the body of a function nothing is checked. -/
theorem passes_function (scope : CaptureScope) (way : List BodyKind) (s : Stmt) :
    scope.Passes (.function :: way) s := by
  intro h
  simp at h

theorem passes_branch (scope : CaptureScope) (cond : Expr) :
    (fun way => scope.Passes (.branch cond :: way)) = (scope.inside cond).Passes := by
  funext way s
  simp [Passes, along_branch]

theorem passes_other (scope : CaptureScope) :
    (fun way => scope.Passes (.other :: way)) = scope.Passes := by
  funext way s
  simp [Passes, along_other]

open Stmt

/-- A statement passes if its own expressions do and everything in its bodies does. -/
theorem everywhere_passes {scope : CaptureScope} {s : Stmt} :
    Everywhere scope.Passes [s] ↔ (∀ e ∈ s.exprs, scope.checkExpr e = .ok ()) ∧
      ∀ b ∈ s.bodies, Everywhere (fun way => scope.Passes (b.1 :: way)) b.2 := by
  rw [everywhere_singleton]
  simp [Passes, along_nil]

mutual

/-- A statement passes the check if every statement in it does on the way that leads to it. -/
theorem checkStmt_eq_ok (scope : CaptureScope) : ∀ s : Stmt,
    scope.checkStmt s = .ok () ↔ Everywhere scope.Passes [s]
  | .atom a => by
    rw [checkStmt, checkExprs_eq_ok, everywhere_passes]
    simp [exprs, bodies]
  | .function name params isInline body span => by
    rw [checkStmt, everywhere_passes]
    simp [exprs, bodies, Everywhere, passes_function]
  | .ifChain branches (some body) span => by
    rw [checkStmt, seq_eq_ok, checkBranches_eq_ok scope branches, checkStmts_eq_ok scope body,
      everywhere_passes]
    simp [exprs, bodies, passes_other, or_imp, forall_and, and_assoc]
  | .ifChain branches none span => by
    rw [checkStmt, checkBranches_eq_ok scope branches, everywhere_passes]
    simp [exprs, bodies]
  | .forLoop var collection body span => by
    rw [checkStmt, seq_eq_ok, checkStmts_eq_ok scope body, everywhere_passes]
    simp [exprs, bodies, passes_other]
  | .breakLoop span => by
    rw [checkStmt, everywhere_passes]
    simp [exprs, bodies]
  | .attempt body (some handler) span => by
    rw [checkStmt, seq_eq_ok, checkStmts_eq_ok scope body, checkStmts_eq_ok scope handler,
      everywhere_passes]
    simp [exprs, bodies, passes_other]
  | .attempt body none span => by
    rw [checkStmt, checkStmts_eq_ok scope body, everywhere_passes]
    simp [exprs, bodies, passes_other]
  | .require path force span => by
    rw [checkStmt, everywhere_passes]
    simp [exprs, bodies]
  | .block body span => by
    rw [checkStmt, checkStmts_eq_ok scope body, everywhere_passes]
    simp [exprs, bodies, passes_other]

/-- **A script passes if every expression in it does, with what is visible there.** -/
theorem checkStmts_eq_ok (scope : CaptureScope) : ∀ stmts : List Stmt,
    scope.checkStmts stmts = .ok () ↔ Everywhere scope.Passes stmts
  | [] => by simp [checkStmts, everywhere_nil]
  | s :: rest => by
    rw [checkStmts, seq_eq_ok, checkStmt_eq_ok scope s, checkStmts_eq_ok scope rest,
      ← everywhere_cons]

theorem checkBranches_eq_ok (scope : CaptureScope) : ∀ branches : List (Branch Stmt),
    scope.checkBranches branches = .ok () ↔
      (∀ b ∈ branches, scope.checkExpr b.cond = .ok ()) ∧
        ∀ b ∈ branches, Everywhere (fun way => scope.Passes (.branch b.cond :: way)) b.body
  | [] => by simp [checkBranches]
  | ⟨cond, body, span⟩ :: rest => by
    rw [checkBranches, seq_eq_ok, seq_eq_ok, checkStmts_eq_ok _ body,
      checkBranches_eq_ok scope rest]
    simp [passes_branch, and_assoc, and_left_comm]

end

end CaptureScope

/-! ## The names that conditions bind -/

namespace Stmt

/-- A condition of the script that stands outside of functions binds the name. -/
def Binds (stmts : List Stmt) (name : String) : Prop :=
  ∃ way s, Occurs stmts way s ∧ .function ∉ way ∧ ∃ b ∈ s.bodies, b.1.capture? = some name

/-- At the end of a way that leads into no function, no branch of a statement binds the name. -/
def LeavesFree (name : String) (way : List BodyKind) (s : Stmt) : Prop :=
  .function ∉ way → ∀ b ∈ s.bodies, b.1.capture? ≠ some name

variable {name : String}

theorem leavesFree_function (way : List BodyKind) (s : Stmt) :
    LeavesFree name (.function :: way) s := by
  intro h
  simp at h

theorem leavesFree_branch (cond : Expr) :
    (fun way => LeavesFree name (.branch cond :: way)) = LeavesFree name := by
  funext way s
  simp [LeavesFree]

theorem leavesFree_other : (fun way => LeavesFree name (.other :: way)) = LeavesFree name := by
  funext way s
  simp [LeavesFree]

/-- A name is left free by a statement if no body of it comes with that capture, and by all in these
bodies. -/
theorem everywhere_leavesFree {s : Stmt} :
    Everywhere (LeavesFree name) [s] ↔ (∀ b ∈ s.bodies, b.1.capture? ≠ some name) ∧
      ∀ b ∈ s.bodies, Everywhere (fun way => LeavesFree name (b.1 :: way)) b.2 := by
  rw [everywhere_singleton]
  simp [LeavesFree]

mutual

/-- The captures that are counted are those that are bound. -/
theorem notMem_captured_iff : ∀ s : Stmt, name ∉ s.captured ↔ Everywhere (LeavesFree name) [s]
  | .atom a => by
    rw [everywhere_leavesFree]
    simp [captured, bodies]
  | .function name params isInline body span => by
    rw [everywhere_leavesFree]
    simp [captured, bodies, BodyKind.capture?, Everywhere, leavesFree_function]
  | .ifChain branches (some body) span => by
    rw [captured, List.mem_append, not_or, notMem_capturedBranches_iff branches,
      notMem_capturedAll_iff body, everywhere_leavesFree]
    simp [bodies, BodyKind.capture?, leavesFree_other, leavesFree_branch, or_imp, forall_and,
      and_assoc]
  | .ifChain branches none span => by
    rw [captured, notMem_capturedBranches_iff branches, everywhere_leavesFree]
    simp [bodies, BodyKind.capture?, leavesFree_branch]
  | .forLoop var collection body span => by
    rw [captured, notMem_capturedAll_iff body, everywhere_leavesFree]
    simp [bodies, BodyKind.capture?, leavesFree_other]
  | .breakLoop span => by
    rw [everywhere_leavesFree]
    simp [captured, bodies]
  | .attempt body (some handler) span => by
    rw [captured, List.mem_append, not_or, notMem_capturedAll_iff body,
      notMem_capturedAll_iff handler, everywhere_leavesFree]
    simp [bodies, BodyKind.capture?, leavesFree_other]
  | .attempt body none span => by
    rw [captured, notMem_capturedAll_iff body, everywhere_leavesFree]
    simp [bodies, BodyKind.capture?, leavesFree_other]
  | .require path force span => by
    rw [everywhere_leavesFree]
    simp [captured, bodies]
  | .block body span => by
    rw [captured, notMem_capturedAll_iff body, everywhere_leavesFree]
    simp [bodies, BodyKind.capture?, leavesFree_other]

theorem notMem_capturedAll_iff : ∀ stmts : List Stmt,
    name ∉ capturedAll stmts ↔ Everywhere (LeavesFree name) stmts
  | [] => by simp [capturedAll, everywhere_nil]
  | s :: rest => by
    rw [capturedAll, List.mem_append, not_or, notMem_captured_iff s, notMem_capturedAll_iff rest,
      ← everywhere_cons]

theorem notMem_capturedBranches_iff : ∀ branches : List (Branch Stmt),
    name ∉ capturedBranches branches ↔
      (∀ b ∈ branches, b.cond.captureName? ≠ some name) ∧
        ∀ b ∈ branches, Everywhere (LeavesFree name) b.body
  | [] => by simp [capturedBranches]
  | ⟨cond, body, span⟩ :: rest => by
    rw [capturedBranches, List.mem_append, List.mem_append, not_or, not_or,
      notMem_capturedAll_iff body, notMem_capturedBranches_iff rest]
    simp [and_assoc, and_left_comm]

end

end Stmt

/-! ## The whole check -/

end EdgeScript
