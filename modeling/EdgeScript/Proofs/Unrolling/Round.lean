import EdgeScript.Proofs.Meaning.Run
import EdgeScript.Loop.Break
import EdgeScript.Stmt.Subst

/-!
# One round of a loop

A copy of a loop's body differs from the body in two ways: the element stands in the place of the
loop's variable, and what comes after a `break` is cut off.

* `execAll_substAll`: the body with a literal in the place of a variable does what the body does
  inside a loop in which the variable reads as that literal.
* `execAll_cutAtBreak`: what is left of a round does what the whole round does, and the cut tells
  whether the round meets a `break`.
-/

set_option autoImplicit false

namespace EdgeScript

namespace Interp

variable {V : Type} (I : Interp V)

/-! ## The element in the place of the variable -/

theorem bind_binding (scope : Scope V) (σ : Store V) (x : String) (v : Literal) (span : Span) :
    I.bind (scope.reads σ) (Stmt.binding x (.lit v span)) = (scope.bind x (I.lit v)).reads σ := by
  funext y
  rw [bind, Stmt.binding]
  by_cases h : y = x
  · rw [if_pos h, Option.map_some, eval, Scope.reads, Scope.reads, Scope.bind, h,
      Function.update_self]
    rfl
  · rw [if_neg h, Scope.reads, Scope.reads, Scope.bind, Function.update_of_ne h]
    rfl

theorem eval_subst_binding (scope : Scope V) (σ : Store V) (x : String) (v : Literal) (span : Span)
    (e : Expr) :
    I.eval (scope.reads σ) (e.subst (Stmt.binding x (.lit v span))) =
      I.eval ((scope.bind x (I.lit v)).reads σ) e := by
  rw [eval_subst, bind_binding]

mutual

theorem exec_subst (x : String) (v : Literal) (place : Span) (scope : Scope V) (σ : Store V) :
    ∀ s, I.exec scope σ (Stmt.subst x (.lit v place) s) = I.exec (scope.bind x (I.lit v)) σ s
  | .atom a => by
    rw [Stmt.subst, exec, exec]
    exact I.execAtom_mapExprs (I.eval_subst_binding scope σ x v place) σ a
  | .function name params isInline body span => by rw [Stmt.subst, exec, exec]
  | .ifChain branches (some body) span => by
    rw [Stmt.subst, exec, exec, execAll_substAll x v place scope σ body,
      execBranches_substBranches x v place scope σ _ branches]
  | .ifChain branches none span => by
    rw [Stmt.subst, exec, exec, execBranches_substBranches x v place scope σ _ branches]
  | .forLoop var collection body span => by
    rw [Stmt.subst, exec, exec, eval_subst_binding]
    congr 1
    funext w τ
    -- the variable of an inner loop over the same name goes before the outer one
    by_cases h : loopVariable var = x
    · rw [if_pos h, h, Scope.bind_bind]
    · rw [if_neg h, execAll_substAll x v place _ τ body, Scope.bind_comm scope h]
  | .breakLoop span => by rw [Stmt.subst, exec, exec]
  | .attempt body (some handler) span => by
    rw [Stmt.subst, exec, exec, execAll_substAll x v place scope σ body,
      execAll_substAll x v place scope σ handler]
  | .attempt body none span => by
    rw [Stmt.subst, exec, exec, execAll_substAll x v place scope σ body]
  | .require path force span => by rw [Stmt.subst, exec, exec]
  | .block body span => by rw [Stmt.subst, exec, exec, execAll_substAll x v place scope σ body]

theorem execAll_substAll (x : String) (v : Literal) (place : Span) (scope : Scope V) (σ : Store V) :
    ∀ stmts, I.execAll scope σ (Stmt.substAll x (.lit v place) stmts) =
      I.execAll (scope.bind x (I.lit v)) σ stmts
  | [] => by rw [Stmt.substAll, execAll_nil, execAll_nil]
  | s :: rest => by
    rw [Stmt.substAll, execAll, execAll, exec_subst x v place scope σ s]
    congr 1
    funext τ
    exact execAll_substAll x v place scope τ rest

theorem execBranches_substBranches (x : String) (v : Literal) (place : Span) (scope : Scope V)
    (σ : Store V) (otherwise : Outcome V) :
    ∀ branches, I.execBranches scope σ otherwise (Stmt.substBranches x (.lit v place) branches) =
      I.execBranches (scope.bind x (I.lit v)) σ otherwise branches
  | [] => by rw [Stmt.substBranches, execBranches, execBranches]
  | ⟨cond, body, span⟩ :: rest => by
    rw [Stmt.substBranches, execBranches, execBranches, eval_subst_binding,
      execAll_substAll x v place scope σ body,
      execBranches_substBranches x v place scope σ otherwise rest]

end

/-! ## The cut at a `break` -/

/-- A loop keeps the `break`s of its rounds to itself. -/
theorem broke_execRounds (round : V → Store V → Outcome V) (vs : List V) (σ : Store V) :
    (execRounds round vs σ).broke = false := by
  induction vs generalizing σ with
  | nil => rfl
  | cons v vs ih =>
    rw [execRounds]
    split
    · rfl
    · rename_i h
      exact Outcome.broke_andThen.2 ⟨by simpa using h, ih _⟩

mutual

/-- A statement without a `break` of the loop around it meets none. -/
theorem broke_exec (scope : Scope V) (σ : Store V) :
    ∀ {s}, Stmt.hasBreak s = false → (I.exec scope σ s).broke = false
  | .atom a, _ => by rw [exec]; exact I.broke_execAtom _ σ a
  | .function .., _ => by rw [exec]; rfl
  | .ifChain branches (some body) span, h => by
    rw [Stmt.hasBreak, Bool.or_eq_false_iff] at h
    rw [exec]
    exact broke_execBranches scope σ (broke_execAll scope σ h.2) h.1
  | .ifChain branches none span, h => by
    rw [Stmt.hasBreak] at h
    rw [exec]
    exact broke_execBranches scope σ rfl h
  | .forLoop .., _ => by rw [exec]; exact broke_execRounds _ _ σ
  | .breakLoop span, h => by rw [Stmt.hasBreak] at h; cases h
  | .attempt body (some handler) span, h => by
    rw [Stmt.hasBreak, Bool.or_eq_false_iff] at h
    rw [exec]
    exact broke_execAll scope σ h.1
  | .attempt body none span, h => by
    rw [Stmt.hasBreak] at h
    rw [exec]
    exact broke_execAll scope σ h
  | .require .., _ => by rw [exec]
  | .block body span, h => by
    rw [Stmt.hasBreak] at h
    rw [exec]
    exact broke_execAll scope σ h

theorem broke_execAll (scope : Scope V) (σ : Store V) :
    ∀ {stmts}, Stmt.hasBreakAny stmts = false → (I.execAll scope σ stmts).broke = false
  | [], _ => rfl
  | s :: rest, h => by
    rw [Stmt.hasBreakAny, Bool.or_eq_false_iff] at h
    rw [execAll, Outcome.broke_andThen]
    exact ⟨broke_exec scope σ h.1, broke_execAll scope _ h.2⟩

theorem broke_execBranches (scope : Scope V) (σ : Store V) {otherwise : Outcome V}
    (hother : otherwise.broke = false) :
    ∀ {branches}, Stmt.hasBreakBranches branches = false →
      (I.execBranches scope σ otherwise branches).broke = false
  | [], _ => by rw [execBranches]; exact hother
  | ⟨cond, body, span⟩ :: rest, h => by
    rw [Stmt.hasBreakBranches, Bool.or_eq_false_iff] at h
    rw [execBranches]
    split
    · exact broke_execAll scope σ h.1
    · exact broke_execBranches scope σ hother h.2

end

theorem leave_of_not_broke {r : Outcome V} (h : r.broke = false) : r.leave = r := by
  rw [Outcome.leave, ← h]

/-- A statement without a `break` that is kept as it is. -/
theorem exec_kept (scope : Scope V) (σ : Store V) {s : Stmt} {kept : List Stmt} {broke : Bool}
    (hs : Stmt.hasBreak s = false) (h : (.ok ([s], false) : Except Error _) = .ok (kept, broke)) :
    I.execAll scope σ kept = (I.exec scope σ s).leave ∧ broke = (I.exec scope σ s).broke := by
  cases h
  have hbroke := I.broke_exec scope σ hs
  exact ⟨by rw [execAll_singleton, leave_of_not_broke hbroke], hbroke.symm⟩

mutual

/-- What is left of a statement does what the statement does. -/
theorem exec_cut (scope : Scope V) (σ : Store V) :
    ∀ {s kept broke}, Stmt.cut s = .ok (kept, broke) →
      I.execAll scope σ kept = (I.exec scope σ s).leave ∧ broke = (I.exec scope σ s).broke
  | .breakLoop span, kept, broke, h => by
    rw [Stmt.cut] at h
    cases h
    exact ⟨rfl, rfl⟩
  | .block body span, kept, broke, h => by
    rw [Stmt.cut] at h
    split at h
    · rename_i body' broke' hbody
      cases h
      rw [execAll_singleton, exec, exec]
      exact execAll_cutAtBreak scope σ hbody
    · cases h
  | .ifChain branches otherwise span, kept, broke, h => by
    rw [Stmt.cut] at h
    split at h
    · cases h
    · rename_i hbreak
      exact I.exec_kept scope σ (by simpa using hbreak) h
  | .attempt body handler span, kept, broke, h => by
    rw [Stmt.cut] at h
    split at h
    · cases h
    · rename_i hbreak
      exact I.exec_kept scope σ (by simpa using hbreak) h
  | .atom a, kept, broke, h => by
    rw [Stmt.cut] at h
    exact I.exec_kept scope σ (by rw [Stmt.hasBreak]) h
  | .function name params isInline body span, kept, broke, h => by
    rw [Stmt.cut] at h
    exact I.exec_kept scope σ (by rw [Stmt.hasBreak]) h
  | .forLoop var collection body span, kept, broke, h => by
    rw [Stmt.cut] at h
    exact I.exec_kept scope σ (by rw [Stmt.hasBreak]) h
  | .require path force span, kept, broke, h => by
    rw [Stmt.cut] at h
    exact I.exec_kept scope σ (by rw [Stmt.hasBreak]) h

/-- **What is left of a round does what the round does**, up to its first `break`. -/
theorem execAll_cutAtBreak (scope : Scope V) (σ : Store V) :
    ∀ {stmts kept broke}, Stmt.cutAtBreak stmts = .ok (kept, broke) →
      I.execAll scope σ kept = (I.execAll scope σ stmts).leave ∧
        broke = (I.execAll scope σ stmts).broke
  | [], kept, broke, h => by
    rw [Stmt.cutAtBreak] at h
    cases h
    exact ⟨rfl, rfl⟩
  | s :: rest, kept, broke, h => by
    rw [Stmt.cutAtBreak] at h
    split at h
    · cases h
    · rename_i first hfirst
      cases h
      obtain ⟨hexec, hbroke⟩ := exec_cut scope σ hfirst
      rw [execAll, Outcome.andThen_of_broke hbroke.symm]
      exact ⟨hexec, hbroke⟩
    · rename_i first hfirst
      obtain ⟨hexec, hbroke⟩ := exec_cut scope σ hfirst
      rw [leave_of_not_broke hbroke.symm] at hexec
      split at h
      · rename_i more broke' hmore
        cases h
        obtain ⟨hexec', hbroke'⟩ := execAll_cutAtBreak scope (I.exec scope σ s).store hmore
        rw [execAll_append, hexec, execAll]
        simp only [Outcome.andThen, hbroke.symm, hexec', hbroke']
        exact ⟨rfl, rfl⟩
      · cases h

end

end Interp

end EdgeScript
