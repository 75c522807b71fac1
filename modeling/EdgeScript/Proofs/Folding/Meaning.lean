import EdgeScript.Proofs.Meaning.Collection
import EdgeScript.Proofs.Meaning.Run
import EdgeScript.Stmt.Fold

/-!
# Folding keeps the meaning of scripts

`Interp.Lawful.eval_fold` is about expressions; this file is about statements.  Branches that never
hold are dropped, a branch that always holds becomes what the chain does otherwise and the branches
behind it are lost, and a chain without branches dissolves into the statements around it.  None of
this changes what is executed.

The one statement with an argument in it is `execBranches_foldBranches`: a chain does what its
folded branches do, with the body of the branch that always holds in the place of what is done
otherwise.
-/

set_option autoImplicit false

namespace EdgeScript

namespace Interp

variable {V : Type} {I : Interp V}

theorem exec_ifChain (scope : Scope V) (σ : Store V) (branches : List (Branch Stmt))
    (otherwise : Option (List Stmt)) (span : Span) :
    I.exec scope σ (.ifChain branches otherwise span) =
      I.execBranches scope σ (I.execAll scope σ (otherwise.getD [])) branches := by
  cases otherwise with
  | none => rw [exec, Option.getD_none, execAll_nil]
  | some body => rw [exec, Option.getD_some]

theorem execAll_ofChain (scope : Scope V) (σ : Store V)
    (folded : List (Branch Stmt) × Option (List Stmt)) (otherwise : Option (List Stmt))
    (span : Span) :
    I.execAll scope σ (Stmt.ofChain folded otherwise span) =
      I.execBranches scope σ (I.execAll scope σ ((folded.2.or otherwise).getD [])) folded.1 := by
  obtain ⟨_ | ⟨branch, rest⟩, taken⟩ := folded
  · rw [Stmt.ofChain, execBranches]
  · rw [Stmt.ofChain]
    exact (execAll_singleton ..).trans (exec_ifChain ..)

namespace Lawful

mutual

theorem exec_fold (hI : I.Lawful) (scope : Scope V) (σ : Store V) :
    ∀ s, I.execAll scope σ (Stmt.fold s) = I.exec scope σ s
  | .atom a => by
    rw [Stmt.fold, execAll_singleton, exec, exec]
    exact I.execAtom_mapExprs (hI.eval_fold _) σ a
  | .function name params isInline body span => by
    rw [Stmt.fold, execAll_singleton, exec, exec]
  | .ifChain branches none span => by
    rw [Stmt.fold, execAll_ofChain, exec_ifChain, execBranches_foldBranches hI scope σ _ branches]
    cases (Stmt.foldBranches branches).2 <;> rfl
  | .ifChain branches (some body) span => by
    rw [Stmt.fold, execAll_ofChain, exec_ifChain, execBranches_foldBranches hI scope σ _ branches]
    cases (Stmt.foldBranches branches).2 with
    | none => rw [Option.getD_some, ← execAll_foldAll hI scope σ body]; rfl
    | some taken => rfl
  | .forLoop var collection body span => by
    rw [Stmt.fold, execAll_singleton, exec, exec, hI.eval_fold]
    congr 1
    funext v τ
    exact execAll_foldAll hI (scope.bind (loopVariable var) v) τ body
  | .breakLoop span => by rw [Stmt.fold, execAll_singleton]
  | .attempt body none span => by
    rw [Stmt.fold, execAll_singleton, exec, exec, execAll_foldAll hI scope σ body]
  | .attempt body (some handler) span => by
    rw [Stmt.fold, execAll_singleton, exec, exec, execAll_foldAll hI scope σ body,
      execAll_foldAll hI scope σ handler]
  | .require path force span => by rw [Stmt.fold, execAll_singleton]
  | .block body span => by
    rw [Stmt.fold, execAll_singleton, exec, exec, execAll_foldAll hI scope σ body]

theorem execAll_foldAll (hI : I.Lawful) (scope : Scope V) (σ : Store V) :
    ∀ stmts, I.execAll scope σ (Stmt.foldAll stmts) = I.execAll scope σ stmts
  | [] => by rw [Stmt.foldAll]
  | s :: rest => by
    rw [Stmt.foldAll, execAll_append, exec_fold hI scope σ s, execAll]
    congr 1
    funext τ
    exact execAll_foldAll hI scope τ rest

/-- A chain does what its folded branches do, up to the one that always holds and with the body of
that one in the place of what is done otherwise. -/
theorem execBranches_foldBranches (hI : I.Lawful) (scope : Scope V) (σ : Store V)
    (otherwise : Outcome V) :
    ∀ branches, I.execBranches scope σ otherwise branches =
      I.execBranches scope σ
        (((Stmt.foldBranches branches).2.map (I.execAll scope σ)).getD otherwise)
        (Stmt.foldBranches branches).1
  | [] => by rw [Stmt.foldBranches]; rfl
  | ⟨cond, body, span⟩ :: rest => by
    have hcond : I.eval (scope.reads σ) cond.fold = I.eval (scope.reads σ) cond :=
      hI.eval_fold _ cond
    rw [Stmt.foldBranches, execBranches]
    rcases ht : cond.fold.truth? with _ | _ | _
    · show _ = I.execBranches scope σ _ (_ :: _)
      rw [execBranches, hcond, execAll_foldAll hI scope σ body,
        ← execBranches_foldBranches hI scope σ otherwise rest]
    · rw [← hcond, hI.truth_of_truth? _ ht, if_neg Bool.false_ne_true]
      exact execBranches_foldBranches hI scope σ otherwise rest
    · rw [← hcond, hI.truth_of_truth? _ ht, if_pos rfl]
      exact (execAll_foldAll hI scope σ body).symm

end

/-- **Folding keeps the meaning of expressions and of scripts.**  Every expression has the value it
had, and every sequence of statements causes the same events in the same order, leaves the same
store and meets a `break` where it did. -/
theorem folding_keeps_meaning (hI : I.Lawful) :
    (∀ ρ e, I.eval ρ e.fold = I.eval ρ e) ∧
      ∀ scope σ stmts, I.execAll scope σ (Stmt.foldAll stmts) = I.execAll scope σ stmts :=
  ⟨hI.eval_fold, execAll_foldAll hI⟩

end Lawful

end Interp

/-- A loop over `[1..3]` with one chain in it, of which two conditions are decided:
`if (1 == 2) { break; } else if (item) { print(item); } else if (true) { break; }` and an `else`
that prints a question mark. -/
def loopWithDecidedBranches : List Stmt :=
  let here := Span.none
  let int (n : Int64) : Expr := .lit (.int n) here
  let item : Expr := .ident ⟨"item", here⟩
  [.forLoop none (.range (int 1) (int 3) here)
    [.ifChain
      [⟨.binary .eq (int 1) (int 2) here, [.breakLoop here], here⟩,
        ⟨item, [.atom (.output .print [item] here)], here⟩,
        ⟨.lit (.bool true) here, [.breakLoop here], here⟩]
      (some [.atom (.output .print [.lit (.str "?") here] here)]) here] here]

theorem folding_keeps_meaning_loopWithDecidedBranches :
    Interp.basic.Lawful ∧
      Interp.basic.execAll Scope.empty (fun _ => .unknown) (Stmt.foldAll loopWithDecidedBranches) =
        Interp.basic.execAll Scope.empty (fun _ => .unknown) loopWithDecidedBranches :=
  ⟨Interp.basic_lawful,
    (Interp.Lawful.folding_keeps_meaning Interp.basic_lawful).2 _ _ loopWithDecidedBranches⟩

end EdgeScript
