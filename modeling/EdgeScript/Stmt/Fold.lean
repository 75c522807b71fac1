import EdgeScript.Stmt
import EdgeScript.Expr.Fold

/-!
# Folding statements

`Stmt.foldAll` folds the expressions of a script and decides the branches whose conditions are
known: a branch that never holds is dropped, one that always holds ends its chain, and a chain
without conditions left is replaced by what it does otherwise.  One statement can therefore become
several, or none.
-/

set_option autoImplicit false

namespace EdgeScript.Stmt

/-- The statements of a chain, given its folded branches and the body of the one that always holds,
which takes the place of what is done otherwise. -/
def ofChain (folded : List (Branch Stmt) × Option (List Stmt)) (otherwise : Option (List Stmt))
    (span : Span) : List Stmt :=
  match folded.1 with
  | [] => (folded.2.or otherwise).getD []
  | branches => [.ifChain branches (folded.2.or otherwise) span]

mutual

/-- A statement with its expressions folded and its known conditions decided. -/
def fold : Stmt → List Stmt
  | .atom a => [.atom (a.mapExprs Expr.fold)]
  | .function name params isInline body span =>
    [.function name params isInline (foldAll body) span]
  | .ifChain branches (some body) span =>
    ofChain (foldBranches branches) (some (foldAll body)) span
  | .ifChain branches none span => ofChain (foldBranches branches) none span
  | .forLoop var collection body span => [.forLoop var collection.fold (foldAll body) span]
  | .breakLoop span => [.breakLoop span]
  | .attempt body (some handler) span => [.attempt (foldAll body) (some (foldAll handler)) span]
  | .attempt body none span => [.attempt (foldAll body) none span]
  | .require path force span => [.require path force span]
  | .block body span => [.block (foldAll body) span]

/-- The statements of a sequence, folded. -/
def foldAll : List Stmt → List Stmt
  | [] => []
  | s :: rest => fold s ++ foldAll rest

/-- The branches of a chain up to the first that always holds, and the body of that one. -/
def foldBranches : List (Branch Stmt) → List (Branch Stmt) × Option (List Stmt)
  | [] => ([], none)
  | ⟨cond, body, span⟩ :: rest =>
    match cond.fold.truth? with
    | some true => ([], some (foldAll body))
    | some false => foldBranches rest
    | none =>
      let folded := foldBranches rest
      (⟨cond.fold, foldAll body, span⟩ :: folded.1, folded.2)

end

end EdgeScript.Stmt
