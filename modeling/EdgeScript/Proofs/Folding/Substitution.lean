import EdgeScript.Proofs.Folding.Again
import EdgeScript.Proofs.Inlining.TwoRuns

/-!
# Folding commutes with substitution

Arguments take the places of parameters, and elements those of loop variables, in scripts that may
have been folded before and will be folded afterwards.  It is enough to fold once, in the end: a
value that is computed early would be computed later too, whatever the variables stand for
(`Expr.fold_subst_fold`), a branch that is decided early would be decided later, and a chain that is
cut off there has lost only what is never done (`Stmt.foldAll_substAll_foldAll`).

What is put in may be folded early as well.  A node takes part in folding only through its folded
parts, so nothing is seen of the difference (`Expr.fold_subst_congr`).
-/

set_option autoImplicit false

namespace EdgeScript

/-- The result depends on what is put in only through what folding makes of it. -/
theorem Expr.fold_subst_congr {bound bound' : String → Option Expr}
    (h : ∀ x, Option.Rel (fun value value' => value.fold = value'.fold) (bound x) (bound' x))
    (e : Expr) : (e.subst bound).fold = (e.subst bound').fold := by
  induction e using induction_parts with
  | node e ih =>
    -- a variable is replaced as a whole, any other node keeps its kind and is judged by its folded
    -- parts
    rcases Inliner.subst_cases h e with hvalue | ⟨hnode, hnode'⟩
    · exact hvalue
    · have hparts : (e.parts.map (subst bound)).map fold =
          (e.parts.map (subst bound')).map fold := by
        rw [List.map_map, List.map_map]
        exact List.map_congr_left ih
      rw [hnode, hnode', fold, fold, bottomUp_withParts (List.length_map _),
        bottomUp_withParts (List.length_map _)]
      exact congrArg (fun parts => foldNode (e.withParts parts)) hparts

theorem Stmt.substAll_eq_map (var : String) (value : Expr) (stmts : List Stmt) :
    substAll var value stmts = stmts.map (subst var value) := by
  induction stmts with
  | nil => rfl
  | cons s rest ih => rw [substAll, ih, List.map_cons]

/-- **Folding commutes with substitution**, with every place in a script.  An expression may be
folded before names are replaced in it, by whatever they are bound to, and so may what they are
bound to: after the last folding all is the same.  Statements may be folded before a loop's variable
is replaced in each of them, also where that decides a condition or an inner loop hides the
variable. -/
theorem folding_commutes_with_substitution :
    (∀ (bound : String → Option Expr) (e : Expr),
      (e.fold.subst bound).fold = (e.subst bound).fold ∧
      (e.fold.subst fun x => (bound x).map Expr.fold).fold = (e.subst bound).fold) ∧
    ∀ (var : String) (value : Expr) (stmts : List Stmt),
      Stmt.foldAll ((Stmt.foldAll stmts).map (Stmt.subst var value)) =
        Stmt.foldAll (stmts.map (Stmt.subst var value)) := by
  refine ⟨fun bound e => ⟨Expr.fold_subst_fold e, ?_⟩, fun var value stmts => ?_⟩
  · have hfolded (x : String) : Option.Rel (fun value value' => value.fold = value'.fold)
        ((bound x).map Expr.fold) (bound x) := by
      cases bound x with
      | none => exact .none
      | some value => exact .some value.fold_fold
    rw [Expr.fold_subst_congr hfolded, Expr.fold_subst_fold]
  · rw [← Stmt.substAll_eq_map, ← Stmt.substAll_eq_map, Stmt.foldAll_substAll_foldAll]

end EdgeScript
