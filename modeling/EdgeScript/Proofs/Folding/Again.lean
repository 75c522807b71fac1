import EdgeScript.Proofs.Lowering.Form

/-!
# Folding again

One walk from the leaves up computes all that there is to be computed, so folding a second time
changes nothing (`Expr.fold_fold`, `Stmt.foldAll_foldAll`).

Between the two times a variable may have been replaced, as in the copies of a loop's body.  Then
the second folding has something to do, but the first has not taken anything away from it: whatever
was computed stays, and a branch that was dropped or taken is dropped or taken for every value of
the variable (`Expr.fold_subst_fold`, `Stmt.foldAll_substAll_foldAll`).
-/

set_option autoImplicit false

namespace EdgeScript

/-! ## Expressions -/

namespace Expr

/-- Folding again changes nothing. -/
theorem fold_fold (e : Expr) : e.fold.fold = e.fold := fold_eq_self e.isFolded_fold

theorem exists_lit_of_literal? {e : Expr} {v : Literal} (h : e.literal? = some v) :
    ∃ span, e = .lit v span := by
  cases e with
  | lit value span =>
    cases h
    exact ⟨span, rfl⟩
  | _ => cases h

/-- Only a literal has a truth value that is known. -/
theorem exists_lit_of_truth? {e : Expr} {b : Bool} (h : e.truth? = some b) :
    ∃ v span, e = .lit v span := by
  obtain ⟨v, hv, -⟩ := Option.bind_eq_some_iff.1 h
  obtain ⟨span, rfl⟩ := exists_lit_of_literal? hv
  exact ⟨v, span, rfl⟩

/-- A node whose value is known becomes a literal. -/
theorem foldNode_of_value? {e : Expr} {v : Literal} (h : e.value? = some v) :
    foldNode e = .lit v e.span := by
  rw [foldNode, h]

section Subst

variable {bound : String → Option Expr}

/-- A node whose value is known has it for every value of the variables. -/
theorem fold_subst_of_value? {e : Expr} {v : Literal} (h : e.value? = some v) :
    (e.subst bound).fold = .lit v e.span := by
  unfold value? at h
  split at h
  · rename_i left right span
    split at h
    · rename_i hleft
      obtain ⟨truth, hright, -⟩ := Option.map_eq_some_iff.1 h
      obtain ⟨l, lspan, rfl⟩ := exists_lit_of_truth? hleft
      obtain ⟨r, rspan, rfl⟩ := exists_lit_of_truth? hright
      exact foldNode_of_value? (e := .binary .and (.lit l lspan) (.lit r rspan) span)
        (by simpa only [value?, hleft] using h)
    · rename_i hleft
      obtain ⟨l, lspan, rfl⟩ := exists_lit_of_truth? hleft
      exact foldNode_of_value? (e := .binary .and (.lit l lspan) (right.subst bound).fold span)
        (by simpa only [value?, hleft] using h)
    · cases h
  · rename_i left right span
    split at h
    · rename_i hleft
      obtain ⟨l, lspan, rfl⟩ := exists_lit_of_truth? hleft
      exact foldNode_of_value? (e := .binary .or (.lit l lspan) (right.subst bound).fold span)
        (by simpa only [value?, hleft] using h)
    · rename_i hleft
      obtain ⟨truth, hright, -⟩ := Option.map_eq_some_iff.1 h
      obtain ⟨l, lspan, rfl⟩ := exists_lit_of_truth? hleft
      obtain ⟨r, rspan, rfl⟩ := exists_lit_of_truth? hright
      exact foldNode_of_value? (e := .binary .or (.lit l lspan) (.lit r rspan) span)
        (by simpa only [value?, hleft] using h)
    · cases h
  · rename_i op l lspan r rspan span hand hor
    refine foldNode_of_value? (e := .binary op (.lit l lspan) (.lit r rspan) span) ?_
    cases op with
    | and => exact absurd rfl hand
    | or => exact absurd rfl hor
    | _ => exact h
  · exact foldNode_of_value? h
  · exact foldNode_of_value? h
  · cases h

theorem bottomUpAll_congr {f g : Expr → Expr} {es es' : List Expr}
    (h : List.Forall₂ (fun e e' => bottomUp f (bottomUp g e') = bottomUp f (bottomUp g e)) es es') :
    bottomUpAll f (bottomUpAll g es') = bottomUpAll f (bottomUpAll g es) := by
  induction h with
  | nil => rfl
  | cons he _ ih => simp only [bottomUpAll, he, ih]

theorem bottomUpEntries_congr {f g : Expr → Expr} {entries entries' : List (Expr × Expr)}
    (h : List.Forall₂ (fun e e' : Expr × Expr =>
      bottomUp f (bottomUp g e'.1) = bottomUp f (bottomUp g e.1) ∧
      bottomUp f (bottomUp g e'.2) = bottomUp f (bottomUp g e.2)) entries entries') :
    bottomUpEntries f (bottomUpEntries g entries') =
      bottomUpEntries f (bottomUpEntries g entries) := by
  induction h with
  | nil => rfl
  | @cons old new _ _ he _ ih =>
    obtain ⟨key, value⟩ := old
    obtain ⟨key', value'⟩ := new
    simp only [bottomUpEntries, he.1, he.2, ih]

/-- **What is computed before variables are replaced would be computed afterwards as well.** -/
theorem fold_subst_fold (e : Expr) : (e.fold.subst bound).fold = (e.subst bound).fold := by
  refine rel_bottomUp (R := fun e e' => (e'.subst bound).fold = (e.subst bound).fold)
    (f := foldNode) (fun {e e'} h => ?_) e
  have hparts : (e'.subst bound).fold = (e.subst bound).fold := by
    cases h with
    | lit | ident => rfl
    | @binary op left left' right right' span hleft hright =>
      show foldNode (.binary op (left'.subst bound).fold (right'.subst bound).fold span) = _
      rw [hleft, hright]
      rfl
    | @unary op operand operand' span hoperand =>
      show foldNode (.unary op (operand'.subst bound).fold span) = _
      rw [hoperand]
      rfl
    | @test op subject subject' pattern pattern' capture span hsubject hpattern =>
      show foldNode
        (.test op (subject'.subst bound).fold (pattern'.subst bound).fold capture span) = _
      rw [hsubject, hpattern]
      rfl
    | @call callee args args' span hargs =>
      exact congrArg (fun es => foldNode (.call callee es span)) (bottomUpAll_congr hargs)
    | @index target target' key key' span htarget hkey =>
      show foldNode (.index (target'.subst bound).fold (key'.subst bound).fold span) = _
      rw [htarget, hkey]
      rfl
    | @range first first' last last' span hfirst hlast =>
      show foldNode (.range (first'.subst bound).fold (last'.subst bound).fold span) = _
      rw [hfirst, hlast]
      rfl
    | @array elements elements' span helements =>
      exact congrArg (fun es => foldNode (.array es span)) (bottomUpAll_congr helements)
    | @dict entries entries' span hentries =>
      exact congrArg (fun es => foldNode (.dict es span)) (bottomUpEntries_congr hentries)
  rw [← hparts, foldNode]
  split
  · rename_i v hvalue
    exact (fold_subst_of_value? hvalue).symm
  · rfl

/-- A condition that is decided stays decided, and in the same way, when a variable is replaced. -/
theorem truth?_fold_subst {e : Expr} {b : Bool} (h : e.fold.truth? = some b) :
    (e.subst bound).fold.truth? = some b := by
  obtain ⟨v, span, hv⟩ := exists_lit_of_truth? h
  rw [← fold_subst_fold, hv]
  rwa [hv] at h

end Subst

end Expr

theorem Atom.mapExprs_mapExprs (f g : Expr → Expr) (a : Atom) :
    (a.mapExprs f).mapExprs g = a.mapExprs fun e => g (f e) := by
  cases a <;> simp [mapExprs, Function.comp_def]

/-! ## Statements -/

/-- The form that folding leads to. -/
def Form.normal : Form := ⟨true, false, false⟩

theorem Form.normal_foldAll (stmts : List Stmt) : Form.normal.FitsAll (Stmt.foldAll stmts) :=
  Form.FitsAll.fold (Form.fitsAll_any stmts)

namespace Stmt

/-- Folding statements again changes nothing. -/
theorem foldAll_foldAll (stmts : List Stmt) : foldAll (foldAll stmts) = foldAll stmts :=
  (Form.normal_foldAll stmts).foldAll_eq rfl

theorem foldAll_append (first second : List Stmt) :
    foldAll (first ++ second) = foldAll first ++ foldAll second := by
  induction first with
  | nil => rfl
  | cons s rest ih => rw [List.cons_append, foldAll, ih, foldAll, List.append_assoc]

theorem substAll_append (var : String) (value : Expr) (first second : List Stmt) :
    substAll var value (first ++ second) =
      substAll var value first ++ substAll var value second := by
  induction first with
  | nil => rfl
  | cons s rest ih => rw [List.cons_append, substAll, ih, substAll, List.cons_append]

/-- The body of the branch that always holds may be thought of as what is done otherwise. -/
theorem ofChain_or (branches : List (Branch Stmt)) (first second otherwise : Option (List Stmt))
    (span : Span) :
    ofChain (branches, first.or second) otherwise span =
      ofChain (branches, first) (second.or otherwise) span := by
  simp only [ofChain, Option.or_assoc]

/-- A chain is folded branch by branch, with the `else` behind. -/
theorem fold_ifChain (branches : List (Branch Stmt)) (otherwise : Option (List Stmt))
    (span : Span) :
    fold (.ifChain branches otherwise span) =
      ofChain (foldBranches branches) (otherwise.map foldAll) span := by
  cases otherwise <;> rfl

section Subst

variable {var : String} {value : Expr}

theorem subst_ifChain (branches : List (Branch Stmt)) (otherwise : Option (List Stmt))
    (span : Span) :
    subst var value (.ifChain branches otherwise span) =
      .ifChain (substBranches var value branches) (otherwise.map (substAll var value)) span := by
  cases otherwise <;> rfl

/-- A folded chain is folded again like one whose branches are folded for the first time. -/
theorem foldAll_substAll_ofChain {branches : List (Branch Stmt)} {otherwise : Option (List Stmt)}
    {span : Span}
    (hbranches : foldBranches (substBranches var value branches) =
      ((foldBranches (substBranches var value (foldBranches branches).1)).1,
        (foldBranches (substBranches var value (foldBranches branches).1)).2.or
          ((foldBranches branches).2.map fun body => foldAll (substAll var value body))))
    (hotherwise : (otherwise.map foldAll).map (fun body => foldAll (substAll var value body)) =
      otherwise.map fun body => foldAll (substAll var value body)) :
    foldAll (substAll var value (fold (.ifChain branches otherwise span))) =
      fold (subst var value (.ifChain branches otherwise span)) := by
  rw [subst_ifChain, fold_ifChain, fold_ifChain, hbranches, ofChain_or, Option.map_map]
  rw [show otherwise.map (foldAll ∘ substAll var value) = _ from hotherwise.symm, ← Option.map_or]
  rw [ofChain]
  split
  · rename_i hnil
    rw [hnil]
    cases (foldBranches branches).2.or (otherwise.map foldAll) <;> rfl
  · rw [substAll, substAll, foldAll, foldAll, List.append_nil, subst_ifChain, fold_ifChain,
      Option.map_map]
    rfl

mutual

/-- Folding before a variable is replaced is wasted, as folding comes again afterwards. -/
theorem foldAll_substAll_fold : ∀ s : Stmt,
    foldAll (substAll var value s.fold) = (s.subst var value).fold
  | .atom a => by
    simp only [fold, subst, substAll, foldAll, List.append_nil, Atom.mapExprs_mapExprs,
      Expr.fold_subst_fold]
  | .function name params isInline body span => by
    simp only [fold, subst, substAll, foldAll, List.append_nil, foldAll_foldAll]
  | .ifChain branches (some body) span => by
    refine foldAll_substAll_ofChain (foldBranches_substBranches branches) ?_
    rw [Option.map_some, Option.map_some, Option.map_some, foldAll_substAll_foldAll body]
  | .ifChain branches none span =>
    foldAll_substAll_ofChain (foldBranches_substBranches branches) rfl
  | .forLoop inner collection body span => by
    simp only [fold, subst, substAll, foldAll, List.append_nil, Expr.fold_subst_fold]
    split
    · rw [foldAll_foldAll]
    · rw [foldAll_substAll_foldAll body]
  | .breakLoop _ => rfl
  | .attempt body (some handler) span => by
    simp only [fold, subst, substAll, foldAll, List.append_nil, foldAll_substAll_foldAll body,
      foldAll_substAll_foldAll handler]
  | .attempt body none span => by
    simp only [fold, subst, substAll, foldAll, List.append_nil, foldAll_substAll_foldAll body]
  | .require .. => rfl
  | .block body span => by
    simp only [fold, subst, substAll, foldAll, List.append_nil, foldAll_substAll_foldAll body]

/-- **Folding before a variable is replaced makes no difference for folding afterwards.** -/
theorem foldAll_substAll_foldAll : ∀ stmts : List Stmt,
    foldAll (substAll var value (foldAll stmts)) = foldAll (substAll var value stmts)
  | [] => rfl
  | s :: rest => by
    rw [foldAll, substAll_append, foldAll_append, foldAll_substAll_fold s,
      foldAll_substAll_foldAll rest, substAll, foldAll]

/-- The same for branches: those that folding has dropped would be dropped again. -/
theorem foldBranches_substBranches : ∀ branches : List (Branch Stmt),
    foldBranches (substBranches var value branches) =
      ((foldBranches (substBranches var value (foldBranches branches).1)).1,
        (foldBranches (substBranches var value (foldBranches branches).1)).2.or
          ((foldBranches branches).2.map fun body => foldAll (substAll var value body)))
  | [] => rfl
  | ⟨cond, body, span⟩ :: rest => by
    have hbody := foldAll_substAll_foldAll body
    have hrest := foldBranches_substBranches rest
    rw [substBranches, foldBranches, foldBranches]
    cases htruth : cond.fold.truth? with
    | some truth =>
      rw [Expr.truth?_fold_subst htruth]
      cases truth with
      | true => simp only [substBranches, foldBranches, Option.map_some, Option.none_or, hbody]
      | false => exact hrest
    | none =>
      simp only [substBranches, foldBranches, Expr.fold_subst_fold, hbody]
      split
      · rfl
      · exact hrest
      · rw [hrest]

end

end Subst

end Stmt

/-- **Folding is idempotent**, with every place in a script, because what it leads to is exactly
what it leaves as it is: expressions without a node whose value is known, and statements made of
such expressions without a condition that is decided. -/
theorem folding_is_idempotent :
    (∀ e : Expr, e.fold.fold = e.fold ∧ (e.fold = e ↔ e.IsFolded)) ∧
      ∀ stmts : List Stmt, Stmt.foldAll (Stmt.foldAll stmts) = Stmt.foldAll stmts ∧
        (Stmt.foldAll stmts = stmts ↔ Form.normal.FitsAll stmts) := by
  refine ⟨fun e => ⟨e.fold_fold, fun h => ?_, Expr.fold_eq_self⟩, fun stmts =>
    ⟨Stmt.foldAll_foldAll stmts, fun h => ?_, fun h => h.foldAll_eq rfl⟩⟩
  · rw [← h]
    exact e.isFolded_fold
  · rw [← h]
    exact Form.normal_foldAll stmts

end EdgeScript
