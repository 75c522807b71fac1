import EdgeScript.Proofs.Leftover.Place

/-!
# What rewriting leaves

Folding and substitution leave statements with what they had: they change expressions, and a literal
stays a literal.  Neither puts loops deeper inside each other.  Cutting a round of a loop leaves no
`break` of it.
-/

set_option autoImplicit false

namespace EdgeScript

/-! ## Literals stay literals -/

namespace Expr

/-- What a literal becomes is a literal. -/
def KeepsLiterals (f : Expr → Expr) : Prop :=
  ∀ e : Expr, e.literal?.isSome = true → (f e).literal?.isSome = true

/-- Folding leaves a literal as it is. -/
theorem keepsLiterals_fold : KeepsLiterals fold := by
  intro e he
  cases e with
  | lit value span => exact he
  | _ => cases he

/-- There is no name to be replaced in a literal. -/
theorem keepsLiterals_subst (bound : String → Option Expr) : KeepsLiterals (subst bound) := by
  intro e he
  cases e with
  | lit value span => exact he
  | _ => cases he

end Expr

/-- So raw output of a literal stays raw output of a literal. -/
theorem Atom.within_mapExprs {f : Expr → Expr} (hf : Expr.KeepsLiterals f) {a : Allowed}
    {atom : Atom} (h : atom.within a = true) : (atom.mapExprs f).within a = true := by
  cases atom with
  | output kind args span =>
    cases kind with
    | printRaw =>
      rw [within, List.all_eq_true] at h
      simp only [mapExprs, within, List.all_map, List.all_eq_true]
      exact fun e he => hf e (h e he)
    | _ => rfl
  | _ => exact h

namespace Stmt

/-! ## Folding -/

/-- A folded chain has what its branches and the bodies that are left have. -/
theorem withinAll_ofChain {a : Allowed} {folded : List (Branch Stmt) × Option (List Stmt)}
    {otherwise : Option (List Stmt)} (span : Span)
    (hbranches : withinBranches a folded.1 = true)
    (hlast : ∀ body ∈ folded.2, withinAll a body = true)
    (hotherwise : withinAll a (otherwise.getD []) = true) :
    withinAll a (ofChain folded otherwise span) = true := by
  have hbody : withinAll a ((folded.2.or otherwise).getD []) = true := by
    cases hfolded : folded.2 with
    | none => exact hotherwise
    | some body => exact hlast body hfolded
  rw [ofChain]
  split
  · exact hbody
  · rw [withinAll, within_ifChain, hbranches, hbody]
    rfl

mutual

/-- Folding brings in nothing that is not allowed. -/
theorem withinAll_fold {a : Allowed} : ∀ {s}, within a s = true → withinAll a (fold s) = true
  | .atom _, h => by
    rw [within] at h
    rw [fold, withinAll, within, Atom.within_mapExprs Expr.keepsLiterals_fold h, withinAll]
    rfl
  | .function .., _ => by rw [fold, withinAll, within, withinAll]; rfl
  | .ifChain branches (some body) span, h => by
    rw [within, Bool.and_eq_true] at h
    rw [fold]
    obtain ⟨hbranches, hlast⟩ := within_foldBranches h.1
    exact withinAll_ofChain span hbranches hlast (withinAll_foldAll h.2)
  | .ifChain branches none span, h => by
    rw [within] at h
    rw [fold]
    obtain ⟨hbranches, hlast⟩ := within_foldBranches h
    exact withinAll_ofChain span hbranches hlast rfl
  | .forLoop _ _ body _, h => by
    rw [within, Bool.and_eq_true] at h
    rw [fold, withinAll, within, h.1, withinAll_foldAll h.2, withinAll]
    rfl
  | .breakLoop _, h => by
    rw [within] at h
    rw [fold, withinAll, within, h, withinAll]
    rfl
  | .attempt body (some handler) _, h => by
    rw [within, Bool.and_eq_true] at h
    rw [fold, withinAll, within, withinAll_foldAll h.1, withinAll_foldAll h.2, withinAll]
    rfl
  | .attempt body none _, h => by
    rw [within] at h
    rw [fold, withinAll, within, withinAll_foldAll h, withinAll]
    rfl
  | .require .., h => by
    rw [within] at h
    rw [fold, withinAll, within, h, withinAll]
    rfl
  | .block body _, h => by
    rw [within] at h
    rw [fold, withinAll, within, withinAll_foldAll h, withinAll]
    rfl

theorem withinAll_foldAll {a : Allowed} :
    ∀ {stmts}, withinAll a stmts = true → withinAll a (foldAll stmts) = true
  | [], _ => by rw [foldAll, withinAll]
  | s :: rest, h => by
    rw [withinAll, Bool.and_eq_true] at h
    rw [foldAll, withinAll_append, withinAll_fold h.1, withinAll_foldAll h.2]
    rfl

theorem within_foldBranches {a : Allowed} :
    ∀ {branches}, withinBranches a branches = true →
      withinBranches a (foldBranches branches).1 = true ∧
        ∀ body ∈ (foldBranches branches).2, withinAll a body = true
  | [], _ => by
    rw [foldBranches]
    exact ⟨rfl, by simp⟩
  | ⟨cond, body, span⟩ :: rest, h => by
    rw [withinBranches, Bool.and_eq_true] at h
    have hbody := withinAll_foldAll h.1
    have hrest := within_foldBranches h.2
    rw [foldBranches]
    split
    · exact ⟨rfl, by simpa using hbody⟩
    · exact hrest
    · exact ⟨by rw [withinBranches, hbody, hrest.1]; rfl, hrest.2⟩

end

/-! ## Substitution -/

mutual

/-- Neither does replacing a variable. -/
theorem within_subst {a : Allowed} (var : String) (value : Expr) :
    ∀ {s}, within a s = true → within a (subst var value s) = true
  | .atom _, h => by
    rw [within] at h
    rw [subst, within, Atom.within_mapExprs (Expr.keepsLiterals_subst _) h]
  | .function .., _ => by rw [subst, within]
  | .ifChain branches (some body) _, h => by
    rw [within, Bool.and_eq_true] at h
    rw [subst, within, within_substBranches var value h.1, within_substAll var value h.2]
    rfl
  | .ifChain branches none _, h => by
    rw [within] at h
    rw [subst, within, within_substBranches var value h]
  | .forLoop inner collection body _, h => by
    rw [within, Bool.and_eq_true] at h
    rw [subst, within, h.1, Bool.true_and]
    split
    · exact h.2
    · exact within_substAll var value h.2
  | .breakLoop _, h => by
    rw [within] at h
    rw [subst, within, h]
  | .attempt body (some handler) _, h => by
    rw [within, Bool.and_eq_true] at h
    rw [subst, within, within_substAll var value h.1, within_substAll var value h.2]
    rfl
  | .attempt body none _, h => by
    rw [within] at h
    rw [subst, within, within_substAll var value h]
  | .require .., h => by
    rw [within] at h
    rw [subst, within, h]
  | .block body _, h => by
    rw [within] at h
    rw [subst, within, within_substAll var value h]

theorem within_substAll {a : Allowed} (var : String) (value : Expr) :
    ∀ {stmts}, withinAll a stmts = true → withinAll a (substAll var value stmts) = true
  | [], _ => by rw [substAll, withinAll]
  | s :: rest, h => by
    rw [withinAll, Bool.and_eq_true] at h
    rw [substAll, withinAll, within_subst var value h.1, within_substAll var value h.2]
    rfl

theorem within_substBranches {a : Allowed} (var : String) (value : Expr) :
    ∀ {branches}, withinBranches a branches = true →
      withinBranches a (substBranches var value branches) = true
  | [], _ => by rw [substBranches, withinBranches]
  | ⟨_, body, _⟩ :: rest, h => by
    rw [withinBranches, Bool.and_eq_true] at h
    rw [substBranches, withinBranches, within_substAll var value h.1,
      within_substBranches var value h.2]
    rfl

end

/-! ## The depth of loops -/

mutual

/-- Replacing a variable leaves the loops. -/
theorem loopDepth_subst (var : String) (value : Expr) :
    ∀ s, loopDepth (subst var value s) = loopDepth s
  | .atom _ => by rw [subst, loopDepth, loopDepth]
  | .function .. => by rw [subst]
  | .ifChain branches (some body) _ => by
    rw [subst, loopDepth, loopDepth, loopDepth_substBranches var value branches,
      loopDepth_substAll var value body]
  | .ifChain branches none _ => by
    rw [subst, loopDepth, loopDepth, loopDepth_substBranches var value branches]
  | .forLoop inner collection body _ => by
    rw [subst, loopDepth, loopDepth]
    split
    · rfl
    · rw [loopDepth_substAll var value body]
  | .breakLoop _ => by rw [subst]
  | .attempt body (some handler) _ => by
    rw [subst, loopDepth, loopDepth, loopDepth_substAll var value body,
      loopDepth_substAll var value handler]
  | .attempt body none _ => by
    rw [subst, loopDepth, loopDepth, loopDepth_substAll var value body]
  | .require .. => by rw [subst]
  | .block body _ => by rw [subst, loopDepth, loopDepth, loopDepth_substAll var value body]

theorem loopDepth_substAll (var : String) (value : Expr) :
    ∀ stmts, loopDepthAll (substAll var value stmts) = loopDepthAll stmts
  | [] => by rw [substAll]
  | s :: rest => by
    rw [substAll, loopDepthAll, loopDepthAll, loopDepth_subst var value s,
      loopDepth_substAll var value rest]

theorem loopDepth_substBranches (var : String) (value : Expr) :
    ∀ branches, loopDepthBranches (substBranches var value branches) = loopDepthBranches branches
  | [] => by rw [substBranches]
  | ⟨_, body, _⟩ :: rest => by
    rw [substBranches, loopDepthBranches, loopDepthBranches, loopDepth_substAll var value body,
      loopDepth_substBranches var value rest]

end

theorem loopDepthAll_append (first second : List Stmt) :
    loopDepthAll (first ++ second) = max (loopDepthAll first) (loopDepthAll second) := by
  induction first with
  | nil => rw [List.nil_append, loopDepthAll, Nat.zero_max]
  | cons s rest ih => rw [List.cons_append, loopDepthAll, loopDepthAll, ih, Nat.max_assoc]

theorem loopDepthAll_singleton (s : Stmt) : loopDepthAll [s] = loopDepth s := by
  rw [loopDepthAll, loopDepthAll, Nat.max_zero]

theorem loopDepth_ifChain (branches : List (Branch Stmt)) (otherwise : Option (List Stmt))
    (span : Span) :
    loopDepth (.ifChain branches otherwise span) =
      max (loopDepthBranches branches) (loopDepthAll (otherwise.getD [])) := by
  cases otherwise with
  | none => rw [loopDepth, Option.getD_none, loopDepthAll, Nat.max_zero]
  | some body => rw [loopDepth, Option.getD_some]

/-- No loop of a folded chain is deeper than those of its parts. -/
theorem loopDepthAll_ofChain_le {depth : Nat} {folded : List (Branch Stmt) × Option (List Stmt)}
    {otherwise : Option (List Stmt)} (span : Span)
    (hbranches : loopDepthBranches folded.1 ≤ depth)
    (hlast : ∀ body ∈ folded.2, loopDepthAll body ≤ depth)
    (hotherwise : loopDepthAll (otherwise.getD []) ≤ depth) :
    loopDepthAll (ofChain folded otherwise span) ≤ depth := by
  have hbody : loopDepthAll ((folded.2.or otherwise).getD []) ≤ depth := by
    cases hfolded : folded.2 with
    | none => exact hotherwise
    | some body => exact hlast body hfolded
  rw [ofChain]
  split
  · exact hbody
  · rw [loopDepthAll_singleton, loopDepth_ifChain]
    exact Nat.max_le.2 ⟨hbranches, hbody⟩

mutual

/-- Folding may drop loops with a dead branch and makes no new ones. -/
theorem loopDepthAll_fold_le : ∀ s, loopDepthAll (fold s) ≤ loopDepth s
  | .atom _ => by
    rw [fold, loopDepthAll_singleton, loopDepth]
    exact Nat.zero_le _
  | .function _ _ _ body _ => by
    rw [fold, loopDepthAll_singleton, loopDepth, loopDepth]
    exact loopDepthAll_foldAll_le body
  | .ifChain branches (some body) span => by
    have hbranches := loopDepth_foldBranches_le branches
    have hbody := loopDepthAll_foldAll_le body
    rw [fold, loopDepth]
    refine loopDepthAll_ofChain_le span (Nat.le_trans hbranches.1 (Nat.le_max_left ..))
      (fun stmts hstmts => ?_) (Nat.le_trans hbody (Nat.le_max_right ..))
    exact Nat.le_trans (hbranches.2 stmts hstmts) (Nat.le_max_left ..)
  | .ifChain branches none span => by
    have hbranches := loopDepth_foldBranches_le branches
    rw [fold, loopDepth]
    exact loopDepthAll_ofChain_le span hbranches.1 hbranches.2 (Nat.zero_le _)
  | .forLoop _ _ body _ => by
    rw [fold, loopDepthAll_singleton, loopDepth, loopDepth]
    exact Nat.succ_le_succ (loopDepthAll_foldAll_le body)
  | .breakLoop _ => Nat.le_of_eq (by rw [fold, loopDepthAll_singleton])
  | .attempt body (some handler) _ => by
    have hbody := loopDepthAll_foldAll_le body
    have hhandler := loopDepthAll_foldAll_le handler
    rw [fold, loopDepthAll_singleton, loopDepth, loopDepth]
    omega
  | .attempt body none _ => by
    rw [fold, loopDepthAll_singleton, loopDepth, loopDepth]
    exact loopDepthAll_foldAll_le body
  | .require .. => Nat.le_of_eq (by rw [fold, loopDepthAll_singleton])
  | .block body _ => by
    rw [fold, loopDepthAll_singleton, loopDepth, loopDepth]
    exact loopDepthAll_foldAll_le body

theorem loopDepthAll_foldAll_le : ∀ stmts, loopDepthAll (foldAll stmts) ≤ loopDepthAll stmts
  | [] => Nat.le_of_eq (by rw [foldAll])
  | s :: rest => by
    have hs := loopDepthAll_fold_le s
    have hrest := loopDepthAll_foldAll_le rest
    rw [foldAll, loopDepthAll_append, loopDepthAll]
    omega

theorem loopDepth_foldBranches_le :
    ∀ branches, loopDepthBranches (foldBranches branches).1 ≤ loopDepthBranches branches ∧
      ∀ body ∈ (foldBranches branches).2, loopDepthAll body ≤ loopDepthBranches branches
  | [] => by
    rw [foldBranches]
    exact ⟨Nat.le_refl _, by simp⟩
  | ⟨cond, body, span⟩ :: rest => by
    have hbody := loopDepthAll_foldAll_le body
    have hrest := loopDepth_foldBranches_le rest
    rw [foldBranches, loopDepthBranches]
    split
    · refine ⟨Nat.zero_le _, fun stmts hstmts => ?_⟩
      cases hstmts
      omega
    · exact ⟨Nat.le_trans hrest.1 (Nat.le_max_right ..), fun stmts hstmts =>
        Nat.le_trans (hrest.2 stmts hstmts) (Nat.le_max_right ..)⟩
    · refine ⟨?_, fun stmts hstmts =>
        Nat.le_trans (hrest.2 stmts hstmts) (Nat.le_max_right ..)⟩
      rw [loopDepthBranches]
      omega

end

/-- A copy of the body of a loop has no deeper loops than the body. -/
theorem loopDepthAll_copy_le (var : String) (value : Expr) (body : List Stmt) :
    loopDepthAll (foldAll (substAll var value body)) ≤ loopDepthAll body :=
  Nat.le_trans (loopDepthAll_foldAll_le _) (Nat.le_of_eq (loopDepth_substAll var value body))

/-! ## Leaving a loop -/

end Stmt

/-- What may stand at a place outside of all loops. -/
def Allowed.outOfLoop (allowed : Allowed) : Allowed := { allowed with breaks := false }

namespace Stmt

mutual

/-- Without a `break` of its own, what is allowed in a loop is allowed outside. -/
theorem within_outOfLoop {a : Allowed} :
    ∀ {s}, hasBreak s = false → within a s = true → within a.outOfLoop s = true
  | .breakLoop _, hs, _ => by
    rw [hasBreak] at hs
    cases hs
  | .ifChain branches (some body) _, hs, h => by
    rw [hasBreak, Bool.or_eq_false_iff] at hs
    rw [within, Bool.and_eq_true] at h
    rw [within, within_outOfLoopBranches hs.1 h.1, within_outOfLoopAll hs.2 h.2]
    rfl
  | .ifChain branches none _, hs, h => by
    rw [hasBreak] at hs
    rw [within] at h
    rw [within, within_outOfLoopBranches hs h]
  | .attempt body (some handler) _, hs, h => by
    rw [hasBreak, Bool.or_eq_false_iff] at hs
    rw [within, Bool.and_eq_true] at h
    rw [within, within_outOfLoopAll hs.1 h.1, within_outOfLoopAll hs.2 h.2]
    rfl
  | .attempt body none _, hs, h => by
    rw [hasBreak] at hs
    rw [within] at h
    rw [within, within_outOfLoopAll hs h]
  | .block body _, hs, h => by
    rw [hasBreak] at hs
    rw [within] at h
    rw [within, within_outOfLoopAll hs h]
  | .atom x, _, h => by
    rw [within] at h ⊢
    cases x <;> exact h
  | .function .., _, _ => by rw [within]
  | .forLoop .., _, h => by
    -- the `break`s in a loop are its own
    rw [within] at h ⊢
    exact h
  | .require .., _, h => by
    rw [within] at h ⊢
    exact h

theorem within_outOfLoopAll {a : Allowed} :
    ∀ {stmts}, hasBreakAny stmts = false → withinAll a stmts = true →
      withinAll a.outOfLoop stmts = true
  | [], _, _ => by rw [withinAll]
  | s :: rest, hs, h => by
    rw [hasBreakAny, Bool.or_eq_false_iff] at hs
    rw [withinAll, Bool.and_eq_true] at h
    rw [withinAll, within_outOfLoop hs.1 h.1, within_outOfLoopAll hs.2 h.2]
    rfl

theorem within_outOfLoopBranches {a : Allowed} :
    ∀ {branches}, hasBreakBranches branches = false → withinBranches a branches = true →
      withinBranches a.outOfLoop branches = true
  | [], _, _ => by rw [withinBranches]
  | ⟨_, body, _⟩ :: rest, hs, h => by
    rw [hasBreakBranches, Bool.or_eq_false_iff] at hs
    rw [withinBranches, Bool.and_eq_true] at h
    rw [withinBranches, within_outOfLoopAll hs.1 h.1, within_outOfLoopBranches hs.2 h.2]
    rfl

end

/-- A statement without a `break` is kept. -/
theorem cleanResult_kept {a : Allowed} {s : Stmt} (hs : hasBreak s = false)
    (h : within a s = true) :
    CleanResult (.ok ([s], false)) fun r => withinAll a.outOfLoop r.1 = true := by
  rw [CleanResult, withinAll, within_outOfLoop hs h, withinAll]
  rfl

mutual

/-- What is kept of a round has no `break` left, so it may stand outside of the loop. -/
theorem cleanResult_cut {a : Allowed} :
    ∀ {s}, within a s = true → CleanResult (cut s) fun r => withinAll a.outOfLoop r.1 = true
  | .breakLoop _, _ => by
    rw [cut]
    rfl
  | .block body span, h => by
    rw [within] at h
    have hbody := cleanResult_cutAtBreak h
    rw [cut]
    cases hcut : cutAtBreak body with
    | error e =>
      rw [hcut] at hbody
      exact hbody
    | ok r =>
      rw [hcut, CleanResult] at hbody
      rw [CleanResult, withinAll, within, hbody, withinAll]
      rfl
  | .ifChain branches otherwise span, h => by
    rw [cut]
    split
    · rfl
    · rename_i hbreak
      exact cleanResult_kept (Bool.eq_false_iff.2 hbreak) h
  | .attempt body handler span, h => by
    rw [cut]
    split
    · rfl
    · rename_i hbreak
      exact cleanResult_kept (Bool.eq_false_iff.2 hbreak) h
  | .atom _, h => by
    rw [cut]
    exact cleanResult_kept (by rw [hasBreak]) h
  | .function .., h => by
    rw [cut]
    exact cleanResult_kept (by rw [hasBreak]) h
  | .forLoop .., h => by
    rw [cut]
    exact cleanResult_kept (by rw [hasBreak]) h
  | .require .., h => by
    rw [cut]
    exact cleanResult_kept (by rw [hasBreak]) h

/-- **A round has no `break` left.** -/
theorem cleanResult_cutAtBreak {a : Allowed} :
    ∀ {stmts}, withinAll a stmts = true →
      CleanResult (cutAtBreak stmts) fun r => withinAll a.outOfLoop r.1 = true
  | [], _ => by
    rw [cutAtBreak]
    rfl
  | s :: rest, h => by
    rw [withinAll, Bool.and_eq_true] at h
    have hs := cleanResult_cut h.1
    have hrest := cleanResult_cutAtBreak h.2
    rw [cutAtBreak]
    rcases hcut : cut s with e | ⟨kept, _ | _⟩ <;> rw [hcut, CleanResult] at hs
    · exact hs
    · cases hcut' : cutAtBreak rest with
      | error e =>
        rw [hcut'] at hrest
        exact hrest
      | ok r =>
        rw [hcut', CleanResult] at hrest
        rw [CleanResult, withinAll_append, hs, hrest]
        rfl
    · exact hs

end

end Stmt

end EdgeScript
