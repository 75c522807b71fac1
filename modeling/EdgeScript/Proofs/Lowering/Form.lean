import EdgeScript.Proofs.Folding.Normal
import EdgeScript.Proofs.Rule.Lowering

/-!
# The forms of a script

Lowering brings a script into a form: with folding, nothing is left to be computed and no condition
to be decided; with the expansion of calls, no inline function is declared; with unrolling, no loop
stands outside of the bodies of functions.  A `Form` says which of these is asked for, and
`Form.Fits` what that means for all of a script, in the bodies of functions too.

Here is what the steps of the passes make of a form: folding, substituting a variable, and cutting a
round of a loop.
-/

set_option autoImplicit false

namespace EdgeScript

/-- What is asked of a script. -/
structure Form where
  /-- Every known operator is computed and every known condition decided. -/
  folded : Bool
  /-- No inline function is declared. -/
  inlined : Bool
  /-- No loop stands outside of the bodies of functions. -/
  unrolled : Bool
deriving DecidableEq, Repr

namespace Form

/-- The same without anything asked of expressions. -/
def unfolded (f : Form) : Form := { f with folded := false }

/-- The form of the body of a function, where loops may stay. -/
def inFunction (f : Form) : Form := { f with unrolled := false }

mutual

/-- The statement has the form. -/
def Fits (f : Form) : Stmt → Prop
  | .atom a => f.folded = true → ∀ e ∈ a.exprs, e.IsFolded
  | .function _ _ isInline body _ =>
    (f.inlined = true → isInline = false) ∧ FitsAll f.inFunction body
  | .ifChain branches (some body) _ =>
    (f.folded = true → branches ≠ []) ∧ FitsBranches f branches ∧ FitsAll f body
  | .ifChain branches none _ => (f.folded = true → branches ≠ []) ∧ FitsBranches f branches
  | .forLoop _ collection body _ =>
    f.unrolled = false ∧ (f.folded = true → collection.IsFolded) ∧ FitsAll f body
  | .attempt body (some handler) _ => FitsAll f body ∧ FitsAll f handler
  | .attempt body none _ => FitsAll f body
  | .block body _ => FitsAll f body
  | .breakLoop _ | .require .. => True

/-- All of the statements have the form. -/
def FitsAll (f : Form) : List Stmt → Prop
  | [] => True
  | s :: rest => Fits f s ∧ FitsAll f rest

/-- The branches have the form: no condition is decided yet, and the bodies have it. -/
def FitsBranches (f : Form) : List (Branch Stmt) → Prop
  | [] => True
  | ⟨cond, body, _⟩ :: rest =>
    (f.folded = true → cond.IsFolded ∧ cond.truth? = none) ∧ FitsAll f body ∧ FitsBranches f rest

end

variable {f : Form}

/-- Whatever is asked of a folded script holds where none is asked for. -/
theorem of_not_folded {P : Prop} (hf : f.folded = false) : f.folded = true → P :=
  fun h => absurd (hf.symm.trans h) Bool.false_ne_true

attribute [local simp] Fits FitsAll FitsBranches

@[simp]
theorem fitsAll_append {first second : List Stmt} :
    f.FitsAll (first ++ second) ↔ f.FitsAll first ∧ f.FitsAll second := by
  induction first with
  | nil => simp
  | cons s rest ih => simp [ih, and_assoc]

theorem fitsAll_singleton {s : Stmt} : f.FitsAll [s] ↔ f.Fits s := by
  simp

/-- A folded chain has at least one branch; an `else` that is missing is as good as an empty one. -/
theorem fits_ifChain {branches : List (Branch Stmt)} {otherwise : Option (List Stmt)}
    {span : Span} :
    f.Fits (.ifChain branches otherwise span) ↔
      (f.folded = true → branches ≠ []) ∧ f.FitsBranches branches ∧
        f.FitsAll (otherwise.getD []) := by
  cases otherwise <;> simp

/-! ## Weaker forms -/

/-- Where one form is asked for, the other is too. -/
structure Implies (f g : Form) : Prop where
  folded : g.folded = true → f.folded = true
  inlined : g.inlined = true → f.inlined = true
  unrolled : g.unrolled = true → f.unrolled = true

theorem Implies.inFunction {g : Form} (h : f.Implies g) : f.inFunction.Implies g.inFunction :=
  ⟨h.folded, h.inlined, id⟩

theorem Implies.not_unrolled {g : Form} (h : f.Implies g) (hf : f.unrolled = false) :
    g.unrolled = false := by
  cases hg : g.unrolled with
  | false => rfl
  | true => exact absurd (h.unrolled hg) (by simp [hf])

mutual

/-- A statement fits a form that asks for less. -/
theorem Fits.weaken {f g : Form} (h : f.Implies g) : ∀ {s}, f.Fits s → g.Fits s
  | .atom _, hs => fun hg => hs (h.folded hg)
  | .function .., hs => ⟨fun hg => hs.1 (h.inlined hg), FitsAll.weaken h.inFunction hs.2⟩
  | .ifChain _ (some _) _, hs =>
    ⟨fun hg => hs.1 (h.folded hg), FitsBranches.weaken h hs.2.1, FitsAll.weaken h hs.2.2⟩
  | .ifChain _ none _, hs => ⟨fun hg => hs.1 (h.folded hg), FitsBranches.weaken h hs.2⟩
  | .forLoop .., hs =>
    ⟨h.not_unrolled hs.1, fun hg => hs.2.1 (h.folded hg), FitsAll.weaken h hs.2.2⟩
  | .attempt _ (some _) _, hs => ⟨FitsAll.weaken h hs.1, FitsAll.weaken h hs.2⟩
  | .attempt _ none _, hs => FitsAll.weaken h hs
  | .block .., hs => FitsAll.weaken h hs
  | .breakLoop _, _ => trivial
  | .require .., _ => trivial

theorem FitsAll.weaken {f g : Form} (h : f.Implies g) : ∀ {stmts}, f.FitsAll stmts → g.FitsAll stmts
  | [], _ => trivial
  | _ :: _, hs => ⟨Fits.weaken h hs.1, FitsAll.weaken h hs.2⟩

theorem FitsBranches.weaken {f g : Form} (h : f.Implies g) :
    ∀ {branches}, f.FitsBranches branches → g.FitsBranches branches
  | [], _ => trivial
  | ⟨_, _, _⟩ :: _, hs =>
    ⟨fun hg => hs.1 (h.folded hg), FitsAll.weaken h hs.2.1, FitsBranches.weaken h hs.2.2⟩

end

/-- The form that asks for nothing. -/
def any : Form := ⟨false, false, false⟩

mutual

/-- Every statement fits the form that asks for nothing. -/
theorem fits_any : ∀ s, any.Fits s
  | .atom _ => of_not_folded rfl
  | .function _ _ _ body _ => ⟨fun h => absurd h Bool.false_ne_true, fitsAll_any body⟩
  | .ifChain branches (some body) _ =>
    ⟨of_not_folded rfl, fitsBranches_any branches, fitsAll_any body⟩
  | .ifChain branches none _ => ⟨of_not_folded rfl, fitsBranches_any branches⟩
  | .forLoop _ _ body _ => ⟨rfl, of_not_folded rfl, fitsAll_any body⟩
  | .attempt body (some handler) _ => ⟨fitsAll_any body, fitsAll_any handler⟩
  | .attempt body none _ => fitsAll_any body
  | .block body _ => fitsAll_any body
  | .breakLoop _ => trivial
  | .require .. => trivial

theorem fitsAll_any : ∀ stmts, any.FitsAll stmts
  | [] => trivial
  | s :: rest => ⟨fits_any s, fitsAll_any rest⟩

theorem fitsBranches_any : ∀ branches, any.FitsBranches branches
  | [] => trivial
  | ⟨_, body, _⟩ :: rest => ⟨of_not_folded rfl, fitsAll_any body, fitsBranches_any rest⟩

end

theorem Implies.unfolded (f : Form) : f.Implies f.unfolded :=
  ⟨of_not_folded (f := f.unfolded) rfl, id, id⟩

/-! ## Folding -/

/-- What is left of a folded chain fits if its parts do. -/
theorem fitsAll_ofChain {folded : List (Branch Stmt) × Option (List Stmt)}
    {otherwise : Option (List Stmt)} (span : Span) (hbranches : f.FitsBranches folded.1)
    (hlast : ∀ body ∈ folded.2, f.FitsAll body) (hotherwise : f.FitsAll (otherwise.getD [])) :
    f.FitsAll (Stmt.ofChain folded otherwise span) := by
  have hbody : f.FitsAll ((folded.2.or otherwise).getD []) := by
    cases hfolded : folded.2 with
    | none => exact hotherwise
    | some body => exact hlast body hfolded
  rw [Stmt.ofChain]
  split
  · exact hbody
  · rename_i hne
    exact fitsAll_singleton.2 (fits_ifChain.2 ⟨fun _ => hne, hbranches, hbody⟩)

mutual

/-- Folding brings a statement into a folded form, and keeps what else is asked of it. -/
theorem Fits.fold {f : Form} : ∀ {s}, f.unfolded.Fits s → f.FitsAll s.fold
  | .atom a, _ => by
    refine fitsAll_singleton.2 fun _ => ?_
    rw [Atom.exprs_mapExprs, List.forall_mem_map]
    exact fun e _ => e.isFolded_fold
  | .function .., h => fitsAll_singleton.2 ⟨h.1, FitsAll.fold h.2⟩
  | .ifChain _ (some _) span, h =>
    fitsAll_ofChain span (FitsBranches.fold h.2.1).1 (FitsBranches.fold h.2.1).2
      (FitsAll.fold h.2.2)
  | .ifChain _ none span, h =>
    fitsAll_ofChain span (FitsBranches.fold h.2).1 (FitsBranches.fold h.2).2 trivial
  | .forLoop _ collection _ _, h =>
    fitsAll_singleton.2 ⟨h.1, fun _ => collection.isFolded_fold, FitsAll.fold h.2.2⟩
  | .breakLoop _, _ => fitsAll_singleton.2 trivial
  | .attempt _ (some _) _, h => fitsAll_singleton.2 ⟨FitsAll.fold h.1, FitsAll.fold h.2⟩
  | .attempt _ none _, h => fitsAll_singleton.2 (FitsAll.fold h)
  | .require .., _ => fitsAll_singleton.2 trivial
  | .block .., h => fitsAll_singleton.2 (FitsAll.fold h)

/-- Whatever was asked of a script, folding gives the same and a folded script. -/
theorem FitsAll.fold {f : Form} :
    ∀ {stmts}, f.unfolded.FitsAll stmts → f.FitsAll (Stmt.foldAll stmts)
  | [], _ => trivial
  | _ :: _, h => fitsAll_append.2 ⟨Fits.fold h.1, FitsAll.fold h.2⟩

theorem FitsBranches.fold {f : Form} : ∀ {branches}, f.unfolded.FitsBranches branches →
    f.FitsBranches (Stmt.foldBranches branches).1 ∧
      ∀ body ∈ (Stmt.foldBranches branches).2, f.FitsAll body
  | [], _ => ⟨trivial, by simp [Stmt.foldBranches]⟩
  | ⟨cond, body, span⟩ :: rest, h => by
    have hbody := FitsAll.fold h.2.1
    have hrest := FitsBranches.fold h.2.2
    rw [Stmt.foldBranches]
    split
    · exact ⟨trivial, by simpa using hbody⟩
    · exact hrest
    · rename_i htruth
      exact ⟨⟨fun _ => ⟨cond.isFolded_fold, htruth⟩, hbody, hrest.1⟩, hrest.2⟩

end

end Form

/-! ## Nothing is left to be folded -/

/-- An atom stays as it is if its expressions do. -/
theorem Atom.mapExprs_eq_self {f : Expr → Expr} {a : Atom} (h : ∀ e ∈ a.exprs, f e = e) :
    a.mapExprs f = a := by
  have hlist {es : List Expr} (hes : ∀ e ∈ es, f e = e) : es.map f = es :=
    (List.map_congr_left hes).trans (List.map_id' es)
  have hoption {o : Option Expr} (ho : ∀ e ∈ o.toList, f e = e) : o.map f = o := by
    cases o with
    | none => rfl
    | some e => rw [Option.map_some, ho e (by simp)]
  cases a with
  | declare name value span => rw [mapExprs, hoption h]
  | assign target key value span =>
    rw [exprs, List.forall_mem_append, List.forall_mem_singleton] at h
    rw [mapExprs, hoption h.1, h.2]
  | expr e => rw [mapExprs, h e (by simp [exprs])]
  | ret value span => rw [mapExprs, hoption h]
  | inclusion kind options span =>
    rw [exprs, List.forall_mem_map] at h
    have hoptions : options.map (fun o => { o with value := f o.value }) = options :=
      (List.map_congr_left fun o ho => by rw [h o ho]).trans (List.map_id' options)
    rw [mapExprs, hoptions]
  | output kind args span =>
    rw [exprs] at h
    rw [mapExprs, hlist h]
  | comment text span => rfl

namespace Form

mutual

/-- What is folded already stays as it is. -/
theorem Fits.fold_eq {f : Form} (hf : f.folded = true) : ∀ {s}, f.Fits s → s.fold = [s]
  | .atom a, h => by
    rw [Stmt.fold, Atom.mapExprs_eq_self fun e he => Expr.fold_eq_self (h hf e he)]
  | .function .., h => by rw [Stmt.fold, FitsAll.foldAll_eq (f := f.inFunction) hf h.2]
  | .ifChain branches (some body) span, h => by
    rw [Stmt.fold, FitsBranches.foldBranches_eq hf h.2.1, FitsAll.foldAll_eq hf h.2.2]
    cases branches with
    | nil => exact absurd rfl (h.1 hf)
    | cons => rfl
  | .ifChain branches none span, h => by
    rw [Stmt.fold, FitsBranches.foldBranches_eq hf h.2]
    cases branches with
    | nil => exact absurd rfl (h.1 hf)
    | cons => rfl
  | .forLoop .., h => by rw [Stmt.fold, Expr.fold_eq_self (h.2.1 hf), FitsAll.foldAll_eq hf h.2.2]
  | .breakLoop _, _ => by rw [Stmt.fold]
  | .attempt _ (some _) _, h => by
    rw [Stmt.fold, FitsAll.foldAll_eq hf h.1, FitsAll.foldAll_eq hf h.2]
  | .attempt _ none _, h => by rw [Stmt.fold, FitsAll.foldAll_eq hf h]
  | .require .., _ => by rw [Stmt.fold]
  | .block .., h => by rw [Stmt.fold, FitsAll.foldAll_eq hf h]

/-- **Folding leaves a folded script as it is.** -/
theorem FitsAll.foldAll_eq {f : Form} (hf : f.folded = true) :
    ∀ {stmts}, f.FitsAll stmts → Stmt.foldAll stmts = stmts
  | [], _ => by rw [Stmt.foldAll]
  | _ :: _, h => by
    rw [Stmt.foldAll, Fits.fold_eq hf h.1, FitsAll.foldAll_eq hf h.2, List.singleton_append]

theorem FitsBranches.foldBranches_eq {f : Form} (hf : f.folded = true) :
    ∀ {branches}, f.FitsBranches branches → Stmt.foldBranches branches = (branches, none)
  | [], _ => by rw [Stmt.foldBranches]
  | ⟨cond, body, span⟩ :: rest, h => by
    obtain ⟨hcond, htruth⟩ := h.1 hf
    rw [Stmt.foldBranches, Expr.fold_eq_self hcond, htruth, FitsBranches.foldBranches_eq hf h.2.2,
      FitsAll.foldAll_eq hf h.2.1]

end

/-! ## Substitution -/

section Subst

variable {var : String} {value : Expr}

mutual

/-- Replacing a variable keeps all of a form but that it is folded. -/
theorem Fits.subst {f : Form} (hf : f.folded = false) : ∀ {s}, f.Fits s → f.Fits (s.subst var value)
  | .atom _, _ => of_not_folded hf
  | .function .., h => h
  | .ifChain _ (some _) _, h =>
    ⟨of_not_folded hf, FitsBranches.subst hf h.2.1,
      FitsAll.subst hf h.2.2⟩
  | .ifChain _ none _, h =>
    ⟨of_not_folded hf, FitsBranches.subst hf h.2⟩
  | .forLoop inner collection body span, h => by
    refine ⟨h.1, of_not_folded hf, ?_⟩
    split
    · exact h.2.2
    · exact FitsAll.subst hf h.2.2
  | .breakLoop _, h => h
  | .attempt _ (some _) _, h => ⟨FitsAll.subst hf h.1, FitsAll.subst hf h.2⟩
  | .attempt _ none _, h => FitsAll.subst hf h
  | .require .., h => h
  | .block .., h => FitsAll.subst hf h

/-- Where nothing is asked of expressions, a variable can be replaced. -/
theorem FitsAll.subst {f : Form} (hf : f.folded = false) :
    ∀ {stmts}, f.FitsAll stmts → f.FitsAll (Stmt.substAll var value stmts)
  | [], _ => trivial
  | _ :: _, h => ⟨Fits.subst hf h.1, FitsAll.subst hf h.2⟩

theorem FitsBranches.subst {f : Form} (hf : f.folded = false) :
    ∀ {branches}, f.FitsBranches branches → f.FitsBranches (Stmt.substBranches var value branches)
  | [], _ => trivial
  | ⟨_, _, _⟩ :: _, h =>
    ⟨of_not_folded hf, FitsAll.subst hf h.2.1,
      FitsBranches.subst hf h.2.2⟩

end

end Subst

/-! ## Leaving a loop -/

mutual

/-- What is kept of a round fits what the body fits. -/
theorem Fits.cut {f : Form} :
    ∀ {s kept broke}, f.Fits s → Stmt.cut s = .ok (kept, broke) → f.FitsAll kept
  | .breakLoop _, kept, broke, _, hcut => by
    rw [Stmt.cut] at hcut
    cases hcut
    trivial
  | .block body span, kept, broke, h, hcut => by
    rw [Stmt.cut] at hcut
    split at hcut
    · rename_i hbody
      cases hcut
      exact fitsAll_singleton.2 (FitsAll.cutAtBreak h hbody)
    · cases hcut
  | .ifChain .., kept, broke, h, hcut | .attempt .., kept, broke, h, hcut => by
    rw [Stmt.cut] at hcut
    split at hcut <;> cases hcut
    exact fitsAll_singleton.2 h
  | .atom _, kept, broke, h, hcut | .function .., kept, broke, h, hcut
  | .forLoop .., kept, broke, h, hcut | .require .., kept, broke, h, hcut => by
    rw [Stmt.cut] at hcut
    cases hcut
    exact fitsAll_singleton.2 h

theorem FitsAll.cutAtBreak {f : Form} : ∀ {stmts kept broke}, f.FitsAll stmts →
    Stmt.cutAtBreak stmts = .ok (kept, broke) → f.FitsAll kept
  | [], kept, broke, _, hcut => by
    rw [Stmt.cutAtBreak] at hcut
    cases hcut
    trivial
  | s :: rest, kept, broke, h, hcut => by
    rw [Stmt.cutAtBreak] at hcut
    split at hcut
    · cases hcut
    · rename_i hs
      cases hcut
      exact Fits.cut h.1 hs
    · rename_i hs
      split at hcut
      · rename_i hrest
        cases hcut
        exact fitsAll_append.2 ⟨Fits.cut h.1 hs, FitsAll.cutAtBreak h.2 hrest⟩
      · cases hcut

end

end Form

end EdgeScript
