import EdgeScript.Loop.Unroll
import EdgeScript.Proofs.Leftover.Expansion

/-!
# Rules for all of a script

A `Rule` says something of a statement without statements inside, and something of a condition.  It
holds of a script if it holds of all of them, at any depth and in the bodies of functions too.

Putting units in the places of their requests, folding, substituting a variable and cutting a round
of a loop make new scripts out of what is there, so a rule goes on to hold if it survives what these
do to an expression (`Rule.Survives`).
-/

set_option autoImplicit false

namespace EdgeScript

theorem Atom.exprs_mapExprs (f : Expr → Expr) (a : Atom) :
    (a.mapExprs f).exprs = a.exprs.map f := by
  cases a <;> simp [mapExprs, exprs, Option.toList_map]

/-- Rewriting the expressions of an atom leaves the variable that it sets. -/
theorem Atom.assigned?_mapExprs (f : Expr → Expr) (a : Atom) :
    (a.mapExprs f).assigned? = a.assigned? := by
  cases a <;> rfl

/-- What is to hold of the atoms and of the conditions of a script. -/
structure Rule where
  atom : Atom → Prop
  cond : Expr → Prop

namespace Rule

mutual

/-- The rule holds of all of a statement. -/
def Holds (r : Rule) : Stmt → Prop
  | .atom a => r.atom a
  | .function _ _ _ body _ => HoldsAll r body
  | .ifChain branches (some body) _ => HoldsBranches r branches ∧ HoldsAll r body
  | .ifChain branches none _ => HoldsBranches r branches
  | .forLoop _ _ body _ => HoldsAll r body
  | .attempt body (some handler) _ => HoldsAll r body ∧ HoldsAll r handler
  | .attempt body none _ => HoldsAll r body
  | .block body _ => HoldsAll r body
  | .breakLoop _ | .require .. => True

/-- The rule holds of all of the statements. -/
def HoldsAll (r : Rule) : List Stmt → Prop
  | [] => True
  | s :: rest => Holds r s ∧ HoldsAll r rest

/-- The rule holds of the conditions of branches and of all of their bodies. -/
def HoldsBranches (r : Rule) : List (Branch Stmt) → Prop
  | [] => True
  | ⟨cond, body, _⟩ :: rest => r.cond cond ∧ HoldsAll r body ∧ HoldsBranches r rest

end

variable {r : Rule}

attribute [local simp] Holds HoldsAll HoldsBranches

@[simp]
theorem holdsAll_append {first second : List Stmt} :
    r.HoldsAll (first ++ second) ↔ r.HoldsAll first ∧ r.HoldsAll second := by
  induction first with
  | nil => simp
  | cons s rest ih => simp [ih, and_assoc]

/-- A rule holds of statements if it holds of each of them. -/
theorem holdsAll_iff {stmts : List Stmt} : r.HoldsAll stmts ↔ ∀ s ∈ stmts, r.Holds s := by
  induction stmts with
  | nil => simp
  | cons s rest ih => simp [ih]

theorem holdsBranches_iff {branches : List (Branch Stmt)} :
    r.HoldsBranches branches ↔ ∀ b ∈ branches, r.cond b.cond ∧ r.HoldsAll b.body := by
  induction branches with
  | nil => simp
  | cons b rest ih => simp [ih, and_assoc]

/-- An `else` that is missing is as good as an empty one. -/
theorem holds_ifChain {branches : List (Branch Stmt)} {otherwise : Option (List Stmt)}
    {span : Span} :
    r.Holds (.ifChain branches otherwise span) ↔
      r.HoldsBranches branches ∧ r.HoldsAll (otherwise.getD []) := by
  cases otherwise <;> simp

/-- A handler that is missing is as good as an empty one. -/
theorem holds_attempt {body : List Stmt} {handler : Option (List Stmt)} {span : Span} :
    r.Holds (.attempt body handler span) ↔ r.HoldsAll body ∧ r.HoldsAll (handler.getD []) := by
  cases handler <;> simp

/-! ## Rules of everything -/

mutual

/-- A rule that holds of every atom and of every condition holds of every statement. -/
theorem holds_of_forall (hatom : ∀ a, r.atom a) (hcond : ∀ e, r.cond e) : ∀ s, r.Holds s
  | .atom a => hatom a
  | .function _ _ _ body _ => holdsAll_of_forall hatom hcond body
  | .ifChain branches (some body) _ =>
    ⟨holdsBranches_of_forall hatom hcond branches, holdsAll_of_forall hatom hcond body⟩
  | .ifChain branches none _ => holdsBranches_of_forall hatom hcond branches
  | .forLoop _ _ body _ => holdsAll_of_forall hatom hcond body
  | .attempt body (some handler) _ =>
    ⟨holdsAll_of_forall hatom hcond body, holdsAll_of_forall hatom hcond handler⟩
  | .attempt body none _ => holdsAll_of_forall hatom hcond body
  | .block body _ => holdsAll_of_forall hatom hcond body
  | .breakLoop _ => trivial
  | .require .. => trivial

theorem holdsAll_of_forall (hatom : ∀ a, r.atom a) (hcond : ∀ e, r.cond e) :
    ∀ stmts, r.HoldsAll stmts
  | [] => trivial
  | s :: rest => ⟨holds_of_forall hatom hcond s, holdsAll_of_forall hatom hcond rest⟩

theorem holdsBranches_of_forall (hatom : ∀ a, r.atom a) (hcond : ∀ e, r.cond e) :
    ∀ branches, r.HoldsBranches branches
  | [] => trivial
  | ⟨cond, body, _⟩ :: rest =>
    ⟨hcond cond, holdsAll_of_forall hatom hcond body, holdsBranches_of_forall hatom hcond rest⟩

end

/-! ## Weaker rules -/

mutual

/-- A rule holds wherever a stronger one does. -/
theorem Holds.mono {r' : Rule} (hatom : ∀ a, r.atom a → r'.atom a)
    (hcond : ∀ e, r.cond e → r'.cond e) : ∀ {s}, r.Holds s → r'.Holds s
  | .atom a, h => hatom a h
  | .function _ _ _ _ _, h => HoldsAll.mono hatom hcond h
  | .ifChain _ (some _) _, h => ⟨HoldsBranches.mono hatom hcond h.1, HoldsAll.mono hatom hcond h.2⟩
  | .ifChain _ none _, h => HoldsBranches.mono hatom hcond h
  | .forLoop _ _ _ _, h => HoldsAll.mono hatom hcond h
  | .attempt _ (some _) _, h => ⟨HoldsAll.mono hatom hcond h.1, HoldsAll.mono hatom hcond h.2⟩
  | .attempt _ none _, h => HoldsAll.mono hatom hcond h
  | .block _ _, h => HoldsAll.mono hatom hcond h
  | .breakLoop _, _ => trivial
  | .require .., _ => trivial

theorem HoldsAll.mono {r' : Rule} (hatom : ∀ a, r.atom a → r'.atom a)
    (hcond : ∀ e, r.cond e → r'.cond e) : ∀ {stmts}, r.HoldsAll stmts → r'.HoldsAll stmts
  | [], _ => trivial
  | _ :: _, h => ⟨Holds.mono hatom hcond h.1, HoldsAll.mono hatom hcond h.2⟩

theorem HoldsBranches.mono {r' : Rule} (hatom : ∀ a, r.atom a → r'.atom a)
    (hcond : ∀ e, r.cond e → r'.cond e) :
    ∀ {branches}, r.HoldsBranches branches → r'.HoldsBranches branches
  | [], _ => trivial
  | ⟨cond, _, _⟩ :: _, h =>
    ⟨hcond cond h.1, HoldsAll.mono hatom hcond h.2.1, HoldsBranches.mono hatom hcond h.2.2⟩

end

/-! ## Filling the places of requests -/

section Fill

variable (order : WalkOrder)

mutual

/-- A rule goes on to hold when requests are replaced by parts of which it holds. -/
theorem Holds.fill : ∀ {s parts}, r.Holds s → (∀ part ∈ parts, r.HoldsAll part) →
    r.HoldsAll (Stmt.fill order s parts)
  | .require .., [], _, _ => trivial
  | .require .., part :: _, _, hparts => hparts part (List.mem_cons_self ..)
  | .function .., _, h, hparts => ⟨HoldsAll.fill h hparts, trivial⟩
  | .ifChain _ (some _) _, _, h, hparts =>
    ⟨⟨HoldsBranches.fill h.1 fun part hp => hparts part (List.mem_of_mem_take hp),
      HoldsAll.fill h.2 fun part hp => hparts part (List.mem_of_mem_drop hp)⟩, trivial⟩
  | .ifChain _ none _, _, h, hparts => ⟨HoldsBranches.fill h hparts, trivial⟩
  | .forLoop .., _, h, hparts => ⟨HoldsAll.fill h hparts, trivial⟩
  | .breakLoop _, _, h, _ => ⟨h, trivial⟩
  | .attempt _ (some _) _, _, h, hparts =>
    ⟨⟨HoldsAll.fill h.1 fun part hp => hparts part (WalkOrder.mem_of_mem_split (.inl hp)),
      HoldsAll.fill h.2 fun part hp => hparts part (WalkOrder.mem_of_mem_split (.inr hp))⟩, trivial⟩
  | .attempt _ none _, _, h, hparts => ⟨HoldsAll.fill h hparts, trivial⟩
  | .block .., _, h, hparts => ⟨HoldsAll.fill h hparts, trivial⟩
  | .atom _, _, h, _ => ⟨h, trivial⟩

theorem HoldsAll.fill : ∀ {stmts parts}, r.HoldsAll stmts → (∀ part ∈ parts, r.HoldsAll part) →
    r.HoldsAll (Stmt.fillAll order stmts parts)
  | [], _, _, _ => trivial
  | _ :: _, _, h, hparts =>
    holdsAll_append.2 ⟨Holds.fill h.1 fun part hp => hparts part (List.mem_of_mem_take hp),
      HoldsAll.fill h.2 fun part hp => hparts part (List.mem_of_mem_drop hp)⟩

theorem HoldsBranches.fill : ∀ {branches parts}, r.HoldsBranches branches →
    (∀ part ∈ parts, r.HoldsAll part) →
    r.HoldsBranches (Stmt.fillBranches order branches parts)
  | [], _, _, _ => trivial
  | ⟨_, _, _⟩ :: _, _, h, hparts =>
    ⟨h.1, HoldsAll.fill h.2.1 fun part hp => hparts part (List.mem_of_mem_take hp),
      HoldsBranches.fill h.2.2 fun part hp => hparts part (List.mem_of_mem_drop hp)⟩

end

end Fill

/-! ## Folding and substitution -/

/-- The rule goes on to hold where expressions are replaced by what `f` makes of them. -/
structure Survives (r : Rule) (f : Expr → Expr) : Prop where
  atom : ∀ {a}, r.atom a → r.atom (a.mapExprs f)
  cond : ∀ {e}, r.cond e → r.cond (f e)

/-- The rule holds of a folded chain if it holds of the branches that are left, of the body that is
taken when they fail, and of the `else` that stood there. -/
theorem holdsAll_ofChain {folded : List (Branch Stmt) × Option (List Stmt)}
    {otherwise : Option (List Stmt)} (span : Span) (hbranches : r.HoldsBranches folded.1)
    (hlast : ∀ body ∈ folded.2, r.HoldsAll body) (hotherwise : r.HoldsAll (otherwise.getD [])) :
    r.HoldsAll (Stmt.ofChain folded otherwise span) := by
  have hbody : r.HoldsAll ((folded.2.or otherwise).getD []) := by
    cases hfolded : folded.2 with
    | none => exact hotherwise
    | some body => exact hlast body hfolded
  rw [Stmt.ofChain]
  split
  · exact hbody
  · exact ⟨holds_ifChain.2 ⟨hbranches, hbody⟩, trivial⟩

mutual

/-- A rule that folding an expression keeps is kept by folding a statement: what is left are
branches that stood there before. -/
theorem Holds.fold (hfold : r.Survives Expr.fold) : ∀ {s}, r.Holds s → r.HoldsAll s.fold
  | .atom _, h => ⟨hfold.atom h, trivial⟩
  | .function .., h => ⟨HoldsAll.fold hfold h, trivial⟩
  | .ifChain _ (some _) span, h =>
    holdsAll_ofChain span (HoldsBranches.fold hfold h.1).1 (HoldsBranches.fold hfold h.1).2
      (HoldsAll.fold hfold h.2)
  | .ifChain _ none span, h =>
    holdsAll_ofChain span (HoldsBranches.fold hfold h).1 (HoldsBranches.fold hfold h).2 trivial
  | .forLoop .., h => ⟨HoldsAll.fold hfold h, trivial⟩
  | .breakLoop _, h => ⟨h, trivial⟩
  | .attempt _ (some _) _, h => ⟨⟨HoldsAll.fold hfold h.1, HoldsAll.fold hfold h.2⟩, trivial⟩
  | .attempt _ none _, h => ⟨HoldsAll.fold hfold h, trivial⟩
  | .require .., h => ⟨h, trivial⟩
  | .block .., h => ⟨HoldsAll.fold hfold h, trivial⟩

theorem HoldsAll.fold (hfold : r.Survives Expr.fold) :
    ∀ {stmts}, r.HoldsAll stmts → r.HoldsAll (Stmt.foldAll stmts)
  | [], _ => trivial
  | _ :: _, h => holdsAll_append.2 ⟨Holds.fold hfold h.1, HoldsAll.fold hfold h.2⟩

theorem HoldsBranches.fold (hfold : r.Survives Expr.fold) : ∀ {branches}, r.HoldsBranches branches →
    r.HoldsBranches (Stmt.foldBranches branches).1 ∧
      ∀ body ∈ (Stmt.foldBranches branches).2, r.HoldsAll body
  | [], _ => ⟨trivial, by simp [Stmt.foldBranches]⟩
  | ⟨cond, body, span⟩ :: rest, h => by
    have hbody := HoldsAll.fold hfold h.2.1
    have hrest := HoldsBranches.fold hfold h.2.2
    rw [Stmt.foldBranches]
    split
    · exact ⟨trivial, by simpa using hbody⟩
    · exact hrest
    · exact ⟨⟨hfold.cond h.1, hbody, hrest.1⟩, hrest.2⟩

end

section Subst

variable {var : String} {value : Expr}

mutual

/-- A rule goes on to hold when a variable is replaced in all of a statement. -/
theorem Holds.subst (hsubst : r.Survives (Expr.subst (Stmt.binding var value))) :
    ∀ {s}, r.Holds s → r.Holds (s.subst var value)
  | .atom _, h => hsubst.atom h
  | .function .., h => h
  | .ifChain _ (some _) _, h => ⟨HoldsBranches.subst hsubst h.1, HoldsAll.subst hsubst h.2⟩
  | .ifChain _ none _, h => HoldsBranches.subst hsubst h
  | .forLoop inner collection body span, h => by
    have hbody := HoldsAll.subst hsubst h
    rw [Stmt.subst, Holds]
    split
    · exact h
    · exact hbody
  | .breakLoop _, h => h
  | .attempt _ (some _) _, h => ⟨HoldsAll.subst hsubst h.1, HoldsAll.subst hsubst h.2⟩
  | .attempt _ none _, h => HoldsAll.subst hsubst h
  | .require .., h => h
  | .block .., h => HoldsAll.subst hsubst h

theorem HoldsAll.subst (hsubst : r.Survives (Expr.subst (Stmt.binding var value))) :
    ∀ {stmts}, r.HoldsAll stmts → r.HoldsAll (Stmt.substAll var value stmts)
  | [], _ => trivial
  | _ :: _, h => ⟨Holds.subst hsubst h.1, HoldsAll.subst hsubst h.2⟩

theorem HoldsBranches.subst (hsubst : r.Survives (Expr.subst (Stmt.binding var value))) :
    ∀ {branches}, r.HoldsBranches branches → r.HoldsBranches (Stmt.substBranches var value branches)
  | [], _ => trivial
  | ⟨_, _, _⟩ :: _, h =>
    ⟨hsubst.cond h.1, HoldsAll.subst hsubst h.2.1, HoldsBranches.subst hsubst h.2.2⟩

end

end Subst

/-! ## Leaving a loop -/

mutual

/-- What is kept of a round, in front of its `break`, has been in the body of the loop. -/
theorem Holds.cut : ∀ {s kept broke}, r.Holds s → Stmt.cut s = .ok (kept, broke) → r.HoldsAll kept
  | .breakLoop _, kept, broke, _, hcut => by
    rw [Stmt.cut] at hcut
    cases hcut
    trivial
  | .block body span, kept, broke, h, hcut => by
    rw [Stmt.cut] at hcut
    split at hcut
    · rename_i hbody
      cases hcut
      exact ⟨HoldsAll.cutAtBreak h hbody, trivial⟩
    · cases hcut
  | .ifChain .., kept, broke, h, hcut => by
    rw [Stmt.cut] at hcut
    split at hcut <;> cases hcut
    exact ⟨h, trivial⟩
  | .attempt .., kept, broke, h, hcut => by
    rw [Stmt.cut] at hcut
    split at hcut <;> cases hcut
    exact ⟨h, trivial⟩
  | .atom _, kept, broke, h, hcut => by
    rw [Stmt.cut] at hcut
    cases hcut
    exact ⟨h, trivial⟩
  | .function .., kept, broke, h, hcut => by
    rw [Stmt.cut] at hcut
    cases hcut
    exact ⟨h, trivial⟩
  | .forLoop .., kept, broke, h, hcut => by
    rw [Stmt.cut] at hcut
    cases hcut
    exact ⟨h, trivial⟩
  | .require .., kept, broke, h, hcut => by
    rw [Stmt.cut] at hcut
    cases hcut
    exact ⟨h, trivial⟩

/-- The same for a list of statements, which ends with the one that breaks. -/
theorem HoldsAll.cutAtBreak : ∀ {stmts kept broke}, r.HoldsAll stmts →
    Stmt.cutAtBreak stmts = .ok (kept, broke) → r.HoldsAll kept
  | [], kept, broke, _, hcut => by
    rw [Stmt.cutAtBreak] at hcut
    cases hcut
    trivial
  | s :: rest, kept, broke, h, hcut => by
    rw [Stmt.cutAtBreak] at hcut
    split at hcut
    · cases hcut
    · rename_i hs
      cases hcut
      exact Holds.cut h.1 hs
    · rename_i hs
      split at hcut
      · rename_i hrest
        cases hcut
        exact holdsAll_append.2 ⟨Holds.cut h.1 hs, HoldsAll.cutAtBreak h.2 hrest⟩
      · cases hcut

end

end Rule

end EdgeScript
