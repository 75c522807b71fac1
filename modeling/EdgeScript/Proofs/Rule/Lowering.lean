import EdgeScript.Proofs.Inlining.Expand
import EdgeScript.Proofs.Rule.Rewriting
import EdgeScript.Proofs.Stages

/-!
# Rules through lowering

A rule that holds of every script that is read holds of a script with its imports expanded.  One
that survives folding and the substitution of literals holds of a script with its loops unrolled if
it held of the script before (`Unroller.ensures_run`): the copies of a loop's body are made by these
two.  The expansion of calls leads from one rule to another (`Inliner.ensures_expandStmts`), since
it can establish something that was not there before.
-/

set_option autoImplicit false

namespace EdgeScript

open Pass

/-! ## Expanding imports -/

namespace Importer

variable {r : Rule} {loader : Loader}
  (hread : ∀ {text file program}, Program.parse text file = .ok program → r.HoldsAll program.body)
include hread

theorem Serves.holdsAll {origin : Option Path} {requests : List Request} {s t : Importer}
    {trace : List Passed} {result : Except Error (List (List Stmt))}
    (h : Serves loader origin requests s trace result t) :
    ∀ {parts}, result = .ok parts → ∀ part ∈ parts, r.HoldsAll part := by
  induction h with
  | done =>
    intro parts hparts
    cases hparts
    simp
  | refused _ =>
    intro parts hparts
    cases hparts
  | @skipped _ _ _ _ _ _ _ result _ _ ih =>
    intro parts hparts
    cases result with
    | error e => cases hparts
    | ok rest =>
      cases hparts
      exact List.forall_mem_cons.2 ⟨trivial, ih rfl⟩
  | failed _ _ _ =>
    intro parts hparts
    cases hparts
  | @expanded _ _ _ _ _ _ _ _ body _ _ inner result h _ _ ih ih' =>
    intro parts hparts
    cases result with
    | error e => cases hparts
    | ok rest =>
      cases hparts
      have hbody : r.HoldsAll body := by
        cases answered_of_answer h with
        | opened _ _ _ _ hparse => exact hread hparse
      exact List.forall_mem_cons.2 ⟨hbody.fill .handlerFirst (ih rfl), ih' rfl⟩

/-- A rule of everything that is read holds of a script with its imports expanded. -/
theorem holdsAll_of_gives_run {entry : Option Path} {stmts out : List Stmt} {s t : Importer}
    (hstmts : r.HoldsAll stmts) (h : Gives (run loader entry stmts) s out t) : r.HoldsAll out := by
  obtain ⟨trace, hresolves⟩ := exists_resolves loader entry stmts s
  rw [show outcome (run loader entry stmts) s = (.ok out, t) from h] at hresolves
  generalize hresult : (Except.ok out, t).1 = result, (Except.ok out, t).2 = u at hresolves
  cases hresolves with
  | @nowhere _ _ _ _ result hserves =>
    cases result with
    | error e => cases hresult
    | ok parts =>
      cases hresult
      exact hstmts.fill .handlerFirst (hserves.holdsAll hread rfl)
  | @unit _ _ _ _ _ result hserves =>
    cases result with
    | error e => cases hresult
    | ok parts =>
      cases hresult
      exact hstmts.fill .handlerFirst (hserves.holdsAll hread rfl)

end Importer

/-! ## Expanding calls -/

/-- The expressions of an atom are replaced, and it sets the same variable. -/
theorem Atom.ensures_mapExprsM {σ : Type} {I : σ → Prop} {f : Expr → Pass σ Expr} {Q : Expr → Prop}
    (hf : ∀ e, Ensures I (f e) Q) (a : Atom) :
    Ensures I (a.mapExprsM f) fun x => (∀ e ∈ x.exprs, Q e) ∧ x.assigned? = a.assigned? := by
  cases a with
  | declare name value span =>
    refine (ensures_optionMapM hf value).bind fun value' hvalue => ensures_pure ⟨?_, rfl⟩
    simpa [exprs] using hvalue
  | assign target key value span =>
    refine (ensures_optionMapM hf key).bind fun key' hkey => (hf value).bind fun value' hvalue => ?_
    exact ensures_pure ⟨by simpa [exprs, or_imp, forall_and] using ⟨hkey, hvalue⟩, rfl⟩
  | expr e => exact (hf e).bind fun e' he => ensures_pure ⟨by simpa [exprs] using he, rfl⟩
  | ret value span =>
    refine (ensures_optionMapM hf value).bind fun value' hvalue => ensures_pure ⟨?_, rfl⟩
    simpa [exprs] using hvalue
  | inclusion kind options span =>
    refine (ensures_mapM (Q := fun o => Q o.value) (fun o => ?_) options).bind fun options' h => ?_
    · exact (hf o.value).bind fun value hvalue => ensures_pure hvalue
    · exact ensures_pure ⟨by simpa [exprs] using h, rfl⟩
  | output kind args span =>
    exact (ensures_mapM hf args).bind fun args' hargs => ensures_pure ⟨hargs, rfl⟩
  | comment text span => exact ensures_pure ⟨by simp [exprs], rfl⟩

namespace Inliner

variable {I : Inliner → Prop} {r r' : Rule}

mutual

theorem ensures_expandStmt (hatom : ∀ a, r.atom a → Ensures I (a.mapExprsM expand) r'.atom)
    (hcond : ∀ e, r.cond e → Ensures I (expand e) r'.cond)
    (hany : ∀ e, Ensures I (expand e) fun _ => True) :
    ∀ {s}, r.Holds s → Ensures I (expandStmt s) r'.HoldsAll
  | .atom a, h => (hatom a h).bind fun _ ha => ensures_pure ⟨ha, trivial⟩
  | .function _ _ true _ _, _ => ensures_pure trivial
  | .function _ _ false _ _, h =>
    (ensures_expandStmts hatom hcond hany h).bind fun _ hbody => ensures_pure ⟨hbody, trivial⟩
  | .ifChain _ (some _) _, h =>
    (ensures_expandBranches hatom hcond hany h.1).bind fun _ hbranches =>
      (ensures_expandStmts hatom hcond hany h.2).bind fun _ hbody =>
        ensures_pure ⟨⟨hbranches, hbody⟩, trivial⟩
  | .ifChain _ none _, h =>
    (ensures_expandBranches hatom hcond hany h).bind fun _ hbranches =>
      ensures_pure ⟨hbranches, trivial⟩
  | .forLoop _ collection _ _, h =>
    (hany collection).bind fun _ _ =>
      (ensures_expandStmts hatom hcond hany h).bind fun _ hbody => ensures_pure ⟨hbody, trivial⟩
  | .breakLoop _, h => ensures_pure ⟨h, trivial⟩
  | .attempt _ (some _) _, h =>
    (ensures_expandStmts hatom hcond hany h.1).bind fun _ hbody =>
      (ensures_expandStmts hatom hcond hany h.2).bind fun _ hhandler =>
        ensures_pure ⟨⟨hbody, hhandler⟩, trivial⟩
  | .attempt _ none _, h =>
    (ensures_expandStmts hatom hcond hany h).bind fun _ hbody => ensures_pure ⟨hbody, trivial⟩
  | .require .., h => ensures_pure ⟨h, trivial⟩
  | .block .., h =>
    (ensures_expandStmts hatom hcond hany h).bind fun _ hbody => ensures_pure ⟨hbody, trivial⟩

/-- The expansion of calls leads from one rule to another if it does so for every atom and
condition. -/
theorem ensures_expandStmts (hatom : ∀ a, r.atom a → Ensures I (a.mapExprsM expand) r'.atom)
    (hcond : ∀ e, r.cond e → Ensures I (expand e) r'.cond)
    (hany : ∀ e, Ensures I (expand e) fun _ => True) :
    ∀ {stmts}, r.HoldsAll stmts → Ensures I (expandStmts stmts) r'.HoldsAll
  | [], _ => ensures_pure trivial
  | _ :: _, h =>
    (ensures_expandStmt hatom hcond hany h.1).bind fun _ hfirst =>
      (ensures_expandStmts hatom hcond hany h.2).bind fun _ hrest =>
        ensures_pure (Rule.holdsAll_append.2 ⟨hfirst, hrest⟩)

theorem ensures_expandBranches (hatom : ∀ a, r.atom a → Ensures I (a.mapExprsM expand) r'.atom)
    (hcond : ∀ e, r.cond e → Ensures I (expand e) r'.cond)
    (hany : ∀ e, Ensures I (expand e) fun _ => True) :
    ∀ {branches}, r.HoldsBranches branches → Ensures I (expandBranches branches) r'.HoldsBranches
  | [], _ => ensures_pure trivial
  | ⟨cond, _, _⟩ :: _, h =>
    (hcond cond h.1).bind fun _ hcond' =>
      (ensures_expandStmts hatom hcond hany h.2.1).bind fun _ hbody =>
        (ensures_expandBranches hatom hcond hany h.2.2).bind fun _ hrest =>
          ensures_pure ⟨hcond', hbody, hrest⟩

end

/-- The steps of inlining: the functions are collected, none is recursive, and calls are
expanded. -/
theorem steps_of_gives_run {stmts out : List Stmt} {s t : Inliner} (h : Gives (run stmts) s out t) :
    ∃ u expanded, Gives (collect (Stmt.inlineDeclarationsAll stmts)) s () u ∧
      u.functions.checkCycles = .ok () ∧ Gives (expandStmts stmts) u expanded t ∧
      out = if t.folding then Stmt.foldAll expanded else expanded := by
  obtain ⟨_, u, hcollect, hrest⟩ := gives_bind.1 h
  rw [gives_get_bind] at hrest
  obtain ⟨_, _, hlift, hbehind⟩ := gives_bind.1 hrest
  obtain ⟨hcycles, rfl⟩ := gives_lift.1 hlift
  obtain ⟨expanded, v, hexpand, hend⟩ := gives_bind.1 hbehind
  rw [gives_get_bind] at hend
  obtain ⟨rfl, rfl⟩ := gives_pure.1 hend
  exact ⟨_, expanded, hcollect, hcycles, hexpand, rfl⟩

theorem exists_gives_of_run {stmts out : List Stmt} {s t : Inliner}
    (h : Gives (run stmts) s out t) :
    ∃ u v expanded, Gives (collect (Stmt.inlineDeclarationsAll stmts)) s () u ∧
      u.functions.checkCycles = .ok () ∧ Gives (expandStmts stmts) u expanded v ∧
      (out = expanded ∨ out = Stmt.foldAll expanded) := by
  obtain ⟨u, expanded, hcollect, hcycles, hexpand, rfl⟩ := steps_of_gives_run h
  refine ⟨u, t, expanded, hcollect, hcycles, hexpand, ?_⟩
  split
  · exact .inr rfl
  · exact .inl rfl

end Inliner

/-! ## Unrolling -/

/-- The rule survives what is done to the copies of a loop's body. -/
structure Rule.Stable (r : Rule) : Prop where
  fold : r.Survives Expr.fold
  subst : ∀ var value span, r.Survives (Expr.subst (Stmt.binding var (.lit value span)))

namespace Unroller

variable {r : Rule} {inner : Inner}

/-- A rule that holds of a script holds of what `inner` makes of it. -/
def Inner.Keeps (inner : Inner) (r : Rule) : Prop :=
  ∀ known stmts, r.HoldsAll stmts → Ensures (fun _ => True) (inner known stmts) r.HoldsAll

theorem ensures_round (hr : r.Stable) (hinner : inner.Keeps r) (known : Known) (var : String)
    (value : Literal) (span : Span) {body : List Stmt} (hbody : r.HoldsAll body) :
    Ensures (fun _ => True) (round inner known var (.lit value span) body)
      fun copy => r.HoldsAll copy.1 := by
  refine (hinner known _ ((hbody.subst (hr.subst var value span)).fold hr.fold)).bind
    fun copy h => ?_
  exact ensures_lift fun _ hcut => h.cutAtBreak hcut

/-- What holds of one round of a loop and of rounds in a row holds of all of its copies. -/
theorem ensures_copies {P : List Stmt → Prop} (hnil : P [])
    (happend : ∀ {first second}, P first → P second → P (first ++ second)) (known : Known)
    (task : Task)
    (hround : ∀ element, Ensures (fun _ => True)
      (round inner known task.var (.lit element task.place) task.body) fun copy => P copy.1)
    (rounds i : Nat) :
    Ensures (fun _ => True) (copies inner known task rounds i) fun out => P out.1 := by
  induction rounds using Nat.strongRecOn generalizing i with
  | _ rounds ih =>
    unfold copies
    split
    · exact ensures_pure hnil
    · refine (ensures_true _).bind fun _ _ => (hround _).bind fun copy hcopy => ?_
      dsimp only
      split
      · exact (ensures_true _).bind fun _ _ => ensures_pure hcopy
      · cases rounds with
        | zero => exact ensures_pure hcopy
        | succ rounds =>
          refine (ih rounds (Nat.lt_succ_self _) (i + 1)).bind fun more hmore => ensures_pure ?_
          exact happend hcopy hmore

/-- The same of what a loop is replaced by. -/
theorem ensures_unrollLoop {P : List Stmt → Prop} (hnil : P [])
    (happend : ∀ {first second}, P first → P second → P (first ++ second)) (known : Known)
    (var : Option Ident) (collection : Expr) {body : List Stmt} (span : Span)
    (hround : ∀ var element place, Ensures (fun _ => True)
      (round inner known var (.lit element place) body) fun copy => P copy.1) :
    Ensures (fun _ => True) (unrollLoop inner known var collection body span) P := by
  unfold unrollLoop
  dsimp only
  split
  · exact ensures_throw
  · refine (ensures_true _).bind fun _ _ => ?_
    refine (ensures_copies hnil happend known _ (fun _ => hround _ _ _) _ _).bind fun out hout => ?_
    refine (ensures_true _).bind fun _ _ => ?_
    exact (ensures_true _).bind fun _ _ => ensures_pure hout

mutual

theorem ensures_unrollStmt (hr : r.Stable) (hinner : inner.Keeps r) (known : Known) :
    ∀ {s}, r.Holds s → Ensures (fun _ => True) (unrollStmt inner known s) fun out =>
      r.HoldsAll out.1
  | .forLoop var collection _ span, h =>
    (ensures_unrollLoop trivial (fun hfirst hsecond => Rule.holdsAll_append.2 ⟨hfirst, hsecond⟩)
      known var collection span fun _ _ _ => ensures_round hr hinner known _ _ _ h).bind
      fun _ hout => ensures_pure hout
  | .atom _, h => ensures_pure ⟨h, trivial⟩
  | .block .., h =>
    (ensures_unrollStmts hr hinner known h).bind fun _ hbody => ensures_pure ⟨hbody, trivial⟩
  | .ifChain _ (some _) _, h =>
    (ensures_unrollBranches hr hinner known h.1).bind fun _ hbranches =>
      (ensures_unrollStmts hr hinner known h.2).bind fun _ hbody =>
        ensures_pure ⟨⟨hbranches, hbody⟩, trivial⟩
  | .ifChain _ none _, h =>
    (ensures_unrollBranches hr hinner known h).bind fun _ hbranches =>
      ensures_pure ⟨hbranches, trivial⟩
  | .attempt _ (some _) _, h =>
    (ensures_unrollStmts hr hinner known h.1).bind fun _ hbody =>
      (ensures_unrollStmts hr hinner known h.2).bind fun _ hhandler =>
        ensures_pure ⟨⟨hbody, hhandler⟩, trivial⟩
  | .attempt _ none _, h =>
    (ensures_unrollStmts hr hinner known h).bind fun _ hbody => ensures_pure ⟨hbody, trivial⟩
  | .function .., h => ensures_pure ⟨h, trivial⟩
  | .breakLoop _, h => ensures_pure ⟨h, trivial⟩
  | .require .., h => ensures_pure ⟨h, trivial⟩

theorem ensures_unrollStmts (hr : r.Stable) (hinner : inner.Keeps r) (known : Known) :
    ∀ {stmts}, r.HoldsAll stmts →
      Ensures (fun _ => True) (unrollStmts inner known stmts) fun out => r.HoldsAll out.1
  | [], _ => ensures_pure trivial
  | _ :: _, h =>
    (ensures_unrollStmt hr hinner known h.1).bind fun first hfirst =>
      (ensures_unrollStmts hr hinner first.2 h.2).bind fun _ hrest =>
        ensures_pure (Rule.holdsAll_append.2 ⟨hfirst, hrest⟩)

theorem ensures_unrollBranches (hr : r.Stable) (hinner : inner.Keeps r) (known : Known) :
    ∀ {branches}, r.HoldsBranches branches →
      Ensures (fun _ => True) (unrollBranches inner known branches) r.HoldsBranches
  | [], _ => ensures_pure trivial
  | ⟨_, _, _⟩ :: _, h =>
    (ensures_unrollStmts hr hinner known h.2.1).bind fun _ hbody =>
      (ensures_unrollBranches hr hinner known h.2.2).bind fun _ hrest =>
        ensures_pure ⟨h.1, hbody, hrest⟩

end

theorem keeps_unrollAt (hr : r.Stable) (depth : Nat) : (unrollAt depth).Keeps r := by
  induction depth with
  | zero => exact fun _ _ h => ensures_pure h
  | succ depth ih =>
    intro known stmts h
    exact (ensures_unrollStmts hr ih known h).bind fun _ hout => ensures_pure hout

/-- **A rule that held of a script holds of it with its loops unrolled.** -/
theorem ensures_run (hr : r.Stable) {stmts : List Stmt} (h : r.HoldsAll stmts) :
    Ensures (fun _ => True) (run stmts) r.HoldsAll :=
  keeps_unrollAt hr _ [] stmts h

end Unroller

/-! ## All passes -/

/-- A rule that no pass breaks. -/
structure Rule.Lasting (r : Rule) : Prop extends r.Stable where
  expandAtom : ∀ a, r.atom a → Ensures (fun _ => True) (a.mapExprsM Inliner.expand) r.atom
  expandCond : ∀ e, r.cond e → Ensures (fun _ => True) (Inliner.expand e) r.cond

namespace Rule

variable {r : Rule} {options : Options} {stmts lowered : List Stmt}

theorem HoldsAll.folded (hr : r.Stable) (h : r.HoldsAll stmts) :
    r.HoldsAll (options.folded stmts) := by
  unfold Options.folded
  split
  · exact h.fold hr.fold
  · exact h

theorem HoldsAll.lowers (hr : r.Lasting) (h : r.HoldsAll stmts)
    (hlowers : options.Lowers stmts lowered) : r.HoldsAll lowered := by
  obtain ⟨inlined, hinlines, unroller, hunroll⟩ := hlowers
  have hfolded : r.HoldsAll (options.folded stmts) := h.folded hr.toStable
  have hinlined : r.HoldsAll inlined := by
    unfold Options.Inlines at hinlines
    split at hinlines
    · obtain ⟨inliner, hinline⟩ := hinlines
      obtain ⟨_, _, expanded, -, -, hexpand, hout⟩ := Inliner.exists_gives_of_run hinline
      have hexpanded : r.HoldsAll expanded :=
        ((Inliner.ensures_expandStmts hr.expandAtom hr.expandCond
        (fun e => ensures_true _) hfolded).run trivial hexpand).2
      rcases hout with rfl | rfl
      · exact hexpanded
      · exact hexpanded.fold hr.fold
    · rwa [hinlines]
  exact ((Unroller.ensures_run hr.toStable hinlined).run trivial hunroll).2

end Rule

end EdgeScript
