import EdgeScript.Grammar.Stmt
import EdgeScript.Proofs.Inlining.Termination
import EdgeScript.Proofs.Leftover.Rewriting
import EdgeScript.Proofs.Lowering.Form

/-!
# Lowering is done once

A script that has been lowered is in a form in which no pass finds anything to do.  Two things are
shown of every pass: that it brings a script into its form without leaving the forms of the passes
before it (`Unroller.ensures_fits_run`, `Inliner.ensures_fits_run`), and that it gives a script of
its form back as it is (`FitsAll.foldAll_eq`, `Unroller.gives_run_of_fits`,
`Inliner.gives_run_of_fits`).

The passes do not get in each other's way for one reason: whatever is put into a script, the copies
of a loop's body and what calls are replaced by, is folded where folding is on.
-/

set_option autoImplicit false

namespace EdgeScript

open Pass

/-! ## Unrolling -/

namespace Unroller

variable {f : Form} {inner : Inner} {depth : Nat}

/-- Where loops are nested less deep than `depth`, what `inner` makes of a script has the form,
loops included. -/
def Inner.Brings (inner : Inner) (depth : Nat) (f : Form) : Prop :=
  ∀ known stmts, f.inFunction.FitsAll stmts → Stmt.loopDepthAll stmts < depth →
    Ensures (fun _ => True) (inner known stmts) f.FitsAll

/-- A copy of the body is folded, so it has the form, also where the body is not folded yet. -/
theorem ensures_fits_round (hinner : inner.Brings depth f) (known : Known) (var : String)
    (element : Expr) {body : List Stmt} (hbody : f.inFunction.unfolded.FitsAll body)
    (hdepth : Stmt.loopDepthAll body < depth) :
    Ensures (fun _ => True) (round inner known var element body) fun copy => f.FitsAll copy.1 := by
  have hcopy : Stmt.loopDepthAll (Stmt.foldAll (Stmt.substAll var element body)) < depth :=
    Nat.lt_of_le_of_lt (Stmt.loopDepthAll_copy_le var element body) hdepth
  refine (hinner known _ (hbody.subst rfl).fold hcopy).bind fun copy h => ?_
  exact ensures_lift fun _ hcut => h.cutAtBreak hcut

mutual

/-- Unrolling brings a statement into an unrolled form, if it does so with the bodies of its loops.
-/
theorem ensures_fits_unrollStmt (hinner : inner.Brings depth f) (known : Known) :
    ∀ {s}, f.inFunction.Fits s → Stmt.loopDepth s ≤ depth →
      Ensures (fun _ => True) (unrollStmt inner known s) fun out => f.FitsAll out.1
  | .forLoop var collection body span, h, hdepth => by
    rw [Stmt.loopDepth] at hdepth
    refine (ensures_unrollLoop (P := f.FitsAll) trivial ?_ known var collection span ?_).bind
      fun _ hout => ensures_pure hout
    · exact fun hfirst hsecond => Form.fitsAll_append.2 ⟨hfirst, hsecond⟩
    · exact fun var element place =>
        ensures_fits_round hinner known var _ (h.2.2.weaken (.unfolded _)) hdepth
  | .atom _, h, _ => ensures_pure ⟨h, trivial⟩
  | .block body span, h, hdepth =>
    (ensures_fits_unrollStmts hinner known h hdepth).bind fun _ hbody =>
      ensures_pure ⟨hbody, trivial⟩
  | .ifChain branches (some body) span, h, hdepth => by
    rw [Stmt.loopDepth] at hdepth
    obtain ⟨hbranches, hbody⟩ := Nat.max_le.1 hdepth
    refine (ensures_fits_unrollBranches hinner known h.2.1 hbranches).bind fun out hout => ?_
    refine (ensures_fits_unrollStmts hinner known h.2.2 hbody).bind fun _ hbody => ensures_pure ?_
    exact ⟨⟨fun hf => hout.2 (h.1 hf), hout.1, hbody⟩, trivial⟩
  | .ifChain branches none span, h, hdepth => by
    refine (ensures_fits_unrollBranches hinner known h.2 hdepth).bind fun out hout =>
      ensures_pure ?_
    exact ⟨⟨fun hf => hout.2 (h.1 hf), hout.1⟩, trivial⟩
  | .attempt body (some handler) span, h, hdepth => by
    rw [Stmt.loopDepth] at hdepth
    obtain ⟨hbody, hhandler⟩ := Nat.max_le.1 hdepth
    refine (ensures_fits_unrollStmts hinner known h.1 hbody).bind fun _ hbody => ?_
    refine (ensures_fits_unrollStmts hinner known h.2 hhandler).bind fun _ hhandler =>
      ensures_pure ?_
    exact ⟨⟨hbody, hhandler⟩, trivial⟩
  | .attempt body none span, h, hdepth =>
    (ensures_fits_unrollStmts hinner known h hdepth).bind fun _ hbody =>
      ensures_pure ⟨hbody, trivial⟩
  | .function .., h, _ => ensures_pure ⟨h, trivial⟩
  | .breakLoop _, _, _ => ensures_pure ⟨trivial, trivial⟩
  | .require .., _, _ => ensures_pure ⟨trivial, trivial⟩

theorem ensures_fits_unrollStmts (hinner : inner.Brings depth f) (known : Known) :
    ∀ {stmts}, f.inFunction.FitsAll stmts → Stmt.loopDepthAll stmts ≤ depth →
      Ensures (fun _ => True) (unrollStmts inner known stmts) fun out => f.FitsAll out.1
  | [], _, _ => ensures_pure trivial
  | s :: rest, h, hdepth => by
    rw [Stmt.loopDepthAll] at hdepth
    obtain ⟨hs, hrest⟩ := Nat.max_le.1 hdepth
    refine (ensures_fits_unrollStmt hinner known h.1 hs).bind fun first hfirst => ?_
    refine (ensures_fits_unrollStmts hinner first.2 h.2 hrest).bind fun _ hrest => ensures_pure ?_
    exact Form.fitsAll_append.2 ⟨hfirst, hrest⟩

theorem ensures_fits_unrollBranches (hinner : inner.Brings depth f) (known : Known) :
    ∀ {branches}, f.inFunction.FitsBranches branches → Stmt.loopDepthBranches branches ≤ depth →
      Ensures (fun _ => True) (unrollBranches inner known branches) fun out =>
        f.FitsBranches out ∧ (branches ≠ [] → out ≠ [])
  | [], _, _ => ensures_pure ⟨trivial, id⟩
  | ⟨cond, body, span⟩ :: rest, h, hdepth => by
    rw [Stmt.loopDepthBranches] at hdepth
    obtain ⟨hbody, hrest⟩ := Nat.max_le.1 hdepth
    refine (ensures_fits_unrollStmts hinner known h.2.1 hbody).bind fun _ hbody => ?_
    refine (ensures_fits_unrollBranches hinner known h.2.2 hrest).bind fun _ hrest =>
      ensures_pure ?_
    exact ⟨⟨h.1, hbody, hrest.1⟩, fun _ => List.cons_ne_nil _ _⟩

end

/-- It does, by induction on the depth of loops. -/
theorem brings_unrollAt (depth : Nat) : (unrollAt depth).Brings depth f := by
  induction depth with
  | zero => exact fun _ _ _ hdepth => absurd hdepth (Nat.not_lt_zero _)
  | succ depth ih =>
    intro known stmts h hdepth
    exact (ensures_fits_unrollStmts ih known h (Nat.le_of_lt_succ hdepth)).bind
      fun _ hout => ensures_pure hout

/-- **A script keeps its form when its loops are unrolled, and no loop is left.** -/
theorem ensures_fits_run {stmts : List Stmt} (h : f.inFunction.FitsAll stmts) :
    Ensures (fun _ => True) (run stmts) f.FitsAll :=
  brings_unrollAt _ [] stmts h (Nat.lt_succ_self _)

mutual

/-- A statement without loops is left as it is by unrolling. -/
theorem gives_unrollStmt_of_fits (hf : f.unrolled = true) (s : Unroller) :
    ∀ (known : Known) {stmt}, f.Fits stmt →
      ∃ known', Gives (unrollStmt inner known stmt) s ([stmt], known') s
  | known, .forLoop .., h => absurd (h.1.symm.trans hf) Bool.false_ne_true
  | known, .atom a, _ => ⟨known.after a, rfl⟩
  | known, .block .., h => by
    obtain ⟨known', hbody⟩ := gives_unrollStmts_of_fits hf s known h
    exact ⟨known', gives_bind.2 ⟨_, s, hbody, rfl⟩⟩
  | known, .ifChain _ (some _) _, h => by
    obtain ⟨_, hbody⟩ := gives_unrollStmts_of_fits hf s known h.2.2
    have hbranches := gives_unrollBranches_of_fits hf s known h.2.1
    exact ⟨_, gives_bind.2 ⟨_, s, hbranches, gives_bind.2 ⟨_, s, hbody, rfl⟩⟩⟩
  | known, .ifChain _ none _, h =>
    ⟨_, gives_bind.2 ⟨_, s, gives_unrollBranches_of_fits hf s known h.2, rfl⟩⟩
  | known, .attempt _ (some _) _, h => by
    obtain ⟨_, hbody⟩ := gives_unrollStmts_of_fits hf s known h.1
    obtain ⟨_, hhandler⟩ := gives_unrollStmts_of_fits hf s known h.2
    exact ⟨_, gives_bind.2 ⟨_, s, hbody, gives_bind.2 ⟨_, s, hhandler, rfl⟩⟩⟩
  | known, .attempt _ none _, h => by
    obtain ⟨_, hbody⟩ := gives_unrollStmts_of_fits hf s known h
    exact ⟨_, gives_bind.2 ⟨_, s, hbody, rfl⟩⟩
  | known, .function .., _ => ⟨known, rfl⟩
  | known, .breakLoop _, _ => ⟨known, rfl⟩
  | known, .require .., _ => ⟨known, rfl⟩

theorem gives_unrollStmts_of_fits (hf : f.unrolled = true) (s : Unroller) :
    ∀ (known : Known) {stmts}, f.FitsAll stmts →
      ∃ known', Gives (unrollStmts inner known stmts) s (stmts, known') s
  | known, [], _ => ⟨known, rfl⟩
  | known, _ :: _, h => by
    obtain ⟨between, hfirst⟩ := gives_unrollStmt_of_fits hf s known h.1
    obtain ⟨known', hrest⟩ := gives_unrollStmts_of_fits hf s between h.2
    exact ⟨known', gives_bind.2 ⟨_, s, hfirst, gives_bind.2 ⟨_, s, hrest, rfl⟩⟩⟩

theorem gives_unrollBranches_of_fits (hf : f.unrolled = true) (s : Unroller) :
    ∀ (known : Known) {branches}, f.FitsBranches branches →
      Gives (unrollBranches inner known branches) s branches s
  | _, [], _ => rfl
  | known, ⟨_, _, _⟩ :: _, h => by
    obtain ⟨_, hbody⟩ := gives_unrollStmts_of_fits hf s known h.2.1
    have hrest := gives_unrollBranches_of_fits hf s known h.2.2
    exact gives_bind.2 ⟨_, s, hbody, gives_bind.2 ⟨_, s, hrest, rfl⟩⟩

end

/-- **A script without loops is given back, and nothing is counted.** -/
theorem gives_run_of_fits (hf : f.unrolled = true) (s : Unroller) {stmts : List Stmt}
    (h : f.FitsAll stmts) : Gives (run stmts) s stmts s := by
  obtain ⟨known, hstmts⟩ : ∃ known,
      Gives (unrollStmts (unrollAt (Stmt.loopDepthAll stmts)) [] stmts) s
      (stmts, known) s := gives_unrollStmts_of_fits hf s [] h
  exact gives_bind.2 ⟨_, s, hstmts, rfl⟩

end Unroller

/-! ## Expanding calls -/

section Effects

variable {σ : Type} {s : σ} {g : Expr → Pass σ Expr}

theorem Expr.ensures_bottomUpM {I : σ → Prop} (hg : ∀ e, Ensures I (g e) fun _ => True) (e : Expr) :
    Ensures I (e.bottomUpM g) fun _ => True :=
  ⟨fun hs hrun => Expr.rel_bottomUpM (P := I) (R := fun _ _ => True)
    (fun _ ht hnode => (hg _).run ht hnode) e hs hrun⟩

theorem Pass.gives_optionMapM_self (hg : ∀ e, Gives (g e) s e s) (o : Option Expr) :
    Gives (o.mapM g) s o s := by
  cases o with
  | none => rfl
  | some e => exact gives_bind.2 ⟨_, s, hg e, rfl⟩

/-- A walk that gives every expression back gives the atom back. -/
theorem Atom.gives_mapExprsM_self (hg : ∀ e, Gives (g e) s e s) (a : Atom) :
    Gives (a.mapExprsM g) s a s := by
  cases a with
  | declare name value span => exact gives_bind.2 ⟨_, s, gives_optionMapM_self hg value, rfl⟩
  | assign target key value span =>
    exact gives_bind.2 ⟨_, s, gives_optionMapM_self hg key, gives_bind.2 ⟨_, s, hg value, rfl⟩⟩
  | expr e => exact gives_bind.2 ⟨_, s, hg e, rfl⟩
  | ret value span => exact gives_bind.2 ⟨_, s, gives_optionMapM_self hg value, rfl⟩
  | inclusion kind options span =>
    refine gives_bind.2 ⟨_, s, gives_mapM_of_mem fun o _ => ?_, rfl⟩
    exact gives_bind.2 ⟨_, s, hg o.value, rfl⟩
  | output kind args span => exact gives_bind.2 ⟨_, s, gives_mapM_of_mem fun e _ => hg e, rfl⟩
  | comment text span => rfl

end Effects

namespace Inliner

/-! ### No declaration is left -/

section Brings

variable {I : Inliner → Prop}

mutual

/-- What is left when calls are expanded has no inline functions in it. -/
theorem ensures_fits_expandStmt {f : Form} (hf : f.folded = false) (hu : f.unrolled = false)
    (hexpand : ∀ e, Ensures I (expand e) fun _ => True) : ∀ s, Ensures I (expandStmt s) f.FitsAll
  | .atom a =>
    (Atom.ensures_mapExprsM hexpand a).bind fun _ _ => ensures_pure ⟨Form.of_not_folded hf, trivial⟩
  | .function _ _ true _ _ => ensures_pure trivial
  | .function _ _ false body _ =>
    (ensures_fits_expandStmts (f := f.inFunction) hf rfl hexpand body).bind fun _ hbody =>
      ensures_pure ⟨⟨fun _ => rfl, hbody⟩, trivial⟩
  | .ifChain branches (some body) _ =>
    (ensures_fits_expandBranches hf hu hexpand branches).bind fun _ hbranches =>
      (ensures_fits_expandStmts hf hu hexpand body).bind fun _ hbody =>
        ensures_pure ⟨⟨Form.of_not_folded hf, hbranches, hbody⟩, trivial⟩
  | .ifChain branches none _ =>
    (ensures_fits_expandBranches hf hu hexpand branches).bind fun _ hbranches =>
      ensures_pure ⟨⟨Form.of_not_folded hf, hbranches⟩, trivial⟩
  | .forLoop _ collection body _ =>
    (hexpand collection).bind fun _ _ =>
      (ensures_fits_expandStmts hf hu hexpand body).bind fun _ hbody =>
        ensures_pure ⟨⟨hu, Form.of_not_folded hf, hbody⟩, trivial⟩
  | .breakLoop _ => ensures_pure ⟨trivial, trivial⟩
  | .attempt body (some handler) _ =>
    (ensures_fits_expandStmts hf hu hexpand body).bind fun _ hbody =>
      (ensures_fits_expandStmts hf hu hexpand handler).bind fun _ hhandler =>
        ensures_pure ⟨⟨hbody, hhandler⟩, trivial⟩
  | .attempt body none _ =>
    (ensures_fits_expandStmts hf hu hexpand body).bind fun _ hbody => ensures_pure ⟨hbody, trivial⟩
  | .require .. => ensures_pure ⟨trivial, trivial⟩
  | .block body _ =>
    (ensures_fits_expandStmts hf hu hexpand body).bind fun _ hbody => ensures_pure ⟨hbody, trivial⟩

/-- The expansion of calls removes every inline declaration. -/
theorem ensures_fits_expandStmts {f : Form} (hf : f.folded = false) (hu : f.unrolled = false)
    (hexpand : ∀ e, Ensures I (expand e) fun _ => True) :
    ∀ stmts, Ensures I (expandStmts stmts) f.FitsAll
  | [] => ensures_pure trivial
  | s :: rest =>
    (ensures_fits_expandStmt hf hu hexpand s).bind fun _ hfirst =>
      (ensures_fits_expandStmts hf hu hexpand rest).bind fun _ hrest =>
        ensures_pure (Form.fitsAll_append.2 ⟨hfirst, hrest⟩)

theorem ensures_fits_expandBranches {f : Form} (hf : f.folded = false) (hu : f.unrolled = false)
    (hexpand : ∀ e, Ensures I (expand e) fun _ => True) :
    ∀ branches, Ensures I (expandBranches branches) f.FitsBranches
  | [] => ensures_pure trivial
  | ⟨cond, body, _⟩ :: rest =>
    (hexpand cond).bind fun _ _ =>
      (ensures_fits_expandStmts hf hu hexpand body).bind fun _ hbody =>
        (ensures_fits_expandBranches hf hu hexpand rest).bind fun _ hrest =>
          ensures_pure ⟨Form.of_not_folded hf, hbody, hrest⟩

end

end Brings

section Folding

variable {b : Bool}

/-- Collecting functions does not change whether results are folded. -/
theorem ensures_folding_collect (declarations : List InlineDeclaration) :
    Ensures (fun s => s.folding = b) (collect declarations) fun _ => True := by
  induction declarations with
  | nil => exact ensures_pure trivial
  | cons d rest ih =>
    refine Ensures.bind (P := fun _ => True) ?_ fun _ _ => ih
    refine (ensures_lift (P := fun _ => True) fun _ _ => trivial).bind fun f _ => ?_
    refine ensures_get_bind fun s hs => ?_
    refine Ensures.bind (P := fun _ => True) ⟨fun _ hset => ?_⟩ fun _ _ => ?_
    · rw [gives_set.1 hset]
      exact ⟨hs, trivial⟩
    split
    · exact ensures_modify fun _ ht => ht
    · exact ensures_pure trivial

/-- Whether expanded expressions are folded does not change. -/
theorem ensures_folding_expandAt (depth : Nat) (e : Expr) :
    Ensures (fun s => s.folding = b) (expandAt depth e) fun _ => True := by
  induction depth generalizing e with
  | zero => exact ensures_pure trivial
  | succ depth ih =>
    refine Expr.ensures_bottomUpM (fun e => ?_) e
    cases e with
    | call callee args span =>
      refine ensures_get_bind fun s _ => ?_
      split
      · exact ensures_pure trivial
      · refine (ensures_lift (P := fun _ => True) fun _ _ => trivial).bind fun body _ => ?_
        refine (ih body).bind fun expanded _ => ?_
        refine Ensures.bind (ensures_modify fun _ ht => ht) fun _ _ => ?_
        refine Ensures.bind (ensures_modify fun _ ht => ht) fun _ _ => ?_
        exact ensures_get_bind fun _ _ => ensures_pure trivial
    | _ => exact ensures_pure trivial

/-- **With the expansion of calls no inline declaration is left, and with folding on the script is
folded.** -/
theorem ensures_fits_run (stmts : List Stmt) :
    Ensures (fun s => s.folding = b) (run stmts) (Form.mk b true false).FitsAll := by
  have hexpand (e : Expr) : Ensures (fun s => s.folding = b) (expand e) fun _ => True :=
    ensures_get_bind fun _ _ => ensures_folding_expandAt _ e
  refine (ensures_folding_collect _).bind fun _ _ => ensures_get_bind fun s _ => ?_
  refine (ensures_lift (P := fun _ => True) fun _ _ => trivial).bind fun _ _ => ?_
  refine (ensures_fits_expandStmts (f := ⟨false, true, false⟩) rfl rfl hexpand stmts).bind
    fun expanded h => ensures_get_bind fun t ht => ensures_pure ?_
  rw [ht]
  cases b with
  | false => exact h
  | true => exact Form.FitsAll.fold (f := ⟨true, true, false⟩) h

end Folding

/-! ### Without declarations -/

section Again

mutual

/-- In an inlined form there is no inline function left, -/
theorem inlineDeclarations_of_fits {f : Form} (hf : f.inlined = true) :
    ∀ {s : Stmt}, f.Fits s → s.inlineDeclarations = []
  | .function _ _ true _ _, h => absurd (h.1 hf) Bool.noConfusion
  | .function _ _ false _ _, h => inlineDeclarationsAll_of_fits (f := f.inFunction) hf h.2
  | .ifChain _ (some _) _, h =>
    List.append_eq_nil_iff.2
      ⟨inlineDeclarationsBranches_of_fits hf h.2.1, inlineDeclarationsAll_of_fits hf h.2.2⟩
  | .ifChain _ none _, h => inlineDeclarationsBranches_of_fits hf h.2
  | .forLoop .., h => inlineDeclarationsAll_of_fits hf h.2.2
  | .attempt _ (some _) _, h =>
    List.append_eq_nil_iff.2 ⟨inlineDeclarationsAll_of_fits hf h.1,
      inlineDeclarationsAll_of_fits hf h.2⟩
  | .attempt _ none _, h => inlineDeclarationsAll_of_fits hf h
  | .block .., h => inlineDeclarationsAll_of_fits hf h
  | .atom _, _ => rfl
  | .breakLoop _, _ => rfl
  | .require .., _ => rfl

theorem inlineDeclarationsAll_of_fits {f : Form} (hf : f.inlined = true) :
    ∀ {stmts}, f.FitsAll stmts → Stmt.inlineDeclarationsAll stmts = []
  | [], _ => rfl
  | _ :: _, h =>
    List.append_eq_nil_iff.2 ⟨inlineDeclarations_of_fits hf h.1,
      inlineDeclarationsAll_of_fits hf h.2⟩

theorem inlineDeclarationsBranches_of_fits {f : Form} (hf : f.inlined = true) :
    ∀ {branches}, f.FitsBranches branches → Stmt.inlineDeclarationsBranches branches = []
  | [], _ => rfl
  | ⟨_, _, _⟩ :: _, h =>
    List.append_eq_nil_iff.2
      ⟨inlineDeclarationsAll_of_fits hf h.2.1, inlineDeclarationsBranches_of_fits hf h.2.2⟩

end

variable {s : Inliner}

/-- Where there are no functions, every expression stays. -/
theorem gives_expand_self (hs : s.functions = []) (e : Expr) : Gives (expand e) s e s := by
  rw [expand, gives_get_bind]
  refine gives_expandAt_of_free _ fun n _ => ?_
  rw [hs]
  rfl

mutual

/-- so that nothing is expanded in it. -/
theorem gives_expandStmt_self {f : Form} (hf : f.inlined = true) (hs : s.functions = []) :
    ∀ {stmt}, f.Fits stmt → Gives (expandStmt stmt) s [stmt] s
  | .atom a, _ => gives_bind.2 ⟨_, s, Atom.gives_mapExprsM_self (gives_expand_self hs) a, rfl⟩
  | .function _ _ true _ _, h => absurd (h.1 hf) Bool.noConfusion
  | .function _ _ false _ _, h =>
    gives_bind.2 ⟨_, s, gives_expandStmts_self (f := f.inFunction) hf hs h.2, rfl⟩
  | .ifChain _ (some _) _, h =>
    gives_bind.2 ⟨_, s, gives_expandBranches_self hf hs h.2.1,
      gives_bind.2 ⟨_, s, gives_expandStmts_self hf hs h.2.2, rfl⟩⟩
  | .ifChain _ none _, h => gives_bind.2 ⟨_, s, gives_expandBranches_self hf hs h.2, rfl⟩
  | .forLoop _ collection _ _, h =>
    gives_bind.2 ⟨_, s, gives_expand_self hs collection,
      gives_bind.2 ⟨_, s, gives_expandStmts_self hf hs h.2.2, rfl⟩⟩
  | .breakLoop _, _ => rfl
  | .attempt _ (some _) _, h =>
    gives_bind.2 ⟨_, s, gives_expandStmts_self hf hs h.1,
      gives_bind.2 ⟨_, s, gives_expandStmts_self hf hs h.2, rfl⟩⟩
  | .attempt _ none _, h => gives_bind.2 ⟨_, s, gives_expandStmts_self hf hs h, rfl⟩
  | .require .., _ => rfl
  | .block .., h => gives_bind.2 ⟨_, s, gives_expandStmts_self hf hs h, rfl⟩

theorem gives_expandStmts_self {f : Form} (hf : f.inlined = true) (hs : s.functions = []) :
    ∀ {stmts}, f.FitsAll stmts → Gives (expandStmts stmts) s stmts s
  | [], _ => rfl
  | _ :: _, h =>
    gives_bind.2 ⟨_, s, gives_expandStmt_self hf hs h.1,
      gives_bind.2 ⟨_, s, gives_expandStmts_self hf hs h.2, rfl⟩⟩

theorem gives_expandBranches_self {f : Form} (hf : f.inlined = true) (hs : s.functions = []) :
    ∀ {branches}, f.FitsBranches branches → Gives (expandBranches branches) s branches s
  | [], _ => rfl
  | ⟨cond, _, _⟩ :: _, h =>
    gives_bind.2 ⟨_, s, gives_expand_self hs cond,
      gives_bind.2 ⟨_, s, gives_expandStmts_self hf hs h.2.1,
      gives_bind.2 ⟨_, s, gives_expandBranches_self hf hs h.2.2, rfl⟩⟩⟩

end

/-- **A script without inline declarations is given back, folded if it was, and nothing is
counted.** -/
theorem gives_run_of_fits {f : Form} (hf : f.inlined = true) {stmts : List Stmt}
    (h : f.FitsAll stmts) : Gives (run stmts) (new f.folded) stmts (new f.folded) := by
  have hexpand := gives_expandStmts_self (s := new f.folded) hf rfl h
  rw [run, inlineDeclarationsAll_of_fits hf h]
  refine gives_bind.2 ⟨_, _, rfl, gives_get_bind.2 (gives_bind.2 ⟨(), _, rfl, ?_⟩)⟩
  refine gives_bind.2 ⟨_, _, hexpand, gives_get_bind.2 (gives_pure.2 ⟨?_, rfl⟩)⟩
  split
  · rename_i hfolding
    exact (h.foldAll_eq hfolding).symm
  · rfl

end Again

end Inliner

/-! ## All passes -/

/-- The form in which the passes of the options leave a script. -/
def Options.form (options : Options) : Form := ⟨options.folding, options.inlining, true⟩

/-- What lowering gives has the form that its options ask for. -/
theorem Options.Lowers.fits {options : Options} {stmts lowered : List Stmt}
    (h : options.Lowers stmts lowered) : options.form.FitsAll lowered := by
  obtain ⟨inlined, hinlines, unroller, hunroll⟩ := h
  have hfolded : (Form.mk options.folding false false).FitsAll (options.folded stmts) := by
    rw [Options.folded]
    cases options.folding with
    | false => exact Form.fitsAll_any stmts
    | true => exact Form.FitsAll.fold (Form.fitsAll_any stmts)
  have hinlined : options.form.inFunction.FitsAll inlined := by
    rw [Options.Inlines] at hinlines
    rw [Options.form]
    cases hinlining : options.inlining with
    | false =>
      rw [hinlining, if_neg Bool.false_ne_true] at hinlines
      rwa [hinlines]
    | true =>
      rw [hinlining, if_pos rfl] at hinlines
      obtain ⟨inliner, hrun⟩ := hinlines
      exact ((Inliner.ensures_fits_run (b := options.folding) _).run rfl hrun).2
  exact ((Unroller.ensures_fits_run hinlined).run trivial hunroll).2

namespace Lowering

/-- What a pass leaves a note of before it starts. -/
def started (passes : List LoweringPass) : Array Note :=
  (passes.map fun pass => Note.runningPass pass.name).toArray

/-- The pass gives the script back, and all it leaves is the note that it was run. -/
def Rests (pass : LoweringPass) (stmts : List Stmt) : Prop :=
  ∀ s, Gives (runPass pass stmts) s stmts { s with notes := s.notes ++ started [pass] }

/-- Passes that leave a script leave it also one after the other; only their notes are added. -/
theorem gives_runPasses_of_rests {stmts : List Stmt} :
    ∀ {passes : List LoweringPass}, (∀ pass ∈ passes, Rests pass stmts) → ∀ s,
      Gives (runPasses passes stmts) s stmts { s with notes := s.notes ++ started passes }
  | [], _, s => gives_pure.2 ⟨rfl, by simp [started]⟩
  | pass :: rest, h, s => by
    have hrest := gives_runPasses_of_rests (fun p hp => h p (List.mem_cons_of_mem _ hp))
      { s with notes := s.notes ++ started [pass] }
    rw [Array.append_assoc] at hrest
    refine gives_bind.2 ⟨_, _, h pass List.mem_cons_self s, ?_⟩
    simpa [started] using hrest

theorem gives_inline {fold : Bool} {stmts out : List Stmt} {inliner : Inliner}
    (h : Gives (Inliner.run stmts) (Inliner.new fold) out inliner) (s : Lowering) :
    Gives (inline fold stmts) s out
      { counters :=
          { s.counters with
            functionsInlined := s.counters.functionsInlined + inliner.functionsInlined
            callsInlined := s.counters.callsInlined + inliner.callsInlined }
        notes := s.notes ++ inliner.notes } := by
  have hrun : (Inliner.run stmts).run.run (Inliner.new fold) = (.ok out, inliner) := h
  rw [inline, hrun]
  rfl

/-- Unrolling as a pass adds its rounds to the counters and its notes to the notes. -/
theorem gives_unroll {maxIterations : Nat} {stmts out : List Stmt} {unroller : Unroller}
    (h : Gives (Unroller.run stmts) (Unroller.new maxIterations) out unroller) (s : Lowering) :
    Gives (unroll maxIterations stmts) s out
      { counters :=
          { s.counters with
            loopsUnrolled := s.counters.loopsUnrolled + unroller.loopsUnrolled
            iterations := s.counters.iterations + unroller.iterations }
        notes := s.notes ++ unroller.notes } := by
  have hrun : (Unroller.run stmts).run.run (Unroller.new maxIterations) = (.ok out, unroller) := h
  rw [unroll, hrun]
  rfl

theorem gives_runPasses_unrolling {maxIterations : Nat} {stmts out : List Stmt} {s t : Lowering} :
    Gives (runPasses [.unrolling maxIterations] stmts) s out t ↔
      ∃ unroller, Gives (Unroller.run stmts) (Unroller.new maxIterations) out unroller ∧
        t = { counters :=
                { s.counters with
                  loopsUnrolled := s.counters.loopsUnrolled + unroller.loopsUnrolled
                  iterations := s.counters.iterations + unroller.iterations }
              notes := s.notes ++ started [.unrolling maxIterations] ++ unroller.notes } := by
  have hpass {unroller : Unroller}
      (h : Gives (Unroller.run stmts) (Unroller.new maxIterations) out unroller) :=
    gives_unroll h { s with notes := s.notes ++ started [.unrolling maxIterations] }
  constructor
  · intro h
    obtain ⟨between, _, hfirst, hlast⟩ := gives_bind.1 h
    obtain ⟨rfl, rfl⟩ := gives_pure.1 hlast
    obtain ⟨_, _, hnote, hunroll⟩ := gives_bind.1 hfirst
    obtain ⟨unroller, hrun⟩ := exists_gives_unroll hunroll
    obtain rfl := gives_modify.1 hnote
    exact ⟨unroller, hrun, (hunroll.unique (hpass hrun)).2⟩
  · rintro ⟨unroller, hrun, rfl⟩
    exact gives_bind.2 ⟨out, _, gives_bind.2 ⟨(), _, rfl, hpass hrun⟩, gives_pure.2 ⟨rfl, rfl⟩⟩

variable {options : Options} {lowered : List Stmt}

/-- A script that has the form that the options ask for is left by each of their passes. -/
theorem rests_of_fits (h : options.form.FitsAll lowered) :
    ∀ pass ∈ options.passes, Rests pass lowered := by
  intro pass hpass s
  simp only [Options.passes, List.mem_append, List.mem_ite_nil_right, List.mem_singleton] at hpass
  rcases hpass with (⟨hfolding, rfl⟩ | ⟨hinlining, rfl⟩) | rfl
  · refine gives_bind.2 ⟨(), _, rfl, gives_pure.2 ⟨?_, rfl⟩⟩
    exact (h.foldAll_eq hfolding).symm
  · have hrun := gives_inline (Inliner.gives_run_of_fits (f := options.form) hinlining h)
      { s with notes := s.notes ++ started [.inlining options.folding] }
    rw [show (Inliner.new options.form.folded).notes = #[] from rfl, Array.append_empty] at hrun
    exact gives_bind.2 ⟨(), _, rfl, hrun⟩
  · have hrun := gives_unroll
      (Unroller.gives_run_of_fits (f := options.form) rfl
        (Unroller.new options.maxLoopIterations) h)
      { s with notes := s.notes ++ started [.unrolling options.maxLoopIterations] }
    rw [show (Unroller.new options.maxLoopIterations).notes = #[] from rfl,
      Array.append_empty] at hrun
    exact gives_bind.2 ⟨(), _, rfl, hrun⟩

/-- **A script that has been lowered is lowered already.**  Where the passes of any options give a
script for any other one, the same passes give it back for itself, with every place in it, count
nothing, and have nothing to say but that they were run. -/
theorem lowering_is_idempotent {stmts : List Stmt} {s t : Lowering}
    (h : Gives (runPasses options.passes stmts) s lowered t) :
    Gives (runPasses options.passes lowered) {} lowered
      { counters := {}, notes := started options.passes } := by
  have hlowers : options.Lowers stmts lowered := lowers_of_gives h
  simpa using gives_runPasses_of_rests (rests_of_fits hlowers.fits) {}

/-- Two loops, one in the other, with calls of an inline function and a `break` under a condition
that each copy decides: the passes have something to do once. -/
theorem lowering_is_idempotent_nestedLoops :
    let text :=
      "function inline twice(a) \x7b return a * 2; \x7d for (i of [1 .. 3]) \x7b " ++
        "for (j of [4, 5]) \x7b if (twice(i) == j) \x7b break; \x7d print(i, twice(j)); \x7d \x7d"
    let passes := ({} : Options).passes
    ∃ program lowered t, Program.parse text 0 = .ok program ∧
      Gives (runPasses passes program.body) {} lowered t ∧ lowered.length = 4 ∧
      t.counters = ⟨1, 2, 4, 8⟩ ∧
      Gives (runPasses passes lowered) {} lowered { counters := {}, notes := started passes } := by
  intro text passes
  have hruns : succeeds (Program.parse text 0) (fun program =>
      succeeds (outcome (runPasses passes program.body) {}).1
        (fun lowered => lowered.length == 4) &&
        (outcome (runPasses passes program.body) {}).2.counters == ⟨1, 2, 4, 8⟩) = true := by
    decide +kernel
  obtain ⟨program, hparse, hbehind⟩ := exists_of_succeeds hruns
  rw [Bool.and_eq_true, beq_iff_eq] at hbehind
  obtain ⟨lowered, hlowered, hlength⟩ := exists_of_succeeds hbehind.1
  have hgives : Gives (runPasses passes program.body) {} lowered
      (outcome (runPasses passes program.body) {}).2 := Prod.ext hlowered rfl
  exact ⟨program, lowered, _, hparse, hgives, beq_iff_eq.1 hlength, hbehind.2,
    lowering_is_idempotent hgives⟩

end Lowering

end EdgeScript
