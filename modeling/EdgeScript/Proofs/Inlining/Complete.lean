import EdgeScript.Proofs.Calls.Refusal
import EdgeScript.Proofs.Inlining.Termination
import EdgeScript.Proofs.Occurrence

/-!
# Nothing is left to be inlined

A script whose calls are expanded has no inline declaration, and no call of an inline function in
any expression of any statement, wherever the statement stands (`Stmt.Cleared`, said of all of them
by `Stmt.Everywhere`).  The walk that expands statements establishes this from what it makes of
single expressions, and folding keeps it.
-/

set_option autoImplicit false

namespace EdgeScript

open Pass

/-! ## Cleared scripts -/

namespace Stmt

/-- The statement is no inline declaration, and its own expressions are as `Q` says. -/
def Cleared (Q : Expr → Prop) (s : Stmt) : Prop :=
  (∀ name params body span, s ≠ .function name params true body span) ∧ ∀ e ∈ s.exprs, Q e

/-- All statements of a script are cleared. -/
def ClearedAll (Q : Expr → Prop) : List Stmt → Prop :=
  Everywhere fun _ => Cleared Q

variable {Q : Expr → Prop} {span : Span}

theorem clearedAll_nil : ClearedAll Q [] := everywhere_nil

theorem clearedAll_append {first second : List Stmt} :
    ClearedAll Q (first ++ second) ↔ ClearedAll Q first ∧ ClearedAll Q second := everywhere_append

theorem clearedAll_cons {s : Stmt} {rest : List Stmt} :
    ClearedAll Q (s :: rest) ↔ ClearedAll Q [s] ∧ ClearedAll Q rest := everywhere_cons

theorem clearedAll_singleton {s : Stmt} :
    ClearedAll Q [s] ↔ s.Cleared Q ∧ ∀ b ∈ s.bodies, ClearedAll Q b.2 := everywhere_singleton

theorem clearedAll_atom {a : Atom} : ClearedAll Q [.atom a] ↔ ∀ e ∈ a.exprs, Q e := by
  simp [clearedAll_singleton, Cleared, bodies, exprs]

/-- An inline function must be gone; in the body of another all must be cleared. -/
theorem clearedAll_function {name : Ident} {params : List Param} {isInline : Bool}
    {body : List Stmt} :
    ClearedAll Q [.function name params isInline body span] ↔
      isInline = false ∧ ClearedAll Q body := by
  cases isInline with
  | false => simp [clearedAll_singleton, Cleared, bodies, exprs]
  | true =>
    have hself : ¬ Cleared Q (.function name params true body span) := fun h => h.1 _ _ _ _ rfl
    simp [clearedAll_singleton, hself]

theorem clearedAll_ifChain {branches : List (Branch Stmt)} {otherwise : Option (List Stmt)} :
    ClearedAll Q [.ifChain branches otherwise span] ↔
      (∀ b ∈ branches, Q b.cond ∧ ClearedAll Q b.body) ∧ ∀ body ∈ otherwise, ClearedAll Q body := by
  simp only [clearedAll_singleton, Cleared, bodies, exprs, List.forall_mem_append,
    List.forall_mem_map]
  simp [forall_and, and_assoc]

theorem clearedAll_forLoop {var : Option Ident} {collection : Expr} {body : List Stmt} :
    ClearedAll Q [.forLoop var collection body span] ↔ Q collection ∧ ClearedAll Q body := by
  simp [clearedAll_singleton, Cleared, bodies, exprs]

theorem clearedAll_attempt {body : List Stmt} {handler : Option (List Stmt)} :
    ClearedAll Q [.attempt body handler span] ↔
      ClearedAll Q body ∧ ∀ stmts ∈ handler, ClearedAll Q stmts := by
  simp [clearedAll_singleton, Cleared, bodies, exprs]

theorem clearedAll_block {body : List Stmt} :
    ClearedAll Q [.block body span] ↔ ClearedAll Q body := by
  simp [clearedAll_singleton, Cleared, bodies, exprs]

theorem clearedAll_breakLoop : ClearedAll Q [.breakLoop span] := by
  simp [clearedAll_singleton, Cleared, bodies, exprs]

theorem clearedAll_require {path : String} {force : Bool} :
    ClearedAll Q [.require path force span] := by
  simp [clearedAll_singleton, Cleared, bodies, exprs]

/-! ### Folding -/

/-- What is left of a folded chain is cleared if its parts are. -/
theorem clearedAll_ofChain {folded : List (Branch Stmt) × Option (List Stmt)}
    {otherwise : Option (List Stmt)} (hbranches : ∀ b ∈ folded.1, Q b.cond ∧ ClearedAll Q b.body)
    (hlast : ∀ body ∈ folded.2, ClearedAll Q body)
    (hotherwise : ∀ body ∈ otherwise, ClearedAll Q body) :
    ClearedAll Q (ofChain folded otherwise span) := by
  have hbody : ∀ body ∈ folded.2.or otherwise, ClearedAll Q body := by
    intro body hbody
    rcases Option.or_eq_some_iff.1 hbody with hbody | ⟨-, hbody⟩
    · exact hlast body hbody
    · exact hotherwise body hbody
  rw [ofChain]
  split
  · cases hor : folded.2.or otherwise with
    | none => exact clearedAll_nil
    | some body => exact hbody body hor
  · exact clearedAll_ifChain.2 ⟨hbranches, hbody⟩

mutual

/-- Folding keeps what is cleared, if it does so with expressions. -/
theorem clearedAll_fold (hQ : ∀ e, Q e → Q e.fold) :
    ∀ {s : Stmt}, ClearedAll Q [s] → ClearedAll Q s.fold
  | .atom a, h => by
    refine clearedAll_atom.2 ?_
    rw [Atom.exprs_mapExprs, List.forall_mem_map]
    exact fun e he => hQ e (clearedAll_atom.1 h e he)
  | .function .., h => by
    obtain ⟨hinline, hbody⟩ := clearedAll_function.1 h
    exact clearedAll_function.2 ⟨hinline, clearedAll_foldAll hQ hbody⟩
  | .ifChain branches (some body) span, h => by
    obtain ⟨hbranches, hbody⟩ := clearedAll_ifChain.1 h
    obtain ⟨hfolded, hlast⟩ := clearedAll_foldBranches hQ hbranches
    refine clearedAll_ofChain hfolded hlast ?_
    simpa using clearedAll_foldAll hQ (hbody body rfl)
  | .ifChain branches none span, h => by
    obtain ⟨hbranches, -⟩ := clearedAll_ifChain.1 h
    obtain ⟨hfolded, hlast⟩ := clearedAll_foldBranches hQ hbranches
    exact clearedAll_ofChain hfolded hlast (by simp)
  | .forLoop .., h => by
    obtain ⟨hcollection, hbody⟩ := clearedAll_forLoop.1 h
    exact clearedAll_forLoop.2 ⟨hQ _ hcollection, clearedAll_foldAll hQ hbody⟩
  | .breakLoop _, _ => clearedAll_breakLoop
  | .attempt body (some handler) span, h => by
    obtain ⟨hbody, hhandler⟩ := clearedAll_attempt.1 h
    refine clearedAll_attempt.2 ⟨clearedAll_foldAll hQ hbody, ?_⟩
    simpa using clearedAll_foldAll hQ (hhandler handler rfl)
  | .attempt body none span, h => by
    obtain ⟨hbody, -⟩ := clearedAll_attempt.1 h
    exact clearedAll_attempt.2 ⟨clearedAll_foldAll hQ hbody, by simp⟩
  | .require .., _ => clearedAll_require
  | .block .., h => clearedAll_block.2 (clearedAll_foldAll hQ (clearedAll_block.1 h))

theorem clearedAll_foldAll (hQ : ∀ e, Q e → Q e.fold) :
    ∀ {stmts : List Stmt}, ClearedAll Q stmts → ClearedAll Q (foldAll stmts)
  | [], _ => clearedAll_nil
  | s :: rest, h => by
    obtain ⟨hs, hrest⟩ := clearedAll_cons.1 h
    exact clearedAll_append.2 ⟨clearedAll_fold hQ hs, clearedAll_foldAll hQ hrest⟩

theorem clearedAll_foldBranches (hQ : ∀ e, Q e → Q e.fold) : ∀ {branches : List (Branch Stmt)},
    (∀ b ∈ branches, Q b.cond ∧ ClearedAll Q b.body) →
      (∀ b ∈ (foldBranches branches).1, Q b.cond ∧ ClearedAll Q b.body) ∧
        ∀ body ∈ (foldBranches branches).2, ClearedAll Q body
  | [], _ => by simp [foldBranches]
  | ⟨cond, body, span⟩ :: rest, h => by
    obtain ⟨⟨hcond, hbody⟩, hrest⟩ := List.forall_mem_cons.1 h
    have hfolded := clearedAll_foldAll hQ hbody
    have hrest' := clearedAll_foldBranches hQ hrest
    rw [foldBranches]
    split
    · exact ⟨by simp, by simpa using hfolded⟩
    · exact hrest'
    · exact ⟨List.forall_mem_cons.2 ⟨⟨hQ cond hcond, hfolded⟩, hrest'.1⟩, hrest'.2⟩

end

end Stmt

/-! ## The walk through a script -/

namespace Inliner

section Walk

open Stmt

variable {I : Inliner → Prop} {Q : Expr → Prop}

mutual

/-- Expansion clears a statement, if it does so with every expression. -/
theorem ensures_cleared_expandStmt (hexpand : ∀ e, Ensures I (expand e) Q) :
    ∀ s : Stmt, Ensures I (expandStmt s) (ClearedAll Q)
  | .atom a =>
    (Atom.ensures_mapExprsM hexpand a).bind fun _ ha => ensures_pure (clearedAll_atom.2 ha.1)
  | .function _ _ true _ _ => ensures_pure clearedAll_nil
  | .function _ _ false body _ =>
    (ensures_cleared_expandStmts hexpand body).bind fun _ hbody =>
      ensures_pure (clearedAll_function.2 ⟨rfl, hbody⟩)
  | .ifChain branches (some body) _ =>
    (ensures_cleared_expandBranches hexpand branches).bind fun _ hbranches =>
      (ensures_cleared_expandStmts hexpand body).bind fun _ hbody =>
        ensures_pure (clearedAll_ifChain.2 ⟨hbranches, by simpa using hbody⟩)
  | .ifChain branches none _ =>
    (ensures_cleared_expandBranches hexpand branches).bind fun _ hbranches =>
      ensures_pure (clearedAll_ifChain.2 ⟨hbranches, by simp⟩)
  | .forLoop _ collection body _ =>
    (hexpand collection).bind fun _ hcollection =>
      (ensures_cleared_expandStmts hexpand body).bind fun _ hbody =>
        ensures_pure (clearedAll_forLoop.2 ⟨hcollection, hbody⟩)
  | .breakLoop _ => ensures_pure clearedAll_breakLoop
  | .attempt body (some handler) _ =>
    (ensures_cleared_expandStmts hexpand body).bind fun _ hbody =>
      (ensures_cleared_expandStmts hexpand handler).bind fun _ hhandler =>
        ensures_pure (clearedAll_attempt.2 ⟨hbody, by simpa using hhandler⟩)
  | .attempt body none _ =>
    (ensures_cleared_expandStmts hexpand body).bind fun _ hbody =>
      ensures_pure (clearedAll_attempt.2 ⟨hbody, by simp⟩)
  | .require .. => ensures_pure clearedAll_require
  | .block body _ =>
    (ensures_cleared_expandStmts hexpand body).bind fun _ hbody =>
      ensures_pure (clearedAll_block.2 hbody)

theorem ensures_cleared_expandStmts (hexpand : ∀ e, Ensures I (expand e) Q) :
    ∀ stmts : List Stmt, Ensures I (expandStmts stmts) (ClearedAll Q)
  | [] => ensures_pure clearedAll_nil
  | s :: rest =>
    (ensures_cleared_expandStmt hexpand s).bind fun _ hfirst =>
      (ensures_cleared_expandStmts hexpand rest).bind fun _ hrest =>
        ensures_pure (clearedAll_append.2 ⟨hfirst, hrest⟩)

theorem ensures_cleared_expandBranches (hexpand : ∀ e, Ensures I (expand e) Q) :
    ∀ branches : List (Branch Stmt),
      Ensures I (expandBranches branches) fun out => ∀ b ∈ out, Q b.cond ∧ ClearedAll Q b.body
  | [] => ensures_pure (by simp)
  | ⟨cond, body, _⟩ :: rest =>
    (hexpand cond).bind fun _ hcond =>
      (ensures_cleared_expandStmts hexpand body).bind fun _ hbody =>
        (ensures_cleared_expandBranches hexpand rest).bind fun _ hrest =>
          ensures_pure (List.forall_mem_cons.2 ⟨⟨hcond, hbody⟩, hrest⟩)

end

end Walk

/-- **Behind inlining, nothing is left to be inlined.** -/
theorem clearedAll_of_gives_run {stmts out : List Stmt} {s t u : Inliner}
    (h : Gives (run stmts) s out t)
    (hcollect : Gives (collect (Stmt.inlineDeclarationsAll stmts)) s () u) :
    Stmt.ClearedAll (fun e => ∀ n ∈ u.functions.names, n ∉ e.calls) out := by
  obtain ⟨u', v, expanded, hcollect', hcycles, hexpand, hout⟩ := exists_gives_of_run h
  obtain ⟨-, rfl⟩ := hcollect.unique hcollect'
  have hcleared := ((ensures_cleared_expandStmts (ensures_expand hcycles) stmts).run rfl hexpand).2
  rcases hout with rfl | rfl
  · exact hcleared
  · exact Stmt.clearedAll_foldAll (fun e he n hn hcall => he n hn (e.calls_fold n hcall)) hcleared

/-- While expressions are expanded the table of functions stays, so the depth is the same for all of
them. -/
theorem outcome_mapM_expand {v : Inliner} {es : List Expr} {n : Nat} (hv : v.functions.length = n) :
    outcome (es.mapM expand) v = outcome (es.mapM (expandAt (n + 1))) v := by
  induction es generalizing v with
  | nil => rfl
  | cons e es ih =>
    have hfirst : outcome (expand e) v = outcome (expandAt (n + 1) e) v := by
      rw [← hv]
      rfl
    rcases hrun : outcome (expandAt (n + 1) e) v with ⟨error | x, t⟩
    · rw [outcome_mapM_of_fails hrun, outcome_mapM_of_fails (hfirst.trans hrun)]
    · have ht : t.functions.length = n := by rw [functions_expandAt hrun, hv]
      rw [outcome_mapM_of_gives hrun, outcome_mapM_of_gives (hfirst.trans hrun), ih ht]

/-- **The expansion of calls ends and is complete.**  Let the declarations of a script be collected
without a recursive function among them.  Then, for whatever expressions, the recursion that expands
the calls in what calls were replaced by comes to an end, and to one only: what the bounded
expansion gives.  And every statement of a script whose calls are expanded, also in the bodies of
functions, is no inline declaration, and contains no call of a function that was collected. -/
theorem expansion_ends_and_is_complete {stmts : List Stmt} {s u : Inliner}
    (hcollect : Gives (collect (Stmt.inlineDeclarationsAll stmts)) s () u)
    (hcycles : u.functions.checkCycles = .ok ()) :
    (∀ v, v.functions = u.functions → ∀ es r t, Expands v es r t ↔
      outcome (es.mapM expand) v = (r, t)) ∧
      (∀ d ∈ Stmt.inlineDeclarationsAll stmts, u.functions.contains d.name = true) ∧
      ∀ out t, Gives (run stmts) s out t → ∀ way stmt, Stmt.Occurs out way stmt →
        (∀ name params body span, stmt ≠ .function name params true body span) ∧
          ∀ e ∈ stmt.exprs, ∀ callee args span, e.Contains (.call callee args span) →
            u.functions.contains callee.name = false := by
  refine ⟨fun v hv es r t => ?_, fun d hd => ?_, fun out t hrun way stmt hstmt => ?_⟩
  · rw [expands_iff (by rw [hv, hcycles]), outcome_mapM_expand rfl]
  · exact FunctionTable.contains_iff_mem_names.2 ((mem_names_of_collect hcollect).2 d hd).1
  · obtain ⟨hdeclaration, hexprs⟩ := clearedAll_of_gives_run hrun hcollect way stmt hstmt
    refine ⟨hdeclaration, fun e he callee args span hcall => ?_⟩
    have hcalls : callee.name ∈ e.calls :=
      Expr.mem_calls_iff_contains.2 ⟨callee, args, span, hcall, rfl⟩
    by_contra hinline
    rw [Bool.not_eq_false] at hinline
    exact hexprs e he callee.name (FunctionTable.contains_iff_mem_names.1 hinline) hcalls

/-- A function that calls another one with the result of a call of it, in the collection of a loop
and in its body. -/
theorem expansion_ends_and_is_complete_nested :
    let text :=
      "function inline twice(a) \x7b return a + a; \x7d " ++
        "function inline quad(a) \x7b return twice(twice(a)); \x7d " ++
        "function f() \x7b for (i of [quad(1)]) \x7b print(quad(i)); \x7d \x7d"
    ∃ program u out t, Program.parse text 0 = .ok program ∧
      Gives (collect (Stmt.inlineDeclarationsAll program.body)) (.new false) () u ∧
      u.functions.checkCycles = .ok () ∧ Gives (run program.body) (.new false) out t ∧
      t.callsInlined = 6 ∧ (∀ es, ∃ r v, Expands u es r v) ∧ ∀ way stmt, Stmt.Occurs out way stmt →
        (∀ name params body span, stmt ≠ .function name params true body span) ∧
          ∀ e ∈ stmt.exprs, ∀ callee args span, e.Contains (.call callee args span) →
            u.functions.contains callee.name = false := by
  intro text
  have hruns : succeeds (Program.parse text 0) (fun program =>
      succeeds (outcome (run program.body) (.new false)).1 (fun _ => true) &&
        (outcome (run program.body) (.new false)).2.callsInlined == 6) = true := by
    decide +kernel
  obtain ⟨program, hparse, hbehind⟩ := exists_of_succeeds hruns
  rw [Bool.and_eq_true, beq_iff_eq] at hbehind
  obtain ⟨out, hout, -⟩ := exists_of_succeeds hbehind.1
  have hrun : Gives (run program.body) (.new false) out
      (outcome (run program.body) (.new false)).2 :=
    Prod.ext hout rfl
  obtain ⟨u, -, -, hcollect, hcycles, -⟩ := exists_gives_of_run hrun
  obtain ⟨hends, -, hcomplete⟩ := expansion_ends_and_is_complete hcollect hcycles
  refine ⟨program, u, out, _, hparse, hcollect, hcycles, hrun, hbehind.2, fun es => ?_,
    hcomplete out _ hrun⟩
  exact ⟨_, _, (hends u rfl es _ _).2 rfl⟩

end Inliner

end EdgeScript
