import EdgeScript.Proofs.Leftover.Rewriting

/-!
# What is left after lowering

The expansion of calls leaves a script with what it had, and unrolling takes the loops away.  A copy
of a loop's body has fewer loops inside each other than the loop, so the depth to which it is
unrolled is enough; its own `break`s are cut off, and those of inner loops have gone with their
loops.  So nothing that the markup has no word for is left (`Lowering.clean_runPasses`).
-/

set_option autoImplicit false

namespace EdgeScript

open Pass

/-! ## Unrolling -/

/-- What may stand at a place once loops have been unrolled. -/
def Allowed.unrolled (allowed : Allowed) : Allowed := { allowed with loops := false }

namespace Unroller

open Stmt

/-- Loops nested less deep than `depth` are unrolled by `inner`. -/
def Inner.Lowers (inner : Inner) (depth : Nat) : Prop :=
  ∀ a known stmts, loopDepthAll stmts < depth → withinAll a stmts = true →
    Clean (inner known stmts) fun out => withinAll a.unrolled out = true

variable {inner : Inner} {depth : Nat} {a : Allowed}

/-- A round has neither loops nor a `break`. -/
theorem clean_round (hinner : inner.Lowers depth) (known : Known) (var : String) (element : Expr)
    {body : List Stmt} (hdepth : loopDepthAll body < depth)
    (hbody : withinAll a.inLoop body = true) :
    Clean (round inner known var element body) fun r => withinAll a.unrolled r.1 = true := by
  have hcopy : withinAll a.inLoop (foldAll (substAll var element body)) = true :=
    withinAll_foldAll (within_substAll var element hbody)
  have hdepth' : loopDepthAll (foldAll (substAll var element body)) < depth := by
    have hle := loopDepthAll_foldAll_le (substAll var element body)
    rw [loopDepth_substAll] at hle
    omega
  refine (hinner _ known _ hdepth' hcopy).bind fun copy hunrolled => ?_
  have hle : a.inLoop.unrolled.outOfLoop ≤ a.unrolled :=
    ⟨Bool.le_refl _, Bool.false_le _, Bool.le_refl _, Bool.le_refl _⟩
  exact clean_lift ((cleanResult_cutAtBreak hunrolled).mono fun r hr => withinAll_mono hle hr)

theorem clean_countIteration (var : String) (span : Span) :
    Clean (countIteration var span) fun _ => True := by
  refine clean_get.seq fun s => ?_
  split
  · exact (clean_throw rfl (P := fun _ => True)).seq fun _ => clean_set _
  · exact clean_set _

/-- The rounds of a loop, one behind the other, may stand where the loop stood. -/
theorem clean_copies (hinner : inner.Lowers depth) (known : Known) (task : Task)
    (hdepth : loopDepthAll task.body < depth) (hbody : withinAll a.inLoop task.body = true)
    (rounds i : Nat) :
    Clean (copies inner known task rounds i) fun r => withinAll a.unrolled r.1 = true := by
  induction rounds using Nat.strongRecOn generalizing i with
  | _ rounds ih =>
    unfold copies
    split
    · exact clean_pure rfl
    · refine (clean_countIteration ..).seq fun _ => ?_
      refine (clean_round hinner known _ _ hdepth hbody).bind fun r hr => ?_
      dsimp only
      split
      · exact (clean_modify _).seq fun _ => clean_pure hr
      · cases rounds with
        | zero => exact clean_pure hr
        | succ rounds =>
          refine (ih rounds (Nat.lt_succ_self _) (i + 1)).bind fun r' hr' => clean_pure ?_
          rw [withinAll_append, hr, hr']
          rfl

/-- A loop is replaced by its rounds, whatever it runs over. -/
theorem clean_unrollLoop (hinner : inner.Lowers depth) (known : Known) (var : Option Ident)
    (collection : Expr) {body : List Stmt} (span : Span) (hdepth : loopDepthAll body < depth)
    (hbody : withinAll a.inLoop body = true) :
    Clean (unrollLoop inner known var collection body span)
      fun out => withinAll a.unrolled out = true := by
  unfold unrollLoop
  dsimp only
  split
  · exact clean_throw rfl
  · refine clean_get.seq fun s => ?_
    refine (clean_copies hinner known _ hdepth hbody _ _).bind fun r hr => ?_
    refine (clean_modify _).seq fun _ => ?_
    exact (clean_modify _).seq fun _ => clean_pure hr

mutual

/-- Unrolling leaves no loop in a statement, if it leaves none in the bodies of loops that are less
deep. -/
theorem clean_unrollStmt (hinner : inner.Lowers depth) (known : Known) :
    ∀ {s}, loopDepth s < depth + 1 → within a s = true →
      Clean (unrollStmt inner known s) fun r => withinAll a.unrolled r.1 = true
  | .forLoop var collection body span, hdepth, h => by
    rw [within, Bool.and_eq_true] at h
    rw [loopDepth] at hdepth
    rw [unrollStmt]
    exact (clean_unrollLoop hinner known var collection span
      (Nat.lt_of_succ_lt_succ hdepth) h.2).bind
      fun out hout => clean_pure hout
  | .atom x, _, h => by
    rw [within] at h
    rw [unrollStmt]
    refine clean_pure ?_
    rw [withinAll, within, withinAll, Bool.and_true]
    cases x <;> exact h
  | .block body span, hdepth, h => by
    rw [within] at h
    rw [loopDepth] at hdepth
    rw [unrollStmt]
    refine (clean_unrollStmts hinner known hdepth h).bind fun r hr => clean_pure ?_
    rw [withinAll, within, hr, withinAll]
    rfl
  | .ifChain branches (some body) span, hdepth, h => by
    rw [within, Bool.and_eq_true] at h
    rw [loopDepth] at hdepth
    rw [unrollStmt]
    refine (clean_unrollBranches hinner known (by omega) h.1).bind fun out hout => ?_
    refine (clean_unrollStmts hinner known (by omega) h.2).bind fun r hr => clean_pure ?_
    rw [withinAll, within, hout, hr, withinAll]
    rfl
  | .ifChain branches none span, hdepth, h => by
    rw [within] at h
    rw [loopDepth] at hdepth
    rw [unrollStmt]
    refine (clean_unrollBranches hinner known hdepth h).bind fun out hout => clean_pure ?_
    rw [withinAll, within, hout, withinAll]
    rfl
  | .attempt body (some handler) span, hdepth, h => by
    rw [within, Bool.and_eq_true] at h
    rw [loopDepth] at hdepth
    rw [unrollStmt]
    refine (clean_unrollStmts hinner known (by omega) h.1).bind fun r hr => ?_
    refine (clean_unrollStmts hinner known (by omega) h.2).bind fun r' hr' => clean_pure ?_
    rw [withinAll, within, hr, hr', withinAll]
    rfl
  | .attempt body none span, hdepth, h => by
    rw [within] at h
    rw [loopDepth] at hdepth
    rw [unrollStmt]
    refine (clean_unrollStmts hinner known hdepth h).bind fun r hr => clean_pure ?_
    rw [withinAll, within, hr, withinAll]
    rfl
  | .function .., _, _ => by
    rw [unrollStmt]
    exact clean_pure rfl
  | .breakLoop _, _, h => by
    rw [within] at h
    rw [unrollStmt]
    refine clean_pure ?_
    rw [withinAll, within, withinAll, Bool.and_true]
    exact h
  | .require .., _, h => by
    rw [within] at h
    rw [unrollStmt]
    refine clean_pure ?_
    rw [withinAll, within, withinAll, Bool.and_true]
    exact h

theorem clean_unrollStmts (hinner : inner.Lowers depth) (known : Known) :
    ∀ {stmts}, loopDepthAll stmts < depth + 1 → withinAll a stmts = true →
      Clean (unrollStmts inner known stmts) fun r => withinAll a.unrolled r.1 = true
  | [], _, _ => by
    rw [unrollStmts]
    exact clean_pure rfl
  | s :: rest, hdepth, h => by
    rw [withinAll, Bool.and_eq_true] at h
    rw [loopDepthAll] at hdepth
    rw [unrollStmts]
    refine (clean_unrollStmt hinner known (by omega) h.1).bind fun r hr => ?_
    refine (clean_unrollStmts hinner r.2 (by omega) h.2).bind fun r' hr' => clean_pure ?_
    rw [withinAll_append, hr, hr']
    rfl

theorem clean_unrollBranches (hinner : inner.Lowers depth) (known : Known) :
    ∀ {branches}, loopDepthBranches branches < depth + 1 → withinBranches a branches = true →
      Clean (unrollBranches inner known branches) fun out => withinBranches a.unrolled out = true
  | [], _, _ => by
    rw [unrollBranches]
    exact clean_pure rfl
  | ⟨cond, body, span⟩ :: rest, hdepth, h => by
    rw [withinBranches, Bool.and_eq_true] at h
    rw [loopDepthBranches] at hdepth
    rw [unrollBranches]
    refine (clean_unrollStmts hinner known (by omega) h.1).bind fun r hr => ?_
    refine (clean_unrollBranches hinner known (by omega) h.2).bind fun out hout => clean_pure ?_
    rw [withinBranches, hr, hout]
    rfl

end

/-- So it leaves none at all, by induction on the depth of loops. -/
theorem lowers_unrollAt (depth : Nat) : (unrollAt depth).Lowers depth := by
  induction depth with
  | zero => exact fun _ _ _ hdepth _ => absurd hdepth (Nat.not_lt_zero _)
  | succ depth ih =>
    intro a known stmts hdepth h
    rw [unrollAt]
    exact (clean_unrollStmts ih known hdepth h).bind fun r hr => clean_pure hr

/-- **No loop survives.** -/
theorem clean_run {stmts : List Stmt} (h : withinAll a stmts = true) :
    Clean (run stmts) fun out => withinAll a.unrolled out = true :=
  lowers_unrollAt _ a [] stmts (Nat.lt_succ_self _) h

end Unroller

/-! ## Expanding calls -/

section Effects

variable {σ α β : Type}

/-- Each result of a walk along a list comes from an element of it. -/
theorem Pass.clean_mapM {f : α → Pass σ β} {R : α → β → Prop} {l : List α}
    (h : ∀ x ∈ l, Clean (f x) (R x)) : Clean (l.mapM f) fun ys => ∀ y ∈ ys, ∃ x ∈ l, R x y := by
  induction l with
  | nil => exact clean_pure fun _ h => absurd h List.not_mem_nil
  | cons x l ih =>
    rw [List.mapM_cons]
    refine (h x (List.mem_cons_self ..)).bind fun y hy => ?_
    refine (ih fun x hx => h x (List.mem_cons_of_mem _ hx)).bind fun ys hys => clean_pure ?_
    refine List.forall_mem_cons.2 ⟨⟨x, List.mem_cons_self .., hy⟩, fun z hz => ?_⟩
    obtain ⟨x', hx', hR⟩ := hys z hz
    exact ⟨x', List.mem_cons_of_mem _ hx', hR⟩

theorem Pass.clean_optionMapM {f : α → Pass σ β} (h : ∀ x, Clean (f x) fun _ => True)
    (o : Option α) : Clean (o.mapM f) fun _ => True := by
  cases o with
  | none => exact clean_pure trivial
  | some x => exact (h x).seq fun _ => clean_pure trivial

variable {f : Expr → Pass σ Expr}

/-- An atom may stay where it stands if its literals stay literals. -/
theorem Atom.clean_mapExprsM
    (hf : ∀ e : Expr, Clean (f e) fun e' =>
      e.literal?.isSome = true → e'.literal?.isSome = true)
    (a : Allowed) (atom : Atom) :
    Clean (atom.mapExprsM f) fun x => atom.within a = true → x.within a = true := by
  have hany (e : Expr) : Clean (f e) fun _ => True := (hf e).mono fun _ _ => trivial
  cases atom with
  | declare name value span =>
    exact (clean_optionMapM hany value).seq fun _ => clean_pure id
  | assign target key value span =>
    exact (clean_optionMapM hany key).seq fun _ => (hany value).seq fun _ => clean_pure id
  | expr e => exact (hany e).seq fun _ => clean_pure id
  | ret value span => exact (clean_optionMapM hany value).seq fun _ => clean_pure id
  | inclusion kind options span =>
    refine (clean_mapM (R := fun _ _ => True) fun o _ => ?_).seq fun _ => clean_pure id
    exact (hany o.value).seq fun _ => clean_pure trivial
  | output kind args span =>
    refine (clean_mapM fun e _ => hf e).bind fun args' hargs => clean_pure fun h => ?_
    cases kind with
    | printRaw =>
      rw [within, List.all_eq_true] at h ⊢
      intro e' he'
      obtain ⟨e, he, hkeeps⟩ := hargs e' he'
      exact hkeeps (h e he)
    | _ => rfl
  | comment text span => exact clean_pure id

namespace Expr

mutual

/-- Rebuilding an expression fails with no leftover if the rebuilding of a node does not. -/
theorem clean_bottomUpM (hf : ∀ e, Clean (f e) fun _ => True) :
    ∀ e, Clean (bottomUpM f e) fun _ => True
  | .lit .. => by
    rw [bottomUpM]
    exact hf _
  | .ident _ => by
    rw [bottomUpM]
    exact hf _
  | .binary _ left right _ => by
    rw [bottomUpM]
    exact (clean_bottomUpM hf left).seq fun _ => (clean_bottomUpM hf right).seq fun _ => hf _
  | .unary _ operand _ => by
    rw [bottomUpM]
    exact (clean_bottomUpM hf operand).seq fun _ => hf _
  | .test _ subject pattern _ _ => by
    rw [bottomUpM]
    exact (clean_bottomUpM hf subject).seq fun _ => (clean_bottomUpM hf pattern).seq fun _ => hf _
  | .call _ args _ => by
    rw [bottomUpM]
    exact (clean_bottomUpAllM hf args).seq fun _ => hf _
  | .index target key _ => by
    rw [bottomUpM]
    exact (clean_bottomUpM hf target).seq fun _ => (clean_bottomUpM hf key).seq fun _ => hf _
  | .range first last _ => by
    rw [bottomUpM]
    exact (clean_bottomUpM hf first).seq fun _ => (clean_bottomUpM hf last).seq fun _ => hf _
  | .array elements _ => by
    rw [bottomUpM]
    exact (clean_bottomUpAllM hf elements).seq fun _ => hf _
  | .dict entries _ => by
    rw [bottomUpM]
    exact (clean_bottomUpEntriesM hf entries).seq fun _ => hf _

theorem clean_bottomUpAllM (hf : ∀ e, Clean (f e) fun _ => True) :
    ∀ es, Clean (bottomUpAllM f es) fun _ => True
  | [] => by
    rw [bottomUpAllM]
    exact clean_pure trivial
  | e :: es => by
    rw [bottomUpAllM]
    exact (clean_bottomUpM hf e).seq fun _ => (clean_bottomUpAllM hf es).seq fun _ =>
      clean_pure trivial

theorem clean_bottomUpEntriesM (hf : ∀ e, Clean (f e) fun _ => True) :
    ∀ entries, Clean (bottomUpEntriesM f entries) fun _ => True
  | [] => by
    rw [bottomUpEntriesM]
    exact clean_pure trivial
  | (key, value) :: entries => by
    rw [bottomUpEntriesM]
    exact (clean_bottomUpM hf key).seq fun _ => (clean_bottomUpM hf value).seq fun _ =>
      (clean_bottomUpEntriesM hf entries).seq fun _ => clean_pure trivial

end

end Expr

end Effects

theorem CleanResult.foldlM {α β : Type} {f : β → α → Except Error β}
    (h : ∀ b a, CleanResult (f b a) fun _ => True) (l : List α) (b : β) :
    CleanResult (l.foldlM f b) fun _ => True := by
  induction l generalizing b with
  | nil => trivial
  | cons a l ih => exact (h b a).bind fun b _ => ih b

/-- The search for cycles complains of cycles only. -/
theorem FunctionTable.cleanResult_visit (table : FunctionTable) (depth : Nat)
    (path done : List String) (name : String) :
    CleanResult (table.visit depth path done name) fun _ => True := by
  induction depth generalizing path done name with
  | zero => trivial
  | succ depth ih =>
    rw [visit]
    split
    · trivial
    · split
      · rfl
      · split
        · trivial
        · rename_i f _
          have hcallees := CleanResult.foldlM (ih (path ++ [name])) (table.callees f) done
          split
          · trivial
          · rename_i he
            rwa [he] at hcallees

theorem FunctionTable.cleanResult_checkCycles (table : FunctionTable) :
    CleanResult table.checkCycles fun _ => True := by
  have hnames := CleanResult.foldlM (table.cleanResult_visit (table.length + 1) []) table.names []
  rw [checkCycles]
  split
  · trivial
  · rename_i he
    rwa [he] at hnames

namespace Inliner

/-- Binding arguments complains of those that are missing only. -/
theorem cleanResult_bind (callee : String) (span : Span) (params : List Param) (args : List Expr)
    (bound : List (String × Expr)) :
    CleanResult (bind callee span params args bound) fun _ => True := by
  fun_induction bind callee span params args bound with
  | case1 => trivial
  | case2 _ _ _ _ _ ih => exact ih
  | case3 _ _ _ _ _ _ ih => exact ih
  | case4 => rfl

theorem clean_expandNode {inner : Expr → Pass Inliner Expr}
    (hinner : ∀ e, Clean (inner e) fun _ => True) (e : Expr) :
    Clean (expandNode inner e) fun _ => True := by
  unfold expandNode
  split
  · refine clean_get.seq fun s => ?_
    split
    · exact clean_pure trivial
    · refine Clean.seq (P := fun _ => True) (clean_lift ?_) fun body => (hinner body).seq
        fun _ => ?_
      · unfold instantiate
        split
        · rfl
        · exact (cleanResult_bind ..).bind fun _ _ => trivial
      · refine (clean_modify _).seq fun _ => (clean_modify _).seq fun _ => clean_get.seq fun _ => ?_
        exact clean_pure trivial
  · exact clean_pure trivial

theorem clean_expandAt (depth : Nat) (e : Expr) : Clean (expandAt depth e) fun _ => True := by
  induction depth generalizing e with
  | zero => exact clean_pure trivial
  | succ depth ih => exact Expr.clean_bottomUpM (clean_expandNode ih) e

/-- A literal is still one when calls are expanded, as there is none in it. -/
theorem clean_expand (e : Expr) :
    Clean (expand e) fun e' => e.literal?.isSome = true → e'.literal?.isSome = true := by
  refine clean_get.seq fun s => ?_
  cases e with
  | lit value span => exact clean_pure fun h => h
  | _ => exact (clean_expandAt _ _).mono fun _ _ h => absurd h Bool.false_ne_true

mutual

/-- Expanding the calls of a statement brings in nothing that is not allowed. -/
theorem clean_expandStmt (a : Allowed) :
    ∀ s, Clean (expandStmt s) fun out => Stmt.within a s = true → Stmt.withinAll a out = true
  | .atom x => by
    rw [expandStmt]
    refine (Atom.clean_mapExprsM clean_expand a x).bind fun x' hx => clean_pure fun h => ?_
    rw [Stmt.within] at h
    rw [Stmt.withinAll, Stmt.within, hx h, Stmt.withinAll]
    rfl
  | .function _ _ true _ _ => by
    rw [expandStmt]
    exact clean_pure fun _ => rfl
  | .function _ _ false body _ => by
    rw [expandStmt]
    exact (clean_expandStmts a body).seq fun _ => clean_pure fun _ => rfl
  | .ifChain branches (some body) _ => by
    rw [expandStmt]
    refine (clean_expandBranches a branches).bind fun out hout => ?_
    refine (clean_expandStmts a body).bind fun out' hout' => clean_pure fun h => ?_
    rw [Stmt.within, Bool.and_eq_true] at h
    rw [Stmt.withinAll, Stmt.within, hout h.1, hout' h.2, Stmt.withinAll]
    rfl
  | .ifChain branches none _ => by
    rw [expandStmt]
    refine (clean_expandBranches a branches).bind fun out hout => clean_pure fun h => ?_
    rw [Stmt.within] at h
    rw [Stmt.withinAll, Stmt.within, hout h, Stmt.withinAll]
    rfl
  | .forLoop _ collection body _ => by
    rw [expandStmt]
    refine (clean_expand collection).seq fun _ => ?_
    refine (clean_expandStmts a.inLoop body).bind fun out hout => clean_pure fun h => ?_
    rw [Stmt.within, Bool.and_eq_true] at h
    rw [Stmt.withinAll, Stmt.within, h.1, hout h.2, Stmt.withinAll]
    rfl
  | .breakLoop _ => by
    rw [expandStmt]
    refine clean_pure fun h => ?_
    rw [Stmt.withinAll, h, Stmt.withinAll]
    rfl
  | .attempt body (some handler) _ => by
    rw [expandStmt]
    refine (clean_expandStmts a body).bind fun out hout => ?_
    refine (clean_expandStmts a handler).bind fun out' hout' => clean_pure fun h => ?_
    rw [Stmt.within, Bool.and_eq_true] at h
    rw [Stmt.withinAll, Stmt.within, hout h.1, hout' h.2, Stmt.withinAll]
    rfl
  | .attempt body none _ => by
    rw [expandStmt]
    refine (clean_expandStmts a body).bind fun out hout => clean_pure fun h => ?_
    rw [Stmt.within] at h
    rw [Stmt.withinAll, Stmt.within, hout h, Stmt.withinAll]
    rfl
  | .require .. => by
    rw [expandStmt]
    refine clean_pure fun h => ?_
    rw [Stmt.withinAll, h, Stmt.withinAll]
    rfl
  | .block body _ => by
    rw [expandStmt]
    refine (clean_expandStmts a body).bind fun out hout => clean_pure fun h => ?_
    rw [Stmt.within] at h
    rw [Stmt.withinAll, Stmt.within, hout h, Stmt.withinAll]
    rfl

/-- Statements with their calls expanded have what they had; nothing is known of the bodies of
functions. -/
theorem clean_expandStmts (a : Allowed) :
    ∀ stmts, Clean (expandStmts stmts) fun out =>
      Stmt.withinAll a stmts = true → Stmt.withinAll a out = true
  | [] => by
    rw [expandStmts]
    exact clean_pure id
  | s :: rest => by
    rw [expandStmts]
    refine (clean_expandStmt a s).bind fun out hout => ?_
    refine (clean_expandStmts a rest).bind fun out' hout' => clean_pure fun h => ?_
    rw [Stmt.withinAll, Bool.and_eq_true] at h
    rw [Stmt.withinAll_append, hout h.1, hout' h.2]
    rfl

theorem clean_expandBranches (a : Allowed) :
    ∀ branches, Clean (expandBranches branches) fun out =>
      Stmt.withinBranches a branches = true → Stmt.withinBranches a out = true
  | [] => by
    rw [expandBranches]
    exact clean_pure id
  | ⟨cond, body, _⟩ :: rest => by
    rw [expandBranches]
    refine (clean_expand cond).seq fun _ => (clean_expandStmts a body).bind fun out hout => ?_
    refine (clean_expandBranches a rest).bind fun out' hout' => clean_pure fun h => ?_
    rw [Stmt.withinBranches, Bool.and_eq_true] at h
    rw [Stmt.withinBranches, hout h.1, hout' h.2]
    rfl

end

/-- Collecting functions complains of their bodies and of cycles only. -/
theorem clean_collect (declarations : List InlineDeclaration) :
    Clean (collect declarations) fun _ => True := by
  induction declarations with
  | nil => exact clean_pure trivial
  | cons d rest ih =>
    refine Clean.seq (P := fun _ => True) ?_ fun _ => ih
    refine Clean.seq (P := fun _ => True) (clean_lift ?_) fun f => clean_get.seq fun s => ?_
    · unfold InlineDeclaration.reduce
      split
      · split
        · rfl
        · trivial
      · rfl
    · refine (clean_set _).seq fun _ => ?_
      split
      · exact clean_modify _
      · exact clean_pure trivial

theorem clean_run {a : Allowed} {stmts : List Stmt} (h : Stmt.withinAll a stmts = true) :
    Clean (run stmts) fun out => Stmt.withinAll a out = true := by
  refine (clean_collect _).seq fun _ => clean_get.seq fun s => ?_
  refine (clean_lift s.functions.cleanResult_checkCycles).seq fun _ => ?_
  refine (clean_expandStmts a stmts).bind fun out hout => clean_get.seq fun _ => clean_pure ?_
  split
  · exact Stmt.withinAll_foldAll (hout h)
  · exact hout h

end Inliner

/-! ## The passes in their order -/

namespace Lowering

variable {a : Allowed} {stmts : List Stmt} (h : Stmt.withinAll a stmts = true)
include h

theorem clean_inline (fold : Bool) :
    Clean (inline fold stmts) fun out => Stmt.withinAll a out = true := by
  have hrun := (Inliner.clean_run h).run (Inliner.new fold)
  refine (clean_modify _).seq fun _ => (clean_lift hrun).bind fun out hout => ?_
  exact (clean_modify _).seq fun _ => clean_pure hout

theorem clean_unroll (maxIterations : Nat) :
    Clean (unroll maxIterations stmts) fun out => Stmt.withinAll a.unrolled out = true := by
  have hrun := (Unroller.clean_run h).run (Unroller.new maxIterations)
  refine (clean_modify _).seq fun _ => (clean_lift hrun).bind fun out hout => ?_
  exact (clean_modify _).seq fun _ => clean_pure hout

/-- Every pass but unrolling leaves a script with what it had. -/
theorem clean_runPass {pass : LoweringPass} (hpass : ∀ n, pass ≠ .unrolling n) :
    Clean (runPass pass stmts) fun out => Stmt.withinAll a out = true := by
  refine (clean_modify _).seq fun _ => ?_
  cases pass with
  | folding => exact clean_pure (Stmt.withinAll_foldAll h)
  | inlining fold => exact clean_inline h fold
  | unrolling n => exact absurd rfl (hpass n)

omit h in
/-- If unrolling comes last, what is allowed in the end is what unrolling leaves. -/
theorem clean_runPasses_concat {before : List LoweringPass}
    (hbefore : ∀ pass ∈ before, ∀ n, pass ≠ .unrolling n) (maxIterations : Nat)
    (h : Stmt.withinAll a stmts = true) :
    Clean (runPasses (before ++ [.unrolling maxIterations]) stmts)
      fun out => Stmt.withinAll a.unrolled out = true := by
  induction before generalizing stmts with
  | nil =>
    refine Clean.bind (P := fun out => Stmt.withinAll a.unrolled out = true) ?_
      fun out hout => clean_pure hout
    exact (clean_modify _).seq fun _ => clean_unroll h maxIterations
  | cons pass before ih =>
    refine (clean_runPass h (hbefore pass (List.mem_cons_self ..))).bind fun out hout => ?_
    exact ih (fun pass hpass => hbefore pass (List.mem_cons_of_mem _ hpass)) hout

/-- **Unrolling is always done, and last**: whatever the options, no loop is left. -/
theorem clean_runPasses (options : Options) :
    Clean (runPasses options.passes stmts) fun out => Stmt.withinAll a.unrolled out = true := by
  refine clean_runPasses_concat (fun pass hpass n => ?_) _ h
  rintro rfl
  simp at hpass

end Lowering

end EdgeScript
