import EdgeScript.Proofs.Import.Serving
import EdgeScript.Proofs.Leftover.Grammar

/-!
# What is left after the expansion of imports

Every `require` is replaced, in units within units too, and what it is replaced by has no `break` or
`return` of its own: a unit is read by itself.  So a script may have after the expansion what it had
before, without imports (`Importer.clean_run`).
-/

set_option autoImplicit false

namespace EdgeScript

open Pass

/-- What may stand at a place once imports have been expanded. -/
def Allowed.imported (allowed : Allowed) : Allowed := { allowed with requires := false }

theorem WalkOrder.mem_of_mem_split {α : Type} {order : WalkOrder} {body handler : Nat}
    {met : List α} {x : α}
    (h : x ∈ (order.split body handler met).1 ∨ x ∈ (order.split body handler met).2) :
    x ∈ met := by
  cases order with
  | textual => exact h.elim List.mem_of_mem_take List.mem_of_mem_drop
  | handlerFirst => exact h.elim List.mem_of_mem_drop List.mem_of_mem_take

namespace Stmt

mutual

theorem within_fill (order : WalkOrder) {a b : Allowed} (hb : b ≤ a.imported) :
    ∀ {s parts}, within a s = true → (∀ part ∈ parts, withinAll b part = true) →
      withinAll a.imported (fill order s parts) = true
  | .require .., [], _, _ => by rw [fill]; rfl
  | .require .., part :: parts, _, hparts => by
    rw [fill]
    exact withinAll_mono hb (hparts part (List.mem_cons_self ..))
  | .function .., _, _, _ => by rw [fill]; rfl
  | .ifChain branches (some body) _, parts, hs, hparts => by
    rw [within, Bool.and_eq_true] at hs
    simp only [fill, withinAll, within, Bool.and_true, Bool.and_eq_true]
    exact ⟨withinBranches_fill order hb hs.1 fun part hp => hparts part (List.mem_of_mem_take hp),
      withinAll_fill order hb hs.2 fun part hp => hparts part (List.mem_of_mem_drop hp)⟩
  | .ifChain branches none _, parts, hs, hparts => by
    rw [within] at hs
    simp only [fill, withinAll, within, Bool.and_true]
    exact withinBranches_fill order hb hs hparts
  | .forLoop _ _ body _, parts, hs, hparts => by
    rw [within, Bool.and_eq_true] at hs
    simp only [fill, withinAll, within, Bool.and_true, Bool.and_eq_true]
    exact ⟨hs.1, withinAll_fill order (Allowed.le_trans hb (Allowed.le_inLoop _)) hs.2 hparts⟩
  | .breakLoop _, _, hs, _ => by
    rw [within] at hs
    simp only [fill, withinAll, within, Bool.and_true]
    exact hs
  | .attempt body (some handler) _, parts, hs, hparts => by
    rw [within, Bool.and_eq_true] at hs
    simp only [fill, withinAll, within, Bool.and_true, Bool.and_eq_true]
    exact ⟨withinAll_fill order hb hs.1 fun part hp =>
        hparts part (WalkOrder.mem_of_mem_split (.inl hp)),
      withinAll_fill order hb hs.2 fun part hp =>
        hparts part (WalkOrder.mem_of_mem_split (.inr hp))⟩
  | .attempt body none _, parts, hs, hparts => by
    rw [within] at hs
    simp only [fill, withinAll, within, Bool.and_true]
    exact withinAll_fill order hb hs hparts
  | .block body _, parts, hs, hparts => by
    rw [within] at hs
    simp only [fill, withinAll, within, Bool.and_true]
    exact withinAll_fill order hb hs hparts
  | .atom x, _, hs, _ => by
    rw [within] at hs
    simp only [fill, withinAll, within, Bool.and_true]
    cases x <;> exact hs

/-- Statements with parts in the places of their requests have no requests, if the parts have
none. -/
theorem withinAll_fill (order : WalkOrder) {a b : Allowed} (hb : b ≤ a.imported) :
    ∀ {stmts parts}, withinAll a stmts = true → (∀ part ∈ parts, withinAll b part = true) →
      withinAll a.imported (fillAll order stmts parts) = true
  | [], _, _, _ => by rw [fillAll, withinAll]
  | s :: rest, parts, hs, hparts => by
    rw [withinAll, Bool.and_eq_true] at hs
    simp only [fillAll, withinAll_append, Bool.and_eq_true]
    exact ⟨within_fill order hb hs.1 fun part hp => hparts part (List.mem_of_mem_take hp),
      withinAll_fill order hb hs.2 fun part hp => hparts part (List.mem_of_mem_drop hp)⟩

theorem withinBranches_fill (order : WalkOrder) {a b : Allowed} (hb : b ≤ a.imported) :
    ∀ {branches parts}, withinBranches a branches = true →
      (∀ part ∈ parts, withinAll b part = true) →
      withinBranches a.imported (fillBranches order branches parts) = true
  | [], _, _, _ => by rw [fillBranches, withinBranches]
  | ⟨_, body, _⟩ :: rest, parts, hs, hparts => by
    rw [withinBranches, Bool.and_eq_true] at hs
    simp only [fillBranches, withinBranches, Bool.and_eq_true]
    exact ⟨withinAll_fill order hb hs.1 fun part hp => hparts part (List.mem_of_mem_take hp),
      withinBranches_fill order hb hs.2 fun part hp => hparts part (List.mem_of_mem_drop hp)⟩

end

end Stmt

namespace Importer

variable {loader : Loader} {origin : Option Path} {requests : List Request} {s t : Importer}

theorem isLeftover_of_refused {r : Request} {e : Error}
    (h : answer loader origin r s = (.refused e, t)) : e.isLeftover = false := by
  unfold answer at h
  split at h
  · cases h
    rfl
  · split at h
    · split at h <;> cases h
      rfl
    · split at h
      · cases h
      · split at h
        · cases h
          rfl
        · split at h
          · rename_i text _ _ _ hparse
            have hclean := Program.cleanResult_parse text s.sources.files.size
            cases h
            rwa [hparse] at hclean
          · cases h

theorem withinAll_of_opened {r : Request} {path : Path} {body : List Stmt}
    (h : answer loader origin r s = (.opened path body, t)) :
    Stmt.withinAll .unit body = true := by
  cases answered_of_answer h with
  | @opened _ text program hresolve hidle hwanted hread hparse =>
    have hclean := Program.cleanResult_parse text s.sources.files.size
    rwa [hparse] at hclean

/-- What requests are replaced by has no imports and no jumps. -/
theorem Serves.cleanResult {trace : List Passed} {result : Except Error (List (List Stmt))}
    (h : Serves loader origin requests s trace result t) :
    CleanResult result fun parts => ∀ part ∈ parts, Stmt.withinAll .expanded part = true := by
  induction h with
  | done => exact fun _ h => absurd h List.not_mem_nil
  | refused h => exact isLeftover_of_refused h
  | skipped _ _ ih =>
    refine CleanResult.map (ih.mono fun parts hparts => ?_)
    exact List.forall_mem_cons.2 ⟨by rw [Stmt.withinAll], hparts⟩
  | failed _ _ ih => exact ih
  | expanded h _ _ ih ih' =>
    refine CleanResult.map (ih'.mono fun parts hparts => ?_)
    refine List.forall_mem_cons.2 ⟨?_, hparts⟩
    exact Stmt.withinAll_fill .handlerFirst (Allowed.le_refl .expanded) (withinAll_of_opened h) ih

/-- **A script has no imports after their expansion**, and nothing that it did not have before. -/
theorem clean_run (loader : Loader) (entry : Option Path) {stmts : List Stmt}
    (hstmts : Stmt.withinAll .unit stmts = true) :
    Clean (run loader entry stmts) fun out => Stmt.withinAll .expanded out = true := by
  refine ⟨fun s => ?_⟩
  obtain ⟨trace, hresolves⟩ := exists_resolves loader entry stmts s
  have hfill (parts : List (List Stmt))
      (hparts : ∀ part ∈ parts, Stmt.withinAll .expanded part = true) :
      Stmt.withinAll .expanded (Stmt.fillAll .handlerFirst stmts parts) = true :=
    Stmt.withinAll_fill .handlerFirst (Allowed.le_refl .expanded) hstmts hparts
  generalize (outcome (run loader entry stmts) s).1 = result,
    (outcome (run loader entry stmts) s).2 = t at hresolves ⊢
  cases hresolves with
  | nowhere h => exact CleanResult.map (h.cleanResult.mono hfill)
  | unit h => exact CleanResult.map (h.cleanResult.mono hfill)

end Importer

end EdgeScript
