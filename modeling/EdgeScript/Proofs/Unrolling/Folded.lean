import EdgeScript.Proofs.Folding.Again
import EdgeScript.Proofs.Lowering.Idempotent
import EdgeScript.Proofs.Unrolling.Depth
import EdgeScript.Proofs.Unrolling.Path

/-!
# Unrolling a folded script

Folding first changes what the unroller meets: a branch that never holds is gone with its loops, one
that always holds stands in the place of its chain, and with it the collections that it assigns
become known.  It does not change what loops are expanded to.  A run on the folded script follows
one on the script step by step, and three things hold along the way: it knows more (`Known.Le`), it
has made no more copies (`Unroller.Saves`), and what it has put out is the folded output
(`Unroller.Mirrors`).

The copies themselves are the same in both runs.  A copy is folded after the variable is replaced,
and folding the body before that makes no difference (`Stmt.foldAll_substAll_foldAll`).
-/

set_option autoImplicit false

namespace EdgeScript

open Pass

/-! ## Knowing more -/

namespace Known

/-- Whatever is known on the left is known on the right. -/
def Le (known known' : Known) : Prop :=
  ∀ x c, known.get? x = some c → known'.get? x = some c

theorem Le.refl (known : Known) : known.Le known := fun _ _ h => h

end Known

theorem Expr.mapM_literal?_bottomUpAll {es : List Expr} {vs : List Literal}
    (h : es.mapM Expr.literal? = some vs) :
    (bottomUpAll foldNode es).mapM Expr.literal? = some vs := by
  induction es generalizing vs with
  | nil => exact h
  | cons e es ih =>
    rw [List.mapM_cons] at h
    obtain ⟨v, hv, hrest⟩ := Option.bind_eq_some_iff.1 h
    obtain ⟨rest, hes, hpure⟩ := Option.bind_eq_some_iff.1 hrest
    obtain ⟨span, rfl⟩ := exists_lit_of_literal? hv
    rw [bottomUpAll, List.mapM_cons, ih hes]
    exact hpure

/-- A collection that is known is known of the folded expression. -/
theorem Collection.ofExpr?_fold {known known' : Known} (h : known.Le known') {e : Expr}
    {c : Collection} (he : Collection.ofExpr? known e = some c) :
    Collection.ofExpr? known' e.fold = some c := by
  unfold Collection.ofExpr? at he
  split at he
  · exact he
  · rename_i elements span
    obtain ⟨vs, hvs, rfl⟩ := Option.map_eq_some_iff.1 he
    show (Option.map Collection.items
      ((Expr.bottomUpAll Expr.foldNode elements).mapM Expr.literal?)) = _
    rw [Expr.mapM_literal?_bottomUpAll hvs, Option.map_some]
  · exact h _ _ he
  · cases he

theorem Atom.value?_mapExprs (f : Expr → Expr) (a : Atom) :
    (a.mapExprs f).value? = a.value?.map f := by
  cases a with
  | assign target key value span => cases key <;> rfl
  | _ => rfl

theorem Known.Le.after {known known' : Known} (h : known.Le known') (a : Atom) :
    (known.after a).Le (known'.after (a.mapExprs Expr.fold)) := by
  intro x c hx
  rw [Known.get?_after] at hx ⊢
  rw [Atom.assigned?_mapExprs, Atom.value?_mapExprs]
  split at hx
  · rename_i ha
    obtain ⟨e, he, hc⟩ := Option.bind_eq_some_iff.1 hx
    rw [if_pos ha, he, Option.map_some, Option.bind_some]
    exact Collection.ofExpr?_fold h hc
  · rename_i ha
    rw [if_neg ha]
    exact h x c hx

/-! ## Folded statements set no more -/

namespace Stmt

theorem assignedAll_ofChain_subset {folded : List (Branch Stmt) × Option (List Stmt)}
    {otherwise : Option (List Stmt)} {span : Span} {names : List String}
    (hbranches : assignedBranches folded.1 ⊆ names) (hlast : assignedAll (folded.2.getD []) ⊆ names)
    (hotherwise : assignedAll (otherwise.getD []) ⊆ names) :
    assignedAll (ofChain folded otherwise span) ⊆ names := by
  have hbody : assignedAll ((folded.2.or otherwise).getD []) ⊆ names := by
    cases h : folded.2 with
    | none => exact hotherwise
    | some body => rwa [h] at hlast
  rw [ofChain]
  split
  · exact hbody
  · intro x hx
    rw [assignedAll_singleton, mem_assigned_ifChain] at hx
    exact hx.elim (fun h => hbranches h) fun h => hbody h

mutual

theorem assignedAll_fold_subset : ∀ s : Stmt, assignedAll s.fold ⊆ assigned s
  | .atom a => by
    rw [fold, assignedAll_singleton, assigned, assigned, Atom.assigned?_mapExprs]
    exact List.Subset.refl _
  | .function .. => List.Subset.refl _
  | .ifChain branches (some body) span => by
    rw [fold, assigned]
    obtain ⟨hbranches, hlast⟩ := assignedAll_foldBranches_subset branches
    refine assignedAll_ofChain_subset (List.subset_append_of_subset_left _ hbranches)
      (List.subset_append_of_subset_left _ hlast) ?_
    exact List.subset_append_of_subset_right _ (assignedAll_foldAll_subset body)
  | .ifChain branches none span => by
    rw [fold, assigned]
    obtain ⟨hbranches, hlast⟩ := assignedAll_foldBranches_subset branches
    exact assignedAll_ofChain_subset hbranches hlast (List.nil_subset _)
  | .forLoop _ _ body _ => by
    rw [fold, assignedAll_singleton, assigned, assigned]
    exact assignedAll_foldAll_subset body
  | .breakLoop _ => List.Subset.refl _
  | .attempt body (some handler) _ => by
    rw [fold, assignedAll_singleton, assigned, assigned]
    exact List.append_subset.2
      ⟨List.subset_append_of_subset_left _ (assignedAll_foldAll_subset body),
      List.subset_append_of_subset_right _ (assignedAll_foldAll_subset handler)⟩
  | .attempt body none _ => by
    rw [fold, assignedAll_singleton, assigned, assigned]
    exact assignedAll_foldAll_subset body
  | .require .. => List.Subset.refl _
  | .block body _ => by
    rw [fold, assignedAll_singleton, assigned, assigned]
    exact assignedAll_foldAll_subset body

theorem assignedAll_foldAll_subset :
    ∀ stmts : List Stmt, assignedAll (foldAll stmts) ⊆ assignedAll stmts
  | [] => List.Subset.refl _
  | s :: rest => by
    rw [foldAll, assignedAll_append, assignedAll]
    exact List.append_subset.2 ⟨List.subset_append_of_subset_left _ (assignedAll_fold_subset s),
      List.subset_append_of_subset_right _ (assignedAll_foldAll_subset rest)⟩

theorem assignedAll_foldBranches_subset : ∀ branches : List (Branch Stmt),
    assignedBranches (foldBranches branches).1 ⊆ assignedBranches branches ∧
      assignedAll ((foldBranches branches).2.getD []) ⊆ assignedBranches branches
  | [] => ⟨List.Subset.refl _, List.Subset.refl _⟩
  | ⟨cond, body, span⟩ :: rest => by
    have hbody := assignedAll_foldAll_subset body
    obtain ⟨hbranches, hlast⟩ := assignedAll_foldBranches_subset rest
    rw [foldBranches, assignedBranches]
    split
    · exact ⟨List.nil_subset _, List.subset_append_of_subset_left _ hbody⟩
    · exact ⟨List.subset_append_of_subset_right _ hbranches,
        List.subset_append_of_subset_right _ hlast⟩
    · rw [assignedBranches]
      exact ⟨List.append_subset.2 ⟨List.subset_append_of_subset_left _ hbody,
        List.subset_append_of_subset_right _ hbranches⟩, List.subset_append_of_subset_right _ hlast⟩

end

end Stmt

theorem Known.get?_eraseAll_of_notMem {known : Known} {names : List String} {x : String}
    (h : x ∉ names) : (known.eraseAll names).get? x = known.get? x := by
  rw [eraseAll, get?_filter fun y => !names.contains y]
  simp [h]

/-! ## What the unroller knows of what it does not set -/

namespace Unroller

variable {inner : Inner}

mutual

theorem get?_of_unrollStmt {x : String} :
    ∀ (stmt : Stmt) {known : Known} {s t : Unroller} {r : List Stmt × Known},
      Gives (unrollStmt inner known stmt) s r t → x ∉ Stmt.assignedAll r.1 →
        r.2.get? x = known.get? x
  | .atom a, known, s, t, r, h, hx => by
    obtain ⟨rfl, -⟩ := gives_unrollStmt_atom.1 h
    rw [Stmt.assignedAll_singleton, Stmt.assigned, Option.mem_toList] at hx
    rw [Known.get?_after, if_neg hx]
  | .function .., known, s, t, r, h, hx => by rw [(gives_unrollStmt_function.1 h).1]
  | .breakLoop _, known, s, t, r, h, hx => by rw [(gives_unrollStmt_breakLoop.1 h).1]
  | .require .., known, s, t, r, h, hx => by rw [(gives_unrollStmt_require.1 h).1]
  | .forLoop .., known, s, t, r, h, hx => by
    obtain ⟨out, -, rfl⟩ := gives_unrollStmt_forLoop.1 h
    exact Known.get?_eraseAll_of_notMem hx
  | .block body _, known, s, t, r, h, hx => by
    obtain ⟨out, behind, hbody, rfl⟩ := gives_unrollStmt_block.1 h
    rw [Stmt.assignedAll_singleton, Stmt.assigned] at hx
    exact get?_of_unrollStmts body (r := (out, behind)) hbody hx
  | .ifChain .., known, s, t, r, h, hx => by
    obtain ⟨_, _, -, _, _, -, stmt, -, rfl⟩ := gives_unrollStmt_ifChain.1 h
    rw [Stmt.assignedAll_singleton] at hx
    exact Known.get?_eraseAll_of_notMem hx
  | .attempt .., known, s, t, r, h, hx => by
    obtain ⟨_, _, _, -, _, _, -, stmt, -, rfl⟩ := gives_unrollStmt_attempt.1 h
    rw [Stmt.assignedAll_singleton] at hx
    exact Known.get?_eraseAll_of_notMem hx

/-- What is known of a variable that the emitted statements do not set is what was known before. -/
theorem get?_of_unrollStmts {x : String} :
    ∀ (stmts : List Stmt) {known : Known} {s t : Unroller} {r : List Stmt × Known},
    Gives (unrollStmts inner known stmts) s r t → x ∉ Stmt.assignedAll r.1 →
      r.2.get? x = known.get? x
  | [], known, s, t, r, h, hx => by rw [(gives_unrollStmts_nil.1 h).1]
  | stmt :: rest, known, s, t, r, h, hx => by
    obtain ⟨first, between, u, hfirst, out, behind, hrest, rfl⟩ := gives_unrollStmts_cons.1 h
    rw [Stmt.assignedAll_append, List.mem_append, not_or] at hx
    exact (get?_of_unrollStmts rest hrest hx.2).trans (get?_of_unrollStmt stmt hfirst hx.1)

end

variable {depth : Nat} {known known' : Known} {s s' t : Unroller}

/-! ## Doing the same with less -/

/-- The second unroller has the bound of the first and has made no more copies. -/
structure Saves (s s' : Unroller) : Prop where
  bound : s'.maxIterations = s.maxIterations
  count : s'.iterations ≤ s.iterations

theorem Saves.later (h : Saves s s') (hlater : Later s t) : Saves t s' :=
  ⟨h.bound.trans hlater.bound.symm, Nat.le_trans h.count hlater.count⟩

theorem Saves.countIteration (h : Saves s s') {var : String} {span : Span}
    (hcount : Gives (countIteration var span) s () t) :
    ∃ t', Gives (Unroller.countIteration var span) s' () t' ∧ Saves t t' := by
  obtain ⟨hroom, rfl⟩ := gives_countIteration.1 hcount
  have hbound := h.bound
  have hle := h.count
  exact ⟨_, gives_countIteration.2 ⟨by omega, rfl⟩, hbound, Nat.succ_le_succ hle⟩

/-- Folded statements with less deep loops give the same to an unroller that knows more. -/
def Inner.Steady (inner : Inner) (depth : Nat) : Prop :=
  ∀ {known known' : Known} {stmts out : List Stmt} {s s' t : Unroller}, Form.normal.FitsAll stmts →
    Stmt.loopDepthAll stmts < depth → known.Le known' → Saves s s' →
    Gives (inner known stmts) s out t → ∃ t', Gives (inner known' stmts) s' out t' ∧ Saves t t'

/-- What the second part of `out` says is known, and what is emitted is the folded `out`. -/
def Mirrors (inner : Inner) (known' : Known) (stmts' : List Stmt) (s' : Unroller)
    (out : List Stmt × Known) (t : Unroller) : Prop :=
  ∃ behind t', Gives (unrollStmts inner known' stmts') s' (Stmt.foldAll out.1, behind) t' ∧
    out.2.Le behind ∧ Saves t t'

section Loops

variable (hsteady : inner.Steady depth) (hle : known.Le known')

include hsteady hle in
theorem round_fold {var : String} {element : Expr} {body : List Stmt} {r : List Stmt × Bool}
    (hdepth : Stmt.loopDepthAll body < depth) (hs : Saves s s')
    (h : Gives (round inner known var element body) s r t) :
    ∃ t', Gives (round inner known' var element (Stmt.foldAll body)) s' r t' ∧ Saves t t' := by
  obtain ⟨raw, hraw, hcut⟩ := gives_round.1 h
  obtain ⟨t', hraw', ht⟩ := hsteady (Form.normal_foldAll _)
    (Nat.lt_of_le_of_lt (Stmt.loopDepthAll_copy_le var element body) hdepth) hle hs hraw
  refine ⟨t', gives_round.2 ⟨raw, ?_, hcut⟩, ht⟩
  rwa [Stmt.foldAll_substAll_foldAll]

include hsteady hle in
/-- The copies of a folded body are the copies of the body, since every copy is folded. -/
theorem Copies.fold {task : Task} {i : Nat} {out : List Stmt}
    (hdepth : Stmt.loopDepthAll task.body < depth) (h : Copies inner known task i s out t)
    (hs : Saves s s') :
    ∃ t', Copies inner known' { task with body := Stmt.foldAll task.body } i s' out t' ∧
      Saves t t' := by
  induction h generalizing s' with
  | done he => exact ⟨s', .done he, hs⟩
  | last he hcount hround =>
    obtain ⟨u, hcount', hu⟩ := hs.countIteration hcount
    obtain ⟨u', hround', hu'⟩ := round_fold hsteady hle hdepth hu hround
    exact ⟨_, .last he hcount' hround', hu'.bound, hu'.count⟩
  | more he hcount hround _ ih =>
    obtain ⟨u, hcount', hu⟩ := hs.countIteration hcount
    obtain ⟨u', hround', hu'⟩ := round_fold hsteady hle hdepth hu hround
    obtain ⟨t', hrest, ht⟩ := ih hu'
    exact ⟨t', .more he hcount' hround' hrest, ht⟩

include hsteady hle in
theorem unrollLoop_fold (hforward : inner.Forward) {var : Option Ident} {collection : Expr}
    {body : List Stmt} {span : Span} {out : List Stmt} (hdepth : Stmt.loopDepthAll body < depth)
    (hs : Saves s s') (h : Gives (unrollLoop inner known var collection body span) s out t) :
    ∃ t', Gives (unrollLoop inner known' var collection.fold (Stmt.foldAll body) span) s' out t' ∧
      Saves t t' := by
  obtain ⟨c, u, hc, hcopies, hlater⟩ := copies_of_unrollLoop hforward h
  obtain ⟨u', hcopies', hu⟩ := hcopies.fold hsteady hle hdepth hs
  obtain ⟨n, hgives⟩ :=
    gives_copies_of_copies hforward hcopies' (s'.maxIterations - s'.iterations) (by omega)
  have ht := hu.later hlater
  refine ⟨_, gives_unrollLoop.2 ⟨c, n, u', Collection.ofExpr?_fold hle hc, ?_, rfl⟩, ht.bound,
    ht.count⟩
  rwa [Expr.fold_fold]

end Loops

/-- What a loop is replaced by is folded. -/
theorem normal_of_unrollLoop (hbrings : inner.Brings depth Form.normal) {var : Option Ident}
    {collection : Expr} {body : List Stmt} {span : Span} {out : List Stmt}
    (hdepth : Stmt.loopDepthAll body < depth)
    (h : Gives (unrollLoop inner known var collection body span) s out t) :
    Form.normal.FitsAll out :=
  ((ensures_unrollLoop (P := Form.normal.FitsAll) trivial
    (fun hfirst hsecond => Form.fitsAll_append.2 ⟨hfirst, hsecond⟩) known var collection span
    (fun var _ _ => ensures_fits_round hbrings known var _ (Form.fitsAll_any body) hdepth)).run
      trivial h).2

/-! ## Statements -/

/-- Behind statements of whose variables nothing is known any more. -/
theorem mirrors_of_gives (hle : known.Le known') {stmts' out : List Stmt} (behind : Known)
    {t' : Unroller} (h : Gives (unrollStmts inner known' stmts') s' (Stmt.foldAll out, behind) t')
    (ht : Saves t t') :
    Mirrors inner known' stmts' s' (out, known.eraseAll (Stmt.assignedAll out)) t := by
  refine ⟨behind, t', h, fun x c hx => ?_, ht⟩
  obtain ⟨hout, hx⟩ := Known.get?_eraseAll.1 hx
  have hfolded : x ∉ Stmt.assignedAll (Stmt.foldAll out) := fun hin =>
    hout (Stmt.assignedAll_foldAll_subset out hin)
  exact (get?_of_unrollStmts stmts' h hfolded).trans (hle x c hx)

/-- A chain is unrolled like its branches and its last body, also where no branch is left. -/
theorem gives_unrollStmts_ofChain {branches branches' : List (Branch Stmt)}
    {body body' : Option (List Stmt)} (span : Span) {out : List Stmt} {behind : Known}
    {u : Unroller} (hbranches : Gives (unrollBranches inner known branches) s branches' u)
    (hbody : Gives (unrollStmts inner known (body.getD [])) u (out, behind) t)
    (hout : body' = body.map fun _ => out) :
    ∃ behind', Gives (unrollStmts inner known (Stmt.ofChain (branches, none) body span)) s
      (Stmt.ofChain (branches', none) body' span, behind') t := by
  subst hout
  cases branches with
  | nil =>
    obtain ⟨rfl, rfl⟩ := gives_unrollBranches_nil.1 hbranches
    refine ⟨behind, ?_⟩
    cases body with
    | none =>
      obtain ⟨hnil, rfl⟩ := gives_unrollStmts_nil.1 hbody
      rw [(Prod.mk.inj hnil).2]
      exact gives_unrollStmts_nil.2 ⟨rfl, rfl⟩
    | some body => exact hbody
  | cons b rest =>
    obtain ⟨cond, first, place⟩ := b
    obtain ⟨out', _, _, -, rest', -, rfl⟩ := gives_unrollBranches_cons.1 hbranches
    let stmt := Stmt.ifChain (⟨cond, out', place⟩ :: rest') (body.map fun _ => out) span
    exact ⟨known.eraseAll stmt.assigned, gives_unrollStmts_singleton.2
      (gives_unrollStmt_ifChain.2 ⟨_, u, hbranches, out, behind, hbody, stmt, rfl, rfl⟩)⟩

/-- The branches that folding leaves, and after them the body of the one that always holds, give the
folded branches `r`. -/
def MirrorsBranches (inner : Inner) (known' : Known) (branches : List (Branch Stmt)) (s' : Unroller)
    (r : List (Branch Stmt)) (t : Unroller) : Prop :=
  ∃ last behind u t',
    Gives (unrollBranches inner known' (Stmt.foldBranches branches).1) s'
      (Stmt.foldBranches r).1 u ∧
    Gives (unrollStmts inner known' ((Stmt.foldBranches branches).2.getD [])) u (last, behind) t' ∧
    (Stmt.foldBranches r).2 = (Stmt.foldBranches branches).2.map (fun _ => last) ∧ Saves t t'

/-- `body` is what the chain is left with behind its branches, and `out` what it is unrolled to. -/
theorem mirrors_ifChain (hle : known.Le known') {branches r : List (Branch Stmt)}
    {otherwise otherwise' body : Option (List Stmt)} {span : Span} {u t' : Unroller}
    {out : List Stmt} {behind : Known}
    (hbranches : Gives (unrollBranches inner known' (Stmt.foldBranches branches).1) s'
      (Stmt.foldBranches r).1 u)
    (hbody : Gives (unrollStmts inner known' (body.getD [])) u (out, behind) t')
    (hfold : (Stmt.foldBranches branches).2.or (otherwise.map Stmt.foldAll) = body)
    (hout : (Stmt.foldBranches r).2.or (otherwise'.map Stmt.foldAll) = body.map fun _ => out)
    (ht : Saves t t') :
    Mirrors inner known' (Stmt.ifChain branches otherwise span).fold s'
      ([.ifChain r otherwise' span],
        known.eraseAll (Stmt.ifChain r otherwise' span).assigned) t := by
  obtain ⟨behind', hchain⟩ := gives_unrollStmts_ofChain span hbranches hbody hout
  rw [← Stmt.assignedAll_singleton]
  refine mirrors_of_gives hle behind' ?_ ht
  rw [Stmt.foldAll, Stmt.foldAll, List.append_nil, Stmt.fold_ifChain, Stmt.fold_ifChain]
  rw [← hfold, ← Stmt.ofChain_or, ← Stmt.ofChain_or] at hchain
  exact hchain

/-- A body behind a branch that always holds is dropped, so that less is done. -/
theorem MirrorsBranches.ifChain (hforward : inner.Forward) (hle : known.Le known')
    {branches r : List (Branch Stmt)} {otherwise : Option (List Stmt)} {span : Span} {u : Unroller}
    {out : List Stmt} {behind : Known} (hbranches : MirrorsBranches inner known' branches s' r u)
    (h : Gives (unrollStmts inner known (otherwise.getD [])) u (out, behind) t)
    (hotherwise : ∀ {u'}, Saves u u' →
      Mirrors inner known' (Stmt.foldAll (otherwise.getD [])) u' (out, behind) t) :
    ∀ stmt, stmt = Stmt.ifChain r (otherwise.map fun _ => out) span →
      Mirrors inner known' (Stmt.ifChain branches otherwise span).fold s'
        ([stmt], known.eraseAll stmt.assigned) t := by
  rintro _ rfl
  obtain ⟨last, _, v, t', hleft, hlast, heq, ht⟩ := hbranches
  cases hbody : (Stmt.foldBranches branches).2 with
  | some body =>
    rw [hbody] at hlast heq
    refine mirrors_ifChain hle hleft hlast (by rw [hbody, Option.some_or]) ?_
      (ht.later (unrollStmts_later hforward _ h))
    rw [heq, Option.map_some, Option.some_or]
  | none =>
    rw [hbody] at hlast heq
    obtain ⟨-, rfl⟩ := gives_unrollStmts_nil.1 hlast
    obtain ⟨behind', u', hgives, -, hu⟩ := hotherwise ht
    have hfolded : Gives (unrollStmts inner known' ((otherwise.map Stmt.foldAll).getD [])) t'
        (Stmt.foldAll out, behind') u' := by
      cases otherwise <;> exact hgives
    refine mirrors_ifChain hle hleft hfolded (by rw [hbody, Option.none_or]) ?_ hu
    rw [heq, Option.map_none, Option.none_or, Option.map_map, Option.map_map]
    rfl

mutual

theorem unrollStmt_fold (hforward : inner.Forward) (hsteady : inner.Steady depth)
    (hbrings : inner.Brings depth Form.normal) :
    ∀ (stmt : Stmt) {known known' : Known} {s s' t : Unroller} {r : List Stmt × Known},
      Stmt.loopDepth stmt ≤ depth → known.Le known' → Saves s s' →
      Gives (unrollStmt inner known stmt) s r t → Mirrors inner known' stmt.fold s' r t
  | .atom a, known, known', s, s', t, r, _, hle, hs, h => by
    obtain ⟨rfl, rfl⟩ := gives_unrollStmt_atom.1 h
    exact ⟨_, s', gives_unrollStmts_singleton.2 (gives_unrollStmt_atom.2 ⟨rfl, rfl⟩),
      hle.after a, hs⟩
  | .function .., known, known', s, s', t, r, _, hle, hs, h => by
    obtain ⟨rfl, rfl⟩ := gives_unrollStmt_function.1 h
    exact ⟨known', s', gives_unrollStmts_singleton.2 (gives_unrollStmt_function.2 ⟨rfl, rfl⟩),
      hle, hs⟩
  | .breakLoop _, known, known', s, s', t, r, _, hle, hs, h => by
    obtain ⟨rfl, rfl⟩ := gives_unrollStmt_breakLoop.1 h
    exact ⟨known', s', gives_unrollStmts_singleton.2 (gives_unrollStmt_breakLoop.2 ⟨rfl, rfl⟩),
      hle, hs⟩
  | .require .., known, known', s, s', t, r, _, hle, hs, h => by
    obtain ⟨rfl, rfl⟩ := gives_unrollStmt_require.1 h
    exact ⟨known', s', gives_unrollStmts_singleton.2 (gives_unrollStmt_require.2 ⟨rfl, rfl⟩),
      hle, hs⟩
  | .forLoop var collection body span, known, known', s, s', t, r, hdepth, hle, hs, h => by
    obtain ⟨out, hloop, rfl⟩ := gives_unrollStmt_forLoop.1 h
    obtain ⟨t', hloop', ht⟩ := unrollLoop_fold hsteady hle hforward hdepth hs hloop
    refine mirrors_of_gives hle (known'.eraseAll (Stmt.assignedAll out)) ?_ ht
    rw [(normal_of_unrollLoop hbrings hdepth hloop).foldAll_eq rfl]
    exact gives_unrollStmts_singleton.2 (gives_unrollStmt_forLoop.2 ⟨out, hloop', rfl⟩)
  | .block body span, known, known', s, s', t, r, hdepth, hle, hs, h => by
    obtain ⟨out, behind, hbody, rfl⟩ := gives_unrollStmt_block.1 h
    obtain ⟨behind', t', hbody', hbehind, ht⟩ :=
      unrollStmts_fold hforward hsteady hbrings body hdepth hle hs hbody
    refine ⟨behind', t', gives_unrollStmts_singleton.2
      (gives_unrollStmt_block.2 ⟨_, _, hbody', rfl⟩), ?_⟩
    exact ⟨hbehind, ht⟩
  | .ifChain branches (some body) span, known, known', s, s', t, r, hdepth, hle, hs, h => by
    obtain ⟨hdepth, hdepth'⟩ := Nat.max_le.1 hdepth
    obtain ⟨branches', u, hbranches, out, behind, hbody, stmt, hstmt, rfl⟩ :=
      gives_unrollStmt_ifChain.1 h
    have hmirrors := unrollBranches_fold hforward hsteady hbrings branches hdepth hle hs hbranches
    exact hmirrors.ifChain hforward hle hbody
      (fun hu => unrollStmts_fold hforward hsteady hbrings body hdepth' hle hu hbody) stmt hstmt
  | .ifChain branches none span, known, known', s, s', t, r, hdepth, hle, hs, h => by
    obtain ⟨branches', u, hbranches, out, behind, hbody, stmt, hstmt, rfl⟩ :=
      gives_unrollStmt_ifChain.1 h
    have hmirrors := unrollBranches_fold hforward hsteady hbrings branches hdepth hle hs hbranches
    exact hmirrors.ifChain hforward hle hbody
      (fun hu => unrollStmts_fold hforward hsteady hbrings [] (Nat.zero_le _) hle hu hbody)
        stmt hstmt
  | .attempt body (some handler) span, known, known', s, s', t, r, hdepth, hle, hs, h => by
    rw [Stmt.loopDepth] at hdepth
    obtain ⟨hdepth, hdepth'⟩ := Nat.max_le.1 hdepth
    obtain ⟨out, behind, u, hbody, out', behind', hhandler, _, rfl, rfl⟩ :=
      gives_unrollStmt_attempt.1 h
    obtain ⟨_, u', hbody', -, hu⟩ :=
      unrollStmts_fold hforward hsteady hbrings body hdepth hle hs hbody
    obtain ⟨_, t', hhandler', -, ht⟩ :=
      unrollStmts_fold hforward hsteady hbrings handler hdepth' hle hu hhandler
    rw [← Stmt.assignedAll_singleton]
    exact mirrors_of_gives hle _ (gives_unrollStmts_singleton.2
      (gives_unrollStmt_attempt.2 ⟨_, _, u', hbody', _, _, hhandler', _, rfl, rfl⟩)) ht
  | .attempt body none span, known, known', s, s', t, r, hdepth, hle, hs, h => by
    obtain ⟨out, behind, u, hbody, out', behind', hnil, _, rfl, rfl⟩ := gives_unrollStmt_attempt.1 h
    obtain ⟨-, rfl⟩ := gives_unrollStmts_nil.1 hnil
    obtain ⟨_, t', hbody', -, ht⟩ :=
      unrollStmts_fold hforward hsteady hbrings body hdepth hle hs hbody
    rw [← Stmt.assignedAll_singleton]
    exact mirrors_of_gives hle _ (gives_unrollStmts_singleton.2
      (gives_unrollStmt_attempt.2
        ⟨_, _, t', hbody', [], known', gives_unrollStmts_nil.2 ⟨rfl, rfl⟩, _, rfl, rfl⟩)) ht

theorem unrollStmts_fold (hforward : inner.Forward) (hsteady : inner.Steady depth)
    (hbrings : inner.Brings depth Form.normal) :
    ∀ (stmts : List Stmt) {known known' : Known} {s s' t : Unroller} {r : List Stmt × Known},
      Stmt.loopDepthAll stmts ≤ depth → known.Le known' → Saves s s' →
      Gives (unrollStmts inner known stmts) s r t → Mirrors inner known' (Stmt.foldAll stmts) s' r t
  | [], known, known', s, s', t, r, _, hle, hs, h => by
    obtain ⟨rfl, rfl⟩ := gives_unrollStmts_nil.1 h
    exact ⟨known', s', gives_unrollStmts_nil.2 ⟨rfl, rfl⟩, hle, hs⟩
  | stmt :: rest, known, known', s, s', t, r, hdepth, hle, hs, h => by
    rw [Stmt.loopDepthAll] at hdepth
    obtain ⟨hstmt, hrest⟩ := Nat.max_le.1 hdepth
    obtain ⟨first, between, u, hfirst, out, behind, hout, rfl⟩ := gives_unrollStmts_cons.1 h
    obtain ⟨between', u', hfirst', hbetween, hu⟩ :=
      unrollStmt_fold hforward hsteady hbrings stmt hstmt hle hs hfirst
    obtain ⟨behind', t', hout', hbehind, ht⟩ :=
      unrollStmts_fold hforward hsteady hbrings rest hrest hbetween hu hout
    refine ⟨behind', t', gives_unrollStmts_append.2
      ⟨_, between', u', hfirst', _, behind', hout', ?_⟩, hbehind, ht⟩
    rw [Stmt.foldAll_append]

theorem unrollBranches_fold (hforward : inner.Forward) (hsteady : inner.Steady depth)
    (hbrings : inner.Brings depth Form.normal) :
    ∀ (branches : List (Branch Stmt)) {known known' : Known} {s s' t : Unroller}
      {r : List (Branch Stmt)},
      Stmt.loopDepthBranches branches ≤ depth → known.Le known' → Saves s s' →
      Gives (unrollBranches inner known branches) s r t →
      MirrorsBranches inner known' branches s' r t
  | [], known, known', s, s', t, r, _, hle, hs, h => by
    obtain ⟨rfl, rfl⟩ := gives_unrollBranches_nil.1 h
    exact ⟨[], known', s', s', gives_unrollBranches_nil.2 ⟨rfl, rfl⟩,
      gives_unrollStmts_nil.2 ⟨rfl, rfl⟩, rfl, hs⟩
  | ⟨cond, body, span⟩ :: rest, known, known', s, s', t, r, hdepth, hle, hs, h => by
    rw [Stmt.loopDepthBranches] at hdepth
    obtain ⟨hdepth, hdepth'⟩ := Nat.max_le.1 hdepth
    obtain ⟨out, behind, u, hbody, rest', hrest, rfl⟩ := gives_unrollBranches_cons.1 h
    rw [MirrorsBranches, Stmt.foldBranches, Stmt.foldBranches]
    cases htruth : cond.fold.truth? with
    | some truth =>
      cases truth with
      | true =>
        obtain ⟨behind', u', hbody', -, hu⟩ :=
          unrollStmts_fold hforward hsteady hbrings body hdepth hle hs hbody
        exact ⟨_, behind', s', u', gives_unrollBranches_nil.2 ⟨rfl, rfl⟩, hbody', rfl,
          hu.later (unrollBranches_later hforward rest hrest)⟩
      | false =>
        exact unrollBranches_fold hforward hsteady hbrings rest hdepth' hle
          (hs.later (unrollStmts_later hforward body hbody)) hrest
    | none =>
      obtain ⟨behind', u', hbody', -, hu⟩ :=
        unrollStmts_fold hforward hsteady hbrings body hdepth hle hs hbody
      obtain ⟨last, behind'', v, t', hrest', hlast, heq, ht⟩ :=
        unrollBranches_fold hforward hsteady hbrings rest hdepth' hle hu hrest
      exact ⟨last, behind'', v, t',
        gives_unrollBranches_cons.2 ⟨_, behind', u', hbody', _, hrest', rfl⟩, hlast, heq, ht⟩

end

theorem steady_unrollAt (depth : Nat) : (unrollAt depth).Steady depth := by
  induction depth with
  | zero => exact fun _ hdepth => absurd hdepth (Nat.not_lt_zero _)
  | succ depth ih =>
    intro known known' stmts out s s' t hfits hdepth hle hs h
    have hout : Form.normal.FitsAll out :=
      ((brings_unrollAt (f := Form.normal) (depth + 1) known stmts hfits hdepth).run trivial h).2
    obtain ⟨behind, hstmts⟩ := gives_unrollAt_succ.1 h
    obtain ⟨behind', t', hgives, -, ht⟩ := unrollStmts_fold (unrollAt_forward depth) ih
      (brings_unrollAt depth) stmts (Nat.le_of_lt_succ hdepth) hle hs hstmts
    rw [hfits.foldAll_eq rfl, hout.foldAll_eq rfl] at hgives
    exact ⟨t', gives_unrollAt_succ.2 ⟨behind', hgives⟩, ht⟩

/-- **A folded script is unrolled to what the script is unrolled to, folded.** -/
theorem run_foldAll {stmts out : List Stmt} {s s' t : Unroller} (hs : Saves s s')
    (h : Gives (run stmts) s out t) :
    ∃ t', Gives (run (Stmt.foldAll stmts)) s' (Stmt.foldAll out) t' ∧ Saves t t' := by
  let depth := Stmt.loopDepthAll stmts
  obtain ⟨behind, hstmts⟩ := gives_unrollAt_succ.1 h
  obtain ⟨behind', t', hgives, -, ht⟩ :=
    unrollStmts_fold (unrollAt_forward depth) (steady_unrollAt depth)
    (brings_unrollAt depth) stmts (Nat.le_refl _) (Known.Le.refl []) hs hstmts
  refine ⟨t', ?_, ht⟩
  rw [← unrollAt_eq_run (Nat.lt_succ_of_le (Stmt.loopDepthAll_foldAll_le stmts))]
  exact gives_unrollAt_succ.2 ⟨behind', hgives⟩

end Unroller

theorem Options.passes_of_not_folding {o : Options} (h : o.optLevel < 3) :
    o.passes = [.unrolling o.maxLoopIterations] := by
  have hfolding : o.folding = false := decide_eq_false (by rw [foldLevel]; omega)
  have hinlining : o.inlining = false := decide_eq_false (by rw [inlineLevel]; omega)
  simp [passes, hfolding, hinlining]

theorem Options.passes_of_not_inlining {o : Options} (h : 3 ≤ o.optLevel) (h' : o.optLevel < 5) :
    o.passes = [.folding, .unrolling o.maxLoopIterations] := by
  have hfolding : o.folding = true := decide_eq_true (by rw [foldLevel]; omega)
  have hinlining : o.inlining = false := decide_eq_false (by rw [inlineLevel]; omega)
  simp [passes, hfolding, hinlining]

namespace Lowering

/-- **Folding never breaks or changes the expansion of loops.**  Where a script is lowered without
folding, it is lowered with folding too, under the same bound; the result is the folded one with
every place in it, and no more copies are made. -/
theorem folding_commutes_with_unrolling {plain folding : Options} (hplain : plain.optLevel < 3)
    (hfolding : 3 ≤ folding.optLevel) (hinlining : folding.optLevel < 5)
    (hbound : folding.maxLoopIterations = plain.maxLoopIterations) {stmts out : List Stmt}
    {t : Lowering} (h : Gives (runPasses plain.passes stmts) {} out t) :
    ∃ t', Gives (runPasses folding.passes stmts) {} (Stmt.foldAll out) t' ∧
      t'.counters.iterations ≤ t.counters.iterations := by
  rw [Options.passes_of_not_folding hplain] at h
  obtain ⟨unroller, hrun, rfl⟩ := gives_runPasses_unrolling.1 h
  obtain ⟨unroller', hrun', hsaves⟩ := Unroller.run_foldAll ⟨rfl, Nat.le_refl _⟩ hrun
  rw [Options.passes_of_not_inlining hfolding hinlining, hbound]
  have hfold : Gives (runPass .folding stmts) {} (Stmt.foldAll stmts)
      { notes := #[] ++ #[.runningPass LoweringPass.folding.name] } := rfl
  refine ⟨_, gives_bind.2 ⟨_, _, hfold, gives_runPasses_unrolling.2 ⟨unroller', hrun', rfl⟩⟩, ?_⟩
  exact Nat.add_le_add_left hsaves.count _

/-- A loop in a branch that never holds is dropped, and with it three of its copies, and a chain
inside the other loop is decided in each copy. -/
theorem folding_commutes_with_unrolling_droppedLoop :
    let text :=
      "var xs = [1, 2]; if (1 == 2) \x7b for (k of [1 .. 3]) \x7b print(k); \x7d \x7d else \x7b " ++
        "for (i of xs) \x7b if (i * 2 == 4) \x7b break; \x7d print(i + 1); \x7d \x7d"
    let plain : Options := { optLevel := 0 }
    let folding : Options := { optLevel := 4 }
    ∃ program out t, Program.parse text 0 = .ok program ∧
      Gives (runPasses plain.passes program.body) {} out t ∧ t.counters = ⟨0, 0, 2, 5⟩ ∧
      ∃ t', Gives (runPasses folding.passes program.body) {} (Stmt.foldAll out) t' ∧
        t'.counters.iterations ≤ 5 := by
  intro text plain folding
  have hruns : succeeds (Program.parse text 0) (fun program =>
      succeeds (outcome (runPasses plain.passes program.body) {}).1 (fun _ => true) &&
        (outcome (runPasses plain.passes program.body) {}).2.counters == ⟨0, 0, 2, 5⟩) = true := by
    decide +kernel
  obtain ⟨program, hparse, hbehind⟩ := exists_of_succeeds hruns
  rw [Bool.and_eq_true, beq_iff_eq] at hbehind
  obtain ⟨out, hout, -⟩ := exists_of_succeeds hbehind.1
  have hgives : Gives (runPasses plain.passes program.body) {} out
      (outcome (runPasses plain.passes program.body) {}).2 := Prod.ext hout rfl
  have hlevel : plain.optLevel < 3 := by decide
  have hlevel' : 3 ≤ folding.optLevel := by decide
  have hfolded := folding_commutes_with_unrolling hlevel hlevel' (by decide) rfl hgives
  rw [hbehind.2] at hfolded
  exact ⟨program, out, _, hparse, hgives, hbehind.2, hfolded⟩

end Lowering

end EdgeScript
