import EdgeScript.Proofs.Inlining.TwoRuns

/-!
# Folding while inlining is folding afterwards

An inliner that folds does so with everything that it puts in the place of a call, and with the
whole script in the end.  The first of these makes no difference: the script is the one of an
inliner that does not fold, folded, and the error, the counters and the notes are the same
(`Inliner.paired_run`).

The two runs are compared statement by statement.  What folding makes of a statement depends on its
expressions only through what folding makes of them, so that the scripts of the two runs are the
same once they are folded.
-/

set_option autoImplicit false

namespace EdgeScript.Inliner

open Pass

variable {I : Inliner → Prop} {s : Inliner}

/-! ## The functions of a script -/

theorem Paired.set {u : Inliner} (hu : I u) :
    Paired I s (set u) (set u.withFolding) fun _ _ => True :=
  .gives (a := ()) (b := ()) (gives_set.2 rfl) (gives_set.2 rfl) trivial hu

theorem Paired.note (n : Note) (hs : I { s with notes := s.notes.push n }) :
    Paired I s (note n) (note n) fun _ _ => True :=
  .gives (a := ()) (b := ()) (gives_modify.2 rfl) (gives_modify.2 rfl) trivial hs

theorem paired_collectOne (d : InlineDeclaration) (hs : s.folding = false) :
    Paired (fun t => t.folding = false) s (collectOne d) (collectOne d) fun _ _ => True := by
  have hreduce : Paired (fun t => t.folding = false) s (liftM d.reduce) (liftM d.reduce) Eq :=
    .lift (.refl fun _ _ => rfl) hs
  refine hreduce.bind fun {f f' t} hf ht => .get_bind ?_
  subst hf
  have hset := Paired.set (I := fun t => t.folding = false) (s := t)
    (u := { t with functions := t.functions.insert d.name f }) ht
  refine hset.bind fun {_ _ u} _ hu => ?_
  rw [functions_withFolding]
  split
  · exact .note _ hu
  · exact .pure trivial hu

theorem paired_collect (ds : List InlineDeclaration) (hs : s.folding = false) :
    Paired (fun t => t.folding = false) s (collect ds) (collect ds) fun _ _ => True := by
  induction ds generalizing s with
  | nil => exact .pure trivial hs
  | cons d ds ih => exact (paired_collectOne d hs).bind fun _ ht => ih ht

/-! ## Statements -/

/-- The expressions of an atom are expanded alike if every expression is. -/
theorem paired_mapExprsM
    (hexpand : ∀ e {s}, I s → Paired I s (expand e) (expand e) fun x y => x.fold = y.fold)
    (a : Atom) (hs : I s) :
    Paired I s (a.mapExprsM expand) (a.mapExprsM expand) fun x y =>
      x.mapExprs Expr.fold = y.mapExprs Expr.fold := by
  have hoption {o o' : Option Expr} (h : Option.Rel (fun x y => x.fold = y.fold) o o') :
      o.map Expr.fold = o'.map Expr.fold := by
    cases h with
    | none => rfl
    | some h => exact congrArg some h
  cases a with
  | declare name value span =>
    exact (Paired.optionMapM hexpand value hs).bind fun h ht =>
      .pure (by simp only [Atom.mapExprs, hoption h]) ht
  | assign target key value span =>
    refine (Paired.optionMapM hexpand key hs).bind fun hkey ht => (hexpand value ht).bind
      fun hvalue hu => .pure ?_ hu
    simp only [Atom.mapExprs, hoption hkey, hvalue]
  | expr e => exact (hexpand e hs).bind fun h ht => .pure (by simp only [Atom.mapExprs, h]) ht
  | ret value span =>
    exact (Paired.optionMapM hexpand value hs).bind fun h ht =>
      .pure (by simp only [Atom.mapExprs, hoption h]) ht
  | inclusion kind options span =>
    refine (Paired.mapM (S := fun o o' => ({ o with value := o.value.fold } : InclusionOption) =
      { o' with value := o'.value.fold }) (List.forall₂_same.2 fun o _ t ht => ?_) hs).bind
        fun h ht => .pure ?_ ht
    · exact (hexpand o.value ht).bind fun h hu => .pure (by simp only [h]) hu
    · simp only [Atom.mapExprs, map_eq_of_forall₂ h]
  | output kind args span =>
    refine (Paired.mapM (List.forall₂_same.2 fun e _ t ht => hexpand e ht) hs).bind fun h ht =>
      .pure ?_ ht
    simp only [Atom.mapExprs, map_eq_of_forall₂ h]
  | comment text span => exact .pure rfl hs

mutual

theorem paired_expandStmt
    (hexpand : ∀ e {s}, I s → Paired I s (expand e) (expand e) fun x y => x.fold = y.fold) :
    ∀ (stmt : Stmt) {s : Inliner}, I s →
      Paired I s (expandStmt stmt) (expandStmt stmt) fun out out' =>
        Stmt.foldAll out = Stmt.foldAll out'
  | .atom a, _, hs =>
    (paired_mapExprsM hexpand a hs).bind fun h ht =>
      .pure (by simp only [Stmt.foldAll, Stmt.fold, h]) ht
  | .function _ _ true _ _, _, hs => .pure rfl hs
  | .function _ _ false body _, _, hs =>
    (paired_expandStmts hexpand body hs).bind fun h ht =>
      .pure (by simp only [Stmt.foldAll, Stmt.fold, h]) ht
  | .ifChain branches (some body) _, _, hs =>
    (paired_expandBranches hexpand branches hs).bind fun hbranches ht =>
      (paired_expandStmts hexpand body ht).bind fun hbody hu =>
        .pure (by simp only [Stmt.foldAll, Stmt.fold, hbranches, hbody]) hu
  | .ifChain branches none _, _, hs =>
    (paired_expandBranches hexpand branches hs).bind fun hbranches ht =>
      .pure (by simp only [Stmt.foldAll, Stmt.fold, hbranches]) ht
  | .forLoop _ collection body _, _, hs =>
    (hexpand collection hs).bind fun hcollection ht =>
      (paired_expandStmts hexpand body ht).bind fun hbody hu =>
        .pure (by simp only [Stmt.foldAll, Stmt.fold, hcollection, hbody]) hu
  | .breakLoop _, _, hs => .pure rfl hs
  | .attempt body (some handler) _, _, hs =>
    (paired_expandStmts hexpand body hs).bind fun hbody ht =>
      (paired_expandStmts hexpand handler ht).bind fun hhandler hu =>
        .pure (by simp only [Stmt.foldAll, Stmt.fold, hbody, hhandler]) hu
  | .attempt body none _, _, hs =>
    (paired_expandStmts hexpand body hs).bind fun h ht =>
      .pure (by simp only [Stmt.foldAll, Stmt.fold, h]) ht
  | .require .., _, hs => .pure rfl hs
  | .block body _, _, hs =>
    (paired_expandStmts hexpand body hs).bind fun h ht =>
      .pure (by simp only [Stmt.foldAll, Stmt.fold, h]) ht

/-- **The statements of the two runs are the same once they are folded.** -/
theorem paired_expandStmts
    (hexpand : ∀ e {s}, I s → Paired I s (expand e) (expand e) fun x y => x.fold = y.fold) :
    ∀ (stmts : List Stmt) {s : Inliner}, I s →
      Paired I s (expandStmts stmts) (expandStmts stmts) fun out out' =>
        Stmt.foldAll out = Stmt.foldAll out'
  | [], _, hs => .pure rfl hs
  | stmt :: rest, _, hs =>
    (paired_expandStmt hexpand stmt hs).bind fun hfirst ht =>
      (paired_expandStmts hexpand rest ht).bind fun hrest hu =>
        .pure (by rw [Stmt.foldAll_append, Stmt.foldAll_append, hfirst, hrest]) hu

theorem paired_expandBranches
    (hexpand : ∀ e {s}, I s → Paired I s (expand e) (expand e) fun x y => x.fold = y.fold) :
    ∀ (branches : List (Branch Stmt)) {s : Inliner}, I s →
      Paired I s (expandBranches branches) (expandBranches branches) fun out out' =>
        Stmt.foldBranches out = Stmt.foldBranches out'
  | [], _, hs => .pure rfl hs
  | ⟨cond, body, _⟩ :: rest, _, hs =>
    (hexpand cond hs).bind fun hcond ht =>
      (paired_expandStmts hexpand body ht).bind fun hbody hu =>
        (paired_expandBranches hexpand rest hu).bind fun hrest hv =>
          .pure (by simp only [Stmt.foldBranches, hcond, hbody, hrest]) hv

end

/-! ## Scripts -/

theorem paired_run (stmts : List Stmt) (hs : s.folding = false) :
    Paired (fun t => t.folding = false) s (run stmts) (run stmts) fun out out' =>
      out' = Stmt.foldAll out := by
  refine (paired_collect _ hs).bind fun {_ _ t} _ ht => .get_bind ?_
  have hcheck : Alike (fun _ _ => t.functions.checkCycles = .ok ()) t.functions.checkCycles
      t.withFolding.functions.checkCycles := .refl fun _ h => h
  have hplain : Plain t.functions t := ⟨rfl, ht⟩
  refine (Paired.lift hcheck hplain).bind fun hcycles hu => ?_
  refine (paired_expandStmts (fun e _ hv => (paired_expand hcycles e hv).mono Settled.fold_eq) stmts
    hu).bind
    fun {out out' v} h hv => .get_bind (.pure ?_ hv.2)
  have hfolding : v.withFolding.folding = true := rfl
  rw [hfolding, hv.2, if_pos rfl, if_neg Bool.false_ne_true, h]

/-- **Folding while inlining is folding afterwards.**  From every state, that of a new inliner among
them, an inliner that folds fails on the same scripts with the same errors as one that does not,
gives the same scripts folded, with every place in them, and ends in the same state: the same
functions, the same count of calls and the same notes. -/
theorem folding_while_inlining_is_folding_afterwards (stmts : List Stmt) (s : Inliner) :
    let plain := outcome (run stmts) { s with folding := false }
    outcome (run stmts) { s with folding := true } =
      (plain.1.map Stmt.foldAll, { plain.2 with folding := true }) := by
  intro plain
  have hpaired : Paired (fun t => t.folding = false) { s with folding := false } (run stmts)
      (run stmts)
      fun out out' => out' = Stmt.foldAll out := paired_run stmts rfl
  cases hpaired with
  | @fails e t hx hy =>
    have hplain : plain = (.error e, t) := hx
    rw [hplain]
    exact hy
  | @gives out out' t hx hy h ht =>
    have hplain : plain = (.ok out, t) := hx
    rw [hplain, Except.map, ← h]
    exact hy

end EdgeScript.Inliner
