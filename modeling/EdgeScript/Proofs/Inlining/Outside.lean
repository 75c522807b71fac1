import EdgeScript.Proofs.Inlining.Termination

/-!
# Expressions outside of function bodies

Inlining goes through a script and leaves its statements as they are, inline declarations apart:
what it changes are expressions.  Outside of function bodies the expressions of the result are, in
their order, those of the script with their calls expanded (`Inliner.ensures_outer_expandStmts`),
where `Expr.InlinesTo` says what that is in terms of what each name stands for.
-/

set_option autoImplicit false

namespace EdgeScript

open Pass

/-! ## What an expression is expanded to -/

/-- With the functions that names stand for, an expression is expanded to another one.  Bodies are
folded behind their expansion if `folding` is set. -/
inductive Expr.InlinesTo (functions : String → Option InlineFunction) (folding : Bool) : Expr →
  Expr → Prop
  /-- What is no call of an inline function stays, with its parts expanded. -/
  | kept {e : Expr} {parts : List Expr} (hcallee : ∀ n ∈ e.callee?, functions n = none)
      (hparts : List.Forall₂ (InlinesTo functions folding) e.parts parts) :
      InlinesTo functions folding e (e.withParts parts)
  /-- A call becomes the return expression of the function, with the arguments in place of the
  parameters. -/
  | replaced {callee : Ident} {args args' : List Expr} {span : Span} {f : InlineFunction}
      {body result : Expr}
      (hf : functions callee.name = some f)
        (hargs : List.Forall₂ (InlinesTo functions folding) args args')
      (hbody : Inliner.instantiate f callee.name args' span = .ok body)
      (hresult : InlinesTo functions folding body result) :
      InlinesTo functions folding (.call callee args span) (if folding then result.fold else result)

namespace Inliner

variable {table : FunctionTable} {folding : Bool}

/-- Expanding expressions leaves the functions. -/
theorem Expands.functions_eq {v t : Inliner} {es : List Expr} {r : Except Error (List Expr)}
    (h : Expands v es r t) : t.functions = v.functions ∧ t.folding = v.folding := by
  induction h with
  | nil => exact ⟨rfl, rfl⟩
  | part _ ih => exact ih
  | kept _ _ _ ihparts ihrest => exact ⟨ihrest.1.trans ihparts.1, ihrest.2.trans ihparts.2⟩
  | refused _ _ _ ihargs => exact ihargs
  | body _ _ _ _ ihargs ihinner => exact ⟨ihinner.1.trans ihargs.1, ihinner.2.trans ihargs.2⟩
  | replaced _ _ _ _ _ ihargs ihinner ihrest =>
    exact ⟨ihrest.1.trans (ihinner.1.trans ihargs.1), ihrest.2.trans (ihinner.2.trans ihargs.2)⟩

/-- What the expansion ends with depends on the functions alone, and not on what has been counted
and noted. -/
theorem Expands.inlinesTo {v t : Inliner} {es rs : List Expr} (h : Expands v es (.ok rs) t)
    (hv : v.functions = table ∧ v.folding = folding) :
    List.Forall₂ (Expr.InlinesTo table.get? folding) es rs := by
  generalize hr : (Except.ok rs : Except Error (List Expr)) = r at h
  induction h generalizing rs with
  | nil =>
    cases hr
    exact .nil
  | part | refused | body => cases hr
  | @kept v t u e es parts r hparts hcallee hrest ihparts ihrest =>
    have ht : t.functions = table ∧ t.folding = folding :=
      ⟨hparts.functions_eq.1.trans hv.1, hparts.functions_eq.2.trans hv.2⟩
    cases r with
    | error e => cases hr
    | ok rest =>
      cases hr
      rw [ht.1] at hcallee
      exact .cons (.kept hcallee (ihparts hv rfl)) (ihrest ht rfl)
  | @replaced v t u w callee args args' es span f body result r hargs hf hbody hinner hrest ihargs
      ihinner ihrest =>
    have ht : t.functions = table ∧ t.folding = folding :=
      ⟨hargs.functions_eq.1.trans hv.1, hargs.functions_eq.2.trans hv.2⟩
    have hu : u.functions = table ∧ u.folding = folding :=
      ⟨hinner.functions_eq.1.trans ht.1, hinner.functions_eq.2.trans ht.2⟩
    cases r with
    | error e => cases hr
    | ok rest =>
      cases hr
      rw [ht.1] at hf
      have hresult : Expr.InlinesTo table.get? folding body result := by
        cases ihinner ht rfl with
        | cons hresult _ => exact hresult
      rw [finished, hu.2]
      exact .cons (.replaced hf (ihargs hv rfl) hbody hresult) (ihrest hu rfl)

/-- Each expression is expanded into its meaning by the table. -/
theorem ensures_inlinesTo_expand (hcycles : table.checkCycles = .ok ()) (e : Expr) :
    Ensures (fun s => s.functions = table ∧ s.folding = folding) (expand e)
      (Expr.InlinesTo table.get? folding e) := by
  refine ⟨fun {s t r} hs hrun => ?_⟩
  rw [expand, gives_get_bind] at hrun
  have hexpands : Expands s [e] (.ok [r]) t := by
    rw [expands_iff (by rw [hs.1, hcycles]), outcome_mapM_of_gives hrun]
    rfl
  refine ⟨⟨hexpands.functions_eq.1.trans hs.1, hexpands.functions_eq.2.trans hs.2⟩, ?_⟩
  cases hexpands.inlinesTo hs with
  | cons hr _ => exact hr

end Inliner

/-! ## The walk over statements -/

namespace Stmt

mutual

/-- The expressions of a statement that stand outside of function bodies, in the order of the
text. -/
def outerExprs : Stmt → List Expr
  | .atom a => a.exprs
  | .ifChain branches (some body) _ => outerExprsBranches branches ++ outerExprsAll body
  | .ifChain branches none _ => outerExprsBranches branches
  | .forLoop _ collection body _ => collection :: outerExprsAll body
  | .attempt body (some handler) _ => outerExprsAll body ++ outerExprsAll handler
  | .attempt body none _ => outerExprsAll body
  | .block body _ => outerExprsAll body
  | .function .. | .breakLoop _ | .require .. => []

/-- The expressions of statements that stand outside of function bodies. -/
def outerExprsAll : List Stmt → List Expr
  | [] => []
  | s :: rest => outerExprs s ++ outerExprsAll rest

/-- The conditions of branches, each followed by the expressions of its body that stand outside of
function bodies. -/
def outerExprsBranches : List (Branch Stmt) → List Expr
  | [] => []
  | ⟨cond, body, _⟩ :: rest => cond :: (outerExprsAll body ++ outerExprsBranches rest)

end

theorem outerExprsAll_append (l l' : List Stmt) :
    outerExprsAll (l ++ l') = outerExprsAll l ++ outerExprsAll l' := by
  induction l with
  | nil => rfl
  | cons s l ih => simp only [List.cons_append, outerExprsAll, ih, List.append_assoc]

theorem forall₂_outer_singleton {R : Expr → Expr → Prop} {l : List Expr} {s : Stmt}
    (h : List.Forall₂ R l s.outerExprs) : List.Forall₂ R l (outerExprsAll [s]) := by
  rwa [outerExprsAll, outerExprsAll, List.append_nil]

end Stmt

section Walk

variable {σ : Type} {I : σ → Prop} {R : Expr → Expr → Prop} {f : Expr → Pass σ Expr}

theorem Pass.ensures_forall₂_mapM {α : Type} {R : α → α → Prop} {f : α → Pass σ α}
    (hf : ∀ x, Ensures I (f x) (R x)) (l : List α) : Ensures I (l.mapM f) (List.Forall₂ R l) := by
  induction l with
  | nil => exact ensures_pure .nil
  | cons x l ih =>
    rw [List.mapM_cons]
    exact (hf x).bind fun y hy => ih.bind fun ys hys => ensures_pure (.cons hy hys)

theorem Pass.ensures_forall₂_optionMapM (hf : ∀ e, Ensures I (f e) (R e)) (o : Option Expr) :
    Ensures I (o.mapM f) fun o' => List.Forall₂ R o.toList o'.toList := by
  cases o with
  | none => exact ensures_pure .nil
  | some e => exact (hf e).bind fun e' he => ensures_pure (.cons he .nil)

/-- The expressions of an atom are rewritten in order, one for one. -/
theorem Atom.ensures_forall₂_mapExprsM (hf : ∀ e, Ensures I (f e) (R e)) (a : Atom) :
    Ensures I (a.mapExprsM f) fun x => List.Forall₂ R a.exprs x.exprs := by
  cases a with
  | declare name value span =>
    exact (ensures_forall₂_optionMapM hf value).bind fun value' hvalue => ensures_pure hvalue
  | assign target key value span =>
    refine (ensures_forall₂_optionMapM hf key).bind fun key' hkey => (hf value).bind
      fun value' hvalue => ?_
    exact ensures_pure (List.rel_append hkey (.cons hvalue .nil))
  | expr e => exact (hf e).bind fun e' he => ensures_pure (.cons he .nil)
  | ret value span =>
    exact (ensures_forall₂_optionMapM hf value).bind fun value' hvalue => ensures_pure hvalue
  | inclusion kind options span =>
    refine (ensures_forall₂_mapM (R := fun o o' => R o.value o'.value) (fun o => ?_) options).bind
      fun options' hoptions => ensures_pure ?_
    · exact (hf o.value).bind fun value hvalue => ensures_pure hvalue
    · exact List.forall₂_map_left_iff.2 (List.forall₂_map_right_iff.2 hoptions)
  | output kind args span =>
    exact (ensures_forall₂_mapM hf args).bind fun args' hargs => ensures_pure hargs
  | comment text span => exact ensures_pure .nil

end Walk

namespace Inliner

variable {I : Inliner → Prop} {R : Expr → Expr → Prop}

mutual

/-- The expressions outside of function bodies are expanded in order, one for one; what is dropped
are functions. -/
theorem ensures_outer_expandStmt (hexpand : ∀ e, Ensures I (expand e) (R e)) :
    ∀ s : Stmt, Ensures I (expandStmt s) fun out =>
      List.Forall₂ R s.outerExprs (Stmt.outerExprsAll out)
  | .atom a =>
    (a.ensures_forall₂_mapExprsM hexpand).bind fun _ ha =>
      ensures_pure (Stmt.forall₂_outer_singleton ha)
  | .function _ _ true _ _ => ensures_pure .nil
  | .function _ _ false body _ =>
    (ensures_outer_expandStmts hexpand body).bind fun _ _ => ensures_pure .nil
  | .ifChain branches (some body) _ =>
    (ensures_outer_expandBranches hexpand branches).bind fun _ hbranches =>
      (ensures_outer_expandStmts hexpand body).bind fun _ hbody =>
        ensures_pure (Stmt.forall₂_outer_singleton (List.rel_append hbranches hbody))
  | .ifChain branches none _ =>
    (ensures_outer_expandBranches hexpand branches).bind fun _ hbranches =>
      ensures_pure (Stmt.forall₂_outer_singleton hbranches)
  | .forLoop _ collection body _ =>
    (hexpand collection).bind fun _ hcollection =>
      (ensures_outer_expandStmts hexpand body).bind fun _ hbody =>
        ensures_pure (Stmt.forall₂_outer_singleton (.cons hcollection hbody))
  | .breakLoop _ => ensures_pure .nil
  | .attempt body (some handler) _ =>
    (ensures_outer_expandStmts hexpand body).bind fun _ hbody =>
      (ensures_outer_expandStmts hexpand handler).bind fun _ hhandler =>
        ensures_pure (Stmt.forall₂_outer_singleton (List.rel_append hbody hhandler))
  | .attempt body none _ =>
    (ensures_outer_expandStmts hexpand body).bind fun _ hbody =>
      ensures_pure (Stmt.forall₂_outer_singleton hbody)
  | .require .. => ensures_pure .nil
  | .block body _ =>
    (ensures_outer_expandStmts hexpand body).bind fun _ hbody =>
      ensures_pure (Stmt.forall₂_outer_singleton hbody)

/-- Outside of function bodies, the expressions of a script are expanded one by one. -/
theorem ensures_outer_expandStmts (hexpand : ∀ e, Ensures I (expand e) (R e)) :
    ∀ stmts : List Stmt, Ensures I (expandStmts stmts) fun out =>
      List.Forall₂ R (Stmt.outerExprsAll stmts) (Stmt.outerExprsAll out)
  | [] => ensures_pure .nil
  | s :: rest =>
    (ensures_outer_expandStmt hexpand s).bind fun _ hfirst =>
      (ensures_outer_expandStmts hexpand rest).bind fun _ hrest => ensures_pure (by
        rw [Stmt.outerExprsAll_append]
        exact List.rel_append hfirst hrest)

theorem ensures_outer_expandBranches (hexpand : ∀ e, Ensures I (expand e) (R e)) :
    ∀ branches : List (Branch Stmt), Ensures I (expandBranches branches) fun out =>
      List.Forall₂ R (Stmt.outerExprsBranches branches) (Stmt.outerExprsBranches out)
  | [] => ensures_pure .nil
  | ⟨cond, body, _⟩ :: rest =>
    (hexpand cond).bind fun _ hcond =>
      (ensures_outer_expandStmts hexpand body).bind fun _ hbody =>
        (ensures_outer_expandBranches hexpand rest).bind fun _ hrest =>
          ensures_pure (.cons hcond (List.rel_append hbody hrest))

end

end Inliner

end EdgeScript
