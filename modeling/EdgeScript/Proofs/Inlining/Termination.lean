import EdgeScript.Proofs.Parts

/-!
# The expansion of calls ends

What a call is replaced by is expanded again, and it may be larger than the call.  `Inliner.Expands`
says what this recursion leads to without any bound on it: a derivation is a run of it that ends.

* A run that ends is found by the bounded expansion at every depth from some one on
  (`Expands.exists_depth`), so it ends in one way only (`Expands.unique`).
* Without recursive functions there is one for every expression (`expands_mapM_expandAt`).  What
  takes the place of a call calls only functions that are later in the order of all functions,
  because the arguments that are put into it are expanded already.

So the depth to which `Inliner.expand` goes cuts nothing off (`expands_iff`).
-/

set_option autoImplicit false

namespace EdgeScript

open Pass

theorem Expr.callee_cases (table : FunctionTable) (e : Expr) :
    (∀ n ∈ e.callee?, table.get? n = none) ∨
      ∃ callee args span f, e = .call callee args span ∧ table.get? callee.name = some f := by
  cases e with
  | call callee args span =>
    cases hf : table.get? callee.name with
    | none => exact .inl (by simpa [callee?] using hf)
    | some f => exact .inr ⟨callee, args, span, f, rfl, hf⟩
  | _ => exact .inl (by simp [callee?])

namespace Inliner

/-- The state after a call has been replaced. -/
def counted (name : String) (s : Inliner) : Inliner :=
  { s with callsInlined := s.callsInlined + 1, notes := s.notes.push (.callInlined name) }

/-- What an expanded body becomes. -/
def finished (s : Inliner) (e : Expr) : Expr :=
  if s.folding then e.fold else e

/-- From a state, the expansion of expressions one after the other ends with what they become, or
with an error, and in a state. -/
inductive Expands : Inliner → List Expr → Except Error (List Expr) → Inliner → Prop
  | nil {v : Inliner} : Expands v [] (.ok []) v
  /-- A part of the first expression cannot be expanded. -/
  | part {v t : Inliner} {e : Expr} {es : List Expr} {error : Error}
      (hparts : Expands v e.parts (.error error) t) : Expands v (e :: es) (.error error) t
  /-- The first expression is no call of an inline function, and only its parts are expanded. -/
  | kept {v t u : Inliner} {e : Expr} {es parts : List Expr} {r : Except Error (List Expr)}
      (hparts : Expands v e.parts (.ok parts) t)
      (hcallee : ∀ n ∈ e.callee?, t.functions.get? n = none) (hrest : Expands t es r u) :
      Expands v (e :: es) (r.map (e.withParts parts :: ·)) u
  /-- The arguments do not fit the function. -/
  | refused {v t : Inliner} {callee : Ident} {args args' es : List Expr} {span : Span}
      {f : InlineFunction} {error : Error} (hargs : Expands v args (.ok args') t)
      (hf : t.functions.get? callee.name = some f)
      (hbody : instantiate f callee.name args' span = .error error) :
      Expands v (.call callee args span :: es) (.error error) t
  /-- The body of the function cannot be expanded. -/
  | body {v t u : Inliner} {callee : Ident} {args args' es : List Expr} {span : Span}
      {f : InlineFunction} {body : Expr} {error : Error} (hargs : Expands v args (.ok args') t)
      (hf : t.functions.get? callee.name = some f)
      (hbody : instantiate f callee.name args' span = .ok body)
      (hinner : Expands t [body] (.error error) u) :
      Expands v (.call callee args span :: es) (.error error) u
  /-- The call is replaced by what the body of the function expands to. -/
  | replaced {v t u w : Inliner} {callee : Ident} {args args' es : List Expr} {span : Span}
      {f : InlineFunction} {body result : Expr} {r : Except Error (List Expr)}
      (hargs : Expands v args (.ok args') t) (hf : t.functions.get? callee.name = some f)
      (hbody : instantiate f callee.name args' span = .ok body)
      (hinner : Expands t [body] (.ok [result]) u)
      (hrest : Expands (u.counted callee.name) es r w) :
      Expands v (.call callee args span :: es) (r.map (u.finished result :: ·)) w

/-! ## The bounded expansion comes to it -/

theorem expandAt_succ (depth : Nat) (e : Expr) :
    expandAt (depth + 1) e =
      e.parts.mapM (expandAt (depth + 1)) >>=
        fun parts => expandNode (expandAt depth) (e.withParts parts) := by
  rw [expandAt, Expr.bottomUpM_eq]
  rfl

section Step

variable {depth : Nat} {v t u : Inliner} {e : Expr} {parts : List Expr} {error : Error}

theorem fails_expandAt_part (hparts : Fails (e.parts.mapM (expandAt (depth + 1))) v error t) :
    Fails (expandAt (depth + 1) e) v error t := by
  rw [expandAt_succ]
  exact hparts.bind _

theorem gives_expandAt_kept (hparts : Gives (e.parts.mapM (expandAt (depth + 1))) v parts t)
    (hcallee : ∀ n ∈ e.callee?, t.functions.get? n = none) :
    Gives (expandAt (depth + 1) e) v (e.withParts parts) t := by
  rw [← e.callee?_withParts parts] at hcallee
  rw [expandAt_succ]
  refine gives_bind.2 ⟨parts, t, hparts, ?_⟩
  cases hnode : e.withParts parts with
  | call callee args span =>
    have hnone : t.functions.get? callee.name = none := hcallee _ (by rw [hnode]; rfl)
    rw [expandNode, gives_get_bind, hnone]
    exact gives_pure.2 ⟨rfl, rfl⟩
  | _ => exact gives_pure.2 ⟨rfl, rfl⟩

variable {callee : Ident} {args args' : List Expr} {span : Span} {f : InlineFunction} {body : Expr}
  (hargs : Gives (args.mapM (expandAt (depth + 1))) v args' t)
  (hf : t.functions.get? callee.name = some f)
include hargs hf

theorem fails_expandAt_refused (hbody : instantiate f callee.name args' span = .error error) :
    Fails (expandAt (depth + 1) (.call callee args span)) v error t := by
  rw [expandAt_succ]
  refine Gives.bind_fails hargs (Gives.bind_fails (gives_get.2 ⟨rfl, rfl⟩) ?_)
  rw [hf]
  refine Fails.bind ?_ _
  rw [hbody]
  rfl

theorem fails_expandAt_body (hbody : instantiate f callee.name args' span = .ok body)
    (hinner : Fails (expandAt depth body) t error u) :
    Fails (expandAt (depth + 1) (.call callee args span)) v error u := by
  rw [expandAt_succ]
  refine Gives.bind_fails hargs (Gives.bind_fails (gives_get.2 ⟨rfl, rfl⟩) ?_)
  rw [hf]
  exact Gives.bind_fails (gives_lift.2 ⟨hbody, rfl⟩) (hinner.bind _)

theorem gives_expandAt_replaced {result : Expr}
    (hbody : instantiate f callee.name args' span = .ok body)
    (hinner : Gives (expandAt depth body) t result u) :
    Gives (expandAt (depth + 1) (.call callee args span)) v (u.finished result)
      (u.counted callee.name) := by
  rw [expandAt_succ]
  refine gives_bind.2 ⟨args', t, hargs, gives_get_bind.2 ?_⟩
  rw [hf]
  refine gives_bind.2 ⟨body, t, gives_lift.2 ⟨hbody, rfl⟩, gives_bind.2 ⟨result, u, hinner, ?_⟩⟩
  rfl

end Step

/-- An expression in which nothing is to be expanded is left alone. -/
theorem gives_expandAt_of_free (depth : Nat) {s : Inliner} {e : Expr}
    (he : ∀ n ∈ e.calls, s.functions.contains n = false) : Gives (expandAt depth e) s e s := by
  cases depth with
  | zero => exact gives_pure.2 ⟨rfl, rfl⟩
  | succ depth =>
    induction e using Expr.induction_parts with
    | node e ih =>
      have hparts : Gives (e.parts.mapM (expandAt (depth + 1))) s e.parts s :=
        gives_mapM_of_mem fun p hp => ih p hp fun n hn => he n (Expr.mem_calls_of_mem_parts hp hn)
      have hcallee : ∀ n ∈ e.callee?, s.functions.get? n = none := by
        intro n hn
        have hcall : n ∈ e.calls := by
          rw [Expr.calls_eq]
          exact List.mem_append_left _ (Option.mem_toList.2 hn)
        exact Option.isNone_iff_eq_none.1 (Option.isSome_eq_false_iff.1 (he n hcall))
      have hnode := gives_expandAt_kept hparts hcallee
      rwa [Expr.withParts_parts] at hnode

section Row

variable {f : Expr → Pass Inliner Expr} {e : Expr} {es : List Expr} {v t : Inliner}

theorem outcome_mapM_of_fails {error : Error} (h : Fails (f e) v error t) :
    outcome ((e :: es).mapM f) v = (.error error, t) := by
  rw [List.mapM_cons]
  exact h.bind _

theorem outcome_mapM_of_gives {x : Expr} (h : Gives (f e) v x t) :
    outcome ((e :: es).mapM f) v =
      ((outcome (es.mapM f) t).1.map (x :: ·), (outcome (es.mapM f) t).2) := by
  rw [List.mapM_cons, outcome_bind, show outcome (f e) v = _ from h]
  show outcome (es.mapM f >>= fun xs => pure (x :: xs)) t = _
  rw [bind_pure_comp, outcome_map]

theorem fails_of_mapM {error : Error} (h : outcome ([e].mapM f) v = (.error error, t)) :
    Fails (f e) v error t := by
  rcases hrun : outcome (f e) v with ⟨_ | x, u⟩
  · cases (outcome_mapM_of_fails hrun).symm.trans h
    exact hrun
  · cases (outcome_mapM_of_gives hrun).symm.trans h

theorem gives_of_mapM {x : Expr} (h : outcome ([e].mapM f) v = (.ok [x], t)) :
    Gives (f e) v x t := by
  rcases hrun : outcome (f e) v with ⟨_ | y, u⟩
  · cases (outcome_mapM_of_fails hrun).symm.trans h
  · cases (outcome_mapM_of_gives hrun).symm.trans h
    exact hrun

end Row

/-- **A run of the recursion that ends is found by the expansion to every sufficient depth.** -/
theorem Expands.exists_depth {v t : Inliner} {es : List Expr} {r : Except Error (List Expr)}
    (h : Expands v es r t) :
    ∃ least, ∀ depth, least ≤ depth → outcome (es.mapM (expandAt (depth + 1))) v = (r, t) := by
  induction h with
  | nil => exact ⟨0, fun _ _ => rfl⟩
  | part _ ih =>
    obtain ⟨least, hleast⟩ := ih
    exact ⟨least, fun depth hdepth =>
      outcome_mapM_of_fails (fails_expandAt_part (hleast depth hdepth))⟩
  | kept _ hcallee _ ih ihrest =>
    obtain ⟨least, hleast⟩ := ih
    obtain ⟨least', hleast'⟩ := ihrest
    refine ⟨max least least', fun depth hdepth => ?_⟩
    have hfirst := gives_expandAt_kept (hleast depth (by omega)) hcallee
    rw [outcome_mapM_of_gives hfirst, hleast' depth (by omega)]
  | refused _ hf hbody ih =>
    obtain ⟨least, hleast⟩ := ih
    exact ⟨least, fun depth hdepth =>
      outcome_mapM_of_fails (fails_expandAt_refused (hleast depth hdepth) hf hbody)⟩
  | body _ hf hbody _ ih ihinner =>
    obtain ⟨least, hleast⟩ := ih
    obtain ⟨least', hleast'⟩ := ihinner
    refine ⟨max least (least' + 1), fun depth hdepth => outcome_mapM_of_fails ?_⟩
    obtain ⟨depth, rfl⟩ := Nat.exists_eq_add_one_of_ne_zero (show depth ≠ 0 by omega)
    exact fails_expandAt_body (hleast _ (by omega)) hf hbody
      (fails_of_mapM (hleast' depth (by omega)))
  | replaced _ hf hbody _ _ ih ihinner ihrest =>
    obtain ⟨least, hleast⟩ := ih
    obtain ⟨least', hleast'⟩ := ihinner
    obtain ⟨least'', hleast''⟩ := ihrest
    refine ⟨max (max least (least' + 1)) least'', fun depth hdepth => ?_⟩
    obtain ⟨depth, rfl⟩ := Nat.exists_eq_add_one_of_ne_zero (show depth ≠ 0 by omega)
    have hinner := gives_of_mapM (hleast' depth (by omega))
    have hfirst := gives_expandAt_replaced (hleast _ (by omega)) hf hbody hinner
    rw [outcome_mapM_of_gives hfirst, hleast'' _ (by omega)]

/-- The recursion ends in one way only. -/
theorem Expands.unique {v t t' : Inliner} {es : List Expr} {r r' : Except Error (List Expr)}
    (h : Expands v es r t) (h' : Expands v es r' t') : (r, t) = (r', t') := by
  obtain ⟨least, hleast⟩ := h.exists_depth
  obtain ⟨least', hleast'⟩ := h'.exists_depth
  rw [← hleast (max least least') (by omega), hleast' (max least least') (by omega)]

/-! ## Without recursive functions it ends -/

section Ending

variable {table : FunctionTable} {order : List String} {depth : Nat}

/-- **If calls are in an order, the recursion ends**, and with what is found at any depth greater
than its length. -/
theorem expands_mapM_expandAt (horder : table.Ordered order) (hdepth : order.length < depth)
    {es : List Expr} (hcalls : ∀ e ∈ es, ∀ n ∈ e.calls, table.contains n = true → n ∈ order)
    {v : Inliner} (hv : v.functions = table) :
    Expands v es (outcome (es.mapM (expandAt depth)) v).1
      (outcome (es.mapM (expandAt depth)) v).2 := by
  induction depth generalizing order es v with
  | zero => exact absurd hdepth (Nat.not_lt_zero _)
  | succ depth ih =>
    induction es using Expr.induction_row generalizing v with
    | nil => exact .nil
    | cons e es ihparts ihrest =>
      obtain ⟨he, hes⟩ := List.forall_mem_cons.1 hcalls
      have hpartCalls : ∀ p ∈ e.parts, ∀ n ∈ p.calls, table.contains n = true → n ∈ order :=
        fun p hp n hn => he n (Expr.mem_calls_of_mem_parts hp hn)
      have hparts := ihparts hpartCalls hv
      rcases hrun : outcome (e.parts.mapM (expandAt (depth + 1))) v with ⟨error | parts, t⟩
      · rw [hrun] at hparts
        rw [outcome_mapM_of_fails (fails_expandAt_part hrun)]
        exact .part hparts
      rw [hrun] at hparts
      obtain ⟨ht, hfree⟩ := (ensures_mapM_of_mem fun p hp =>
        ensures_expandAt horder hdepth (hpartCalls p hp)).run hv hrun
      rcases Expr.callee_cases t.functions e with hcallee | ⟨callee, args, span, f, rfl, hf⟩
      · rw [outcome_mapM_of_gives (gives_expandAt_kept hrun hcallee)]
        exact .kept hparts hcallee (ihrest hes ht)
      have hargs : Gives (args.mapM (expandAt (depth + 1))) v parts t := hrun
      cases hbody : instantiate f callee.name parts span with
      | error error =>
        rw [outcome_mapM_of_fails (fails_expandAt_refused hargs hf hbody)]
        exact .refused hparts hf hbody
      | ok body =>
        have hget : table.get? callee.name = some f := by rwa [ht] at hf
        have hname : callee.name ∈ order := he _ (by simp) (FunctionTable.contains_of_get? hget)
        obtain ⟨first, rest, rfl⟩ := List.exists_cons_of_ne_nil (List.ne_nil_of_mem hname)
        -- the order without its first function is shorter, and so is the depth that is left
        have hinner := ih horder.tail (Nat.lt_of_succ_lt_succ hdepth)
          (List.forall_mem_singleton.2 (mem_rest_of_instantiate horder hname hget hfree hbody)) ht
        rcases hend : outcome (expandAt depth body) t with ⟨error | result, u⟩
        · rw [outcome_mapM_of_fails hend] at hinner
          rw [outcome_mapM_of_fails (fails_expandAt_body hargs hf hbody hend)]
          exact .body hparts hf hbody hinner
        · rw [outcome_mapM_of_gives hend] at hinner
          rw [outcome_mapM_of_gives (gives_expandAt_replaced hargs hf hbody hend)]
          have hu : u.functions = table := (functions_expandAt hend).trans ht
          exact .replaced hparts hf hbody hinner (ihrest hes hu)

end Ending

/-- **Without recursive functions the recursion ends with what the expansion gives**, and in no
other way. -/
theorem expands_iff {v : Inliner} (hcycles : v.functions.checkCycles = .ok ()) {es : List Expr}
    {r : Except Error (List Expr)} {t : Inliner} :
    Expands v es r t ↔ outcome (es.mapM (expandAt (v.functions.length + 1))) v = (r, t) := by
  obtain ⟨order, horder, hall⟩ := FunctionTable.exists_ordered hcycles
  have hcalls : ∀ e ∈ es, ∀ n ∈ e.calls, v.functions.contains n = true → n ∈ order :=
    fun _ _ n _ => hall n
  have hends := expands_mapM_expandAt horder (Nat.lt_succ_of_le horder.length_le) hcalls rfl
  constructor
  · exact fun h => hends.unique h
  · intro h
    rwa [h] at hends

end Inliner

end EdgeScript
