import EdgeScript.Proofs.Folding.Again
import EdgeScript.Proofs.Inlining.Termination

/-!
# Expanding an expression without folding and with it

Two runs of the inliner are compared, one of which folds what it puts in the place of a call
(`Inliner.Paired`).  They fail alike, and their states differ in nothing but that.

What they make of an expression is the same once it is folded (`Inliner.paired_expand`).  While
calls are expanded, the two runs are at instances of one and the same function body, with arguments
that are expanded already and that are the same once they are folded (`Inliner.Settled`).  As
nothing is left to be expanded in the arguments, the two runs meet the same calls, although folding
may have removed some of what the arguments consist of.
-/

set_option autoImplicit false

namespace EdgeScript

open Pass

theorem map_eq_of_forall₂ {α β : Type} {f : α → β} {l l' : List α}
    (h : List.Forall₂ (fun a b => f a = f b) l l') : l.map f = l'.map f := by
  rwa [← List.forall₂_eq_eq_eq, List.forall₂_map_left_iff, List.forall₂_map_right_iff]

/-- Two results: the same error, or values that stand in a relation. -/
inductive Alike {α : Type} (R : α → α → Prop) : Except Error α → Except Error α → Prop
  | error {e : Error} : Alike R (.error e) (.error e)
  | ok {a b : α} (h : R a b) : Alike R (.ok a) (.ok b)

theorem Alike.refl {α : Type} {R : α → α → Prop} {r : Except Error α} (h : ∀ a, r = .ok a → R a a) :
    Alike R r r := by
  cases r with
  | error e => exact .error
  | ok a => exact .ok (h a rfl)

theorem Alike.bind {α β : Type} {R : α → α → Prop} {S : β → β → Prop} {x y : Except Error α}
    {f g : α → Except Error β} (h : Alike R x y) (hrest : ∀ {a b}, R a b → Alike S (f a) (g b)) :
    Alike S (x >>= f) (y >>= g) := by
  cases h with
  | error => exact .error
  | ok h => exact hrest h

namespace Inliner

/-- The same state of an inliner that folds. -/
def withFolding (s : Inliner) : Inliner := { s with folding := true }

@[simp]
theorem functions_withFolding (s : Inliner) : s.withFolding.functions = s.functions := rfl

/-! ## Two runs -/

/-- The first pass from a state and the second one from the same state with folding fail alike, or
give what `R` says; the states they end in differ only in folding, and a pass that does not fail
ends in a state as `I` says. -/
inductive Paired {α : Type} (I : Inliner → Prop) (s : Inliner) (x y : Pass Inliner α)
  (R : α → α → Prop) : Prop
  | fails {e : Error} {t : Inliner} (hx : Fails x s e t)
      (hy : Fails y s.withFolding e t.withFolding)
  | gives {a b : α} {t : Inliner} (hx : Gives x s a t) (hy : Gives y s.withFolding b t.withFolding)
      (h : R a b)
      (ht : I t)

namespace Paired

variable {α β : Type} {I J : Inliner → Prop} {s : Inliner} {x y : Pass Inliner α} {R : α → α → Prop}

theorem pure {a b : α} (h : R a b) (hs : I s) : Paired I s (pure a) (pure b) R :=
  .gives (gives_pure.2 ⟨rfl, rfl⟩) (gives_pure.2 ⟨rfl, rfl⟩) h hs

theorem lift {r r' : Except Error α} (h : Alike R r r') (hs : I s) :
    Paired I s (liftM r) (liftM r') R := by
  cases h with
  | error => exact .fails rfl rfl
  | ok h => exact .gives (gives_lift.2 ⟨rfl, rfl⟩) (gives_lift.2 ⟨rfl, rfl⟩) h hs

variable {S : β → β → Prop}

theorem bind {f g : α → Pass Inliner β} (h : Paired I s x y R)
    (hrest : ∀ {a b t}, R a b → I t → Paired J t (f a) (g b) S) :
    Paired J s (x >>= f) (y >>= g) S := by
  cases h with
  | fails hx hy => exact .fails (hx.bind f) (hy.bind g)
  | gives hx hy h ht =>
    cases hrest h ht with
    | fails hx' hy' => exact .fails (hx.bind_fails hx') (hy.bind_fails hy')
    | gives hx' hy' h' ht' =>
      exact .gives (gives_bind.2 ⟨_, _, hx, hx'⟩) (gives_bind.2 ⟨_, _, hy, hy'⟩) h' ht'

theorem get_bind {f g : Inliner → Pass Inliner β} (h : Paired I s (f s) (g s.withFolding) S) :
    Paired I s (get >>= f) (get >>= g) S := by
  cases h with
  | fails hx hy =>
    exact .fails (Gives.bind_fails (gives_get.2 ⟨rfl, rfl⟩) hx)
      (Gives.bind_fails (gives_get.2 ⟨rfl, rfl⟩) hy)
  | gives hx hy h ht => exact .gives (gives_get_bind.2 hx) (gives_get_bind.2 hy) h ht

theorem mono {R' : α → α → Prop} (h : Paired I s x y R) (hR : ∀ {a b}, R a b → R' a b) :
    Paired I s x y R' := by
  cases h with
  | fails hx hy => exact .fails hx hy
  | gives hx hy h ht => exact .gives hx hy (hR h) ht

theorem mapM {γ : Type} {f g : γ → Pass Inliner β} {l l' : List γ}
    (h : List.Forall₂ (fun a b => ∀ {s}, I s → Paired I s (f a) (g b) S) l l') (hs : I s) :
    Paired I s (l.mapM f) (l'.mapM g) (List.Forall₂ S) := by
  induction h generalizing s with
  | nil => exact .pure .nil hs
  | cons hhead _ ih =>
    rw [List.mapM_cons, List.mapM_cons]
    exact (hhead hs).bind fun hb ht => (ih ht).bind fun hbs hu => .pure (.cons hb hbs) hu

theorem optionMapM {γ : Type} {f g : γ → Pass Inliner β}
    (h : ∀ a {s}, I s → Paired I s (f a) (g a) S) (o : Option γ) (hs : I s) :
    Paired I s (o.mapM f) (o.mapM g) (Option.Rel S) := by
  cases o with
  | none => exact .pure .none hs
  | some a => exact (h a hs).bind fun hb ht => .pure (.some hb) ht

end Paired

/-! ## Arguments -/

/-- Nothing is left to be expanded in either expression, and folded they are the same. -/
structure Settled (table : FunctionTable) (e e' : Expr) : Prop where
  fold_eq : e.fold = e'.fold
  free : ∀ n ∈ e.calls, table.contains n = false
  free' : ∀ n ∈ e'.calls, table.contains n = false

section Call

variable {table : FunctionTable}

theorem settled_lit (value : Literal) (span : Span) :
    Settled table (.lit value span) (.lit value span) :=
  ⟨rfl, by simp, by simp⟩

/-- Parameters are bound alike. -/
theorem alike_bind (callee : String) (span : Span) {params : List Param} {args args' : List Expr}
    {bound bound' : List (String × Expr)} (hargs : List.Forall₂ (Settled table) args args')
    (hbound : List.Forall₂ (fun p q => p.1 = q.1 ∧ Settled table p.2 q.2) bound bound') :
    Alike (List.Forall₂ fun p q => p.1 = q.1 ∧ Settled table p.2 q.2)
      (bind callee span params args bound)
      (bind callee span params args' bound') := by
  induction params generalizing args args' bound bound' with
  | nil => exact .ok hbound
  | cons p params ih =>
    cases hargs with
    | cons harg hargs => exact ih hargs (.cons ⟨rfl, harg⟩ hbound)
    | nil =>
      rw [bind, bind]
      cases p.default? with
      | none => exact .error
      | some default => exact ih .nil (.cons ⟨rfl, settled_lit _ _⟩ hbound)

theorem rel_lookup {bound bound' : List (String × Expr)}
    (h : List.Forall₂ (fun p q => p.1 = q.1 ∧ Settled table p.2 q.2) bound bound') (name : String) :
    Option.Rel (Settled table) (bound.lookup name) (bound'.lookup name) := by
  induction h with
  | nil => exact .none
  | @cons p q _ _ hpq _ ih =>
    obtain ⟨hname, hvalue⟩ := hpq
    rw [List.lookup_cons, List.lookup_cons, ← hname]
    split
    · exact .some hvalue
    · exact ih

/-- A call is replaced by instances of the function's body, or refused, alike. -/
theorem alike_instantiate (f : InlineFunction) (callee : String) (span : Span)
    {args args' : List Expr} (hargs : List.Forall₂ (Settled table) args args') :
    Alike (fun body body' => ∃ b b', (∀ x, Option.Rel (Settled table) (b x) (b' x)) ∧
      body = f.body.subst b ∧ body' = f.body.subst b') (instantiate f callee args span)
        (instantiate f callee args' span) := by
  rw [instantiate, instantiate, ← hargs.length_eq]
  split
  · exact .error
  · exact (alike_bind callee span hargs .nil).bind fun hbound =>
      .ok ⟨_, _, rel_lookup hbound, rfl, rfl⟩

end Call

/-! ## Expressions -/

/-- Two instances of an expression: it is a variable that is bound, or they are the same node with
instances of its parts. -/
theorem subst_cases {R : Expr → Expr → Prop} {b b' : String → Option Expr}
    (hb : ∀ x, Option.Rel R (b x) (b' x)) (e : Expr) :
    R (e.subst b) (e.subst b') ∨ e.subst b = e.withParts (e.parts.map (Expr.subst b)) ∧
      e.subst b' = e.withParts (e.parts.map (Expr.subst b')) := by
  simp only [Expr.subst, Expr.bottomUp_eq _ e]
  cases e with
  | ident id =>
    have hid := hb id.name
    simp only [Expr.withParts, Expr.substNode]
    generalize b id.name = o, b' id.name = o' at hid ⊢
    cases hid with
    | some h => exact .inl h
    | none => exact .inr ⟨rfl, rfl⟩
  | _ => exact .inr ⟨rfl, rfl⟩

section Expand

variable {table : FunctionTable}

theorem Settled.withParts {e : Expr} {parts parts' : List Expr}
    (h : List.Forall₂ (Settled table) parts parts') (hlength : parts.length = e.parts.length)
    (hcallee : ∀ n ∈ e.callee?, table.get? n = none) :
    Settled table (e.withParts parts) (e.withParts parts') := by
  have hlength' : parts'.length = e.parts.length := by rw [← h.length_eq, hlength]
  have hfold : parts.map Expr.fold = parts'.map Expr.fold :=
    map_eq_of_forall₂ (h.imp fun _ _ hpart => hpart.fold_eq)
  have hself {n : String} (hn : n ∈ e.callee?.toList) : table.contains n = false := by
    rw [FunctionTable.contains, hcallee n (Option.mem_toList.1 hn), Option.isSome_none]
  refine ⟨?_, fun n hn => ?_, fun n hn => ?_⟩
  · rw [Expr.fold, Expr.fold, Expr.bottomUp_withParts hlength, Expr.bottomUp_withParts hlength']
    exact congrArg (fun parts => Expr.foldNode (e.withParts parts)) hfold
  · rw [Expr.calls_withParts hlength, List.mem_append, List.mem_flatMap] at hn
    rcases hn with hn | ⟨p, hp, hn⟩
    · exact hself hn
    · obtain ⟨q, -, hpq⟩ := Expr.exists_mem_of_forall₂ h.flip hp
      exact hpq.free n hn
  · rw [Expr.calls_withParts hlength', List.mem_append, List.mem_flatMap] at hn
    rcases hn with hn | ⟨p, hp, hn⟩
    · exact hself hn
    · obtain ⟨q, -, hpq⟩ := Expr.exists_mem_of_forall₂ h hp
      exact hpq.free' n hn

/-- The inliner has these functions and does not fold. -/
def Plain (table : FunctionTable) (s : Inliner) : Prop :=
  s.functions = table ∧ s.folding = false

/-- What is put in the place of a call is the same once it is folded, whether it has been folded or
not. -/
theorem Settled.finished {e e' : Expr} (h : Settled table e e') {s : Inliner}
    (hs : s.folding = false) : Settled table (s.finished e) (s.withFolding.finished e') := by
  have hplain : s.finished e = e := by simp [Inliner.finished, hs]
  have hfolded : s.withFolding.finished e' = e'.fold := rfl
  rw [hplain, hfolded]
  exact ⟨by rw [Expr.fold_fold, h.fold_eq], h.free, fun n hn => h.free' n (e'.calls_fold n hn)⟩

/-- A call is replaced or refused alike, if the arguments are expanded alike and instances of the
function's body are. -/
theorem paired_call {depth : Nat} {callee : Ident} {args args' new new' : List Expr} {span : Span}
    {f : InlineFunction} {s t : Inliner} (hx : Gives (args.mapM (expandAt (depth + 1))) s new t)
    (hy : Gives (args'.mapM (expandAt (depth + 1))) s.withFolding new' t.withFolding)
    (hnew : List.Forall₂ (Settled table) new new') (ht : Plain table t)
    (hf : table.get? callee.name = some f)
    (hinner : ∀ {b b'}, (∀ x, Option.Rel (Settled table) (b x) (b' x)) →
      Paired (Plain table) t (expandAt depth (f.body.subst b)) (expandAt depth (f.body.subst b'))
      (Settled table)) :
    Paired (Plain table) s (expandAt (depth + 1) (.call callee args span))
      (expandAt (depth + 1) (.call callee args' span)) (Settled table) := by
  rw [← ht.1] at hf
  have hbody := alike_instantiate f callee.name span hnew
  generalize hr : instantiate f callee.name new span = r,
    hr' : instantiate f callee.name new' span = r' at hbody
  cases hbody with
  | error => exact .fails (fails_expandAt_refused hx hf hr) (fails_expandAt_refused hy hf hr')
  | ok hbody =>
    obtain ⟨b, b', hb, rfl, rfl⟩ := hbody
    cases hinner hb with
    | fails hx' hy' =>
      exact .fails (fails_expandAt_body hx hf hr hx') (fails_expandAt_body hy hf hr' hy')
    | gives hx' hy' h hu =>
      exact .gives (gives_expandAt_replaced hx hf hr hx') (gives_expandAt_replaced hy hf hr' hy')
        (h.finished hu.2) hu

/-- **Instances of one expression are expanded alike**, if the variables of the two are bound to
expressions that are the same once they are folded. -/
theorem paired_expandAt {order : List String} {depth : Nat} (horder : table.Ordered order)
    (hdepth : order.length < depth) {k : Expr}
    (hcalls : ∀ n ∈ k.calls, table.contains n = true → n ∈ order) {b b' : String → Option Expr}
    (hb : ∀ x, Option.Rel (Settled table) (b x) (b' x)) {s : Inliner} (hs : Plain table s) :
    Paired (Plain table) s (expandAt depth (k.subst b)) (expandAt depth (k.subst b'))
      (Settled table) := by
  induction depth generalizing order k b b' s with
  | zero => exact absurd hdepth (Nat.not_lt_zero _)
  | succ depth ih =>
    induction k using Expr.induction_parts generalizing s with
    | node k ihparts =>
      rcases subst_cases hb k with hsettled | ⟨hk, hk'⟩
      · refine .gives (gives_expandAt_of_free _ ?_) (gives_expandAt_of_free _ ?_) hsettled hs
        · rw [hs.1]
          exact hsettled.free
        · rw [functions_withFolding, hs.1]
          exact hsettled.free'
      have hlength : (k.parts.map (Expr.subst b)).length = k.parts.length := List.length_map _
      have hlength' : (k.parts.map (Expr.subst b')).length = k.parts.length := List.length_map _
      have hparts : Paired (Plain table) s ((k.subst b).parts.mapM (expandAt (depth + 1)))
          ((k.subst b').parts.mapM (expandAt (depth + 1))) (List.Forall₂ (Settled table)) := by
        rw [hk, hk', Expr.parts_withParts hlength, Expr.parts_withParts hlength']
        refine .mapM ?_ hs
        rw [List.forall₂_map_left_iff, List.forall₂_map_right_iff, List.forall₂_same]
        exact fun p hp t ht => ihparts p hp
          (fun n hn => hcalls n (Expr.mem_calls_of_mem_parts hp hn)) ht
      cases hparts with
      | fails hx hy => exact .fails (fails_expandAt_part hx) (fails_expandAt_part hy)
      | @gives parts parts' t hx hy h ht =>
        have hold : parts.length = k.parts.length := by
          rw [length_of_gives_mapM hx, hk, Expr.parts_withParts hlength, hlength]
        rcases Expr.callee_cases table k with hcallee | ⟨callee, args, span, f, rfl, hf⟩
        · have hkept := gives_expandAt_kept hx (by rwa [hk, Expr.callee?_withParts, ht.1])
          have hkept' := gives_expandAt_kept hy
            (by rwa [hk', Expr.callee?_withParts, functions_withFolding, ht.1])
          rw [hk, Expr.withParts_withParts hlength hold, ← hk] at hkept
          rw [hk', Expr.withParts_withParts hlength' (h.length_eq ▸ hold), ← hk'] at hkept'
          exact .gives hkept hkept' (.withParts h hold hcallee) ht
        · have hname : callee.name ∈ order := hcalls _ (by simp) (FunctionTable.contains_of_get? hf)
          obtain ⟨first, rest, rfl⟩ := List.exists_cons_of_ne_nil (List.ne_nil_of_mem hname)
          have hbody : ∀ n ∈ f.body.calls, table.contains n = true → n ∈ rest := fun n hn hinline =>
            horder.callees_mem hname hf n (List.mem_filter.2 ⟨hn, hinline⟩)
          rw [hk] at hx
          rw [hk'] at hy
          rw [hk, hk']
          exact paired_call hx hy h ht hf fun hb =>
            ih horder.tail (Nat.lt_of_succ_lt_succ hdepth) hbody hb ht

/-- **Without recursive functions, every expression is expanded alike.** -/
theorem paired_expand (hcycles : table.checkCycles = .ok ()) (e : Expr) {s : Inliner}
    (hs : Plain table s) : Paired (Plain table) s (expand e) (expand e) (Settled table) := by
  obtain ⟨order, horder, hall⟩ := FunctionTable.exists_ordered hcycles
  have hdepth : order.length < s.functions.length + 1 := by
    rw [hs.1]
    exact Nat.lt_succ_of_le horder.length_le
  have hself : e.subst (fun _ => none) = e := Expr.bottomUp_eq_self fun x _ => by cases x <;> rfl
  have hpaired := paired_expandAt horder hdepth (fun n _ => hall n) (fun _ => .none) (k := e) hs
  rw [hself] at hpaired
  exact .get_bind hpaired

end Expand

end Inliner

end EdgeScript
