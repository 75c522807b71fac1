import EdgeScript.Expr.Fold
import EdgeScript.Expr.Subst
import EdgeScript.Proofs.Rebuild

/-!
# What expressions mean

The compiler does not know what the processor of the markup computes: its operators on values that
are not literals, its functions and its matches are open.  An `Interp` is one way to fill them in,
over a type of values of its own, and `Interp.eval` is the value of an expression under it.
Expressions have no effects, so the value depends on the variables alone.

What the compiler may rely on is `Interp.Lawful`: operators on literals come out as `Literal.unary?`
and `Literal.binary?` compute them where these compute anything, searches for a part of a text are
decided as `Expr.found?` does, and numbers and truth values count in conditions as `Literal.truth?`
says.

## Main statements

* `Interp.Lawful.eval_fold`: folding keeps the value of every expression.
* `Interp.eval_subst`: an expression with names replaced has the value of the original one in the
  variables that hold the values of the replacements.
-/

set_option autoImplicit false

namespace EdgeScript

/-- A way to compute with values. -/
structure Interp (V : Type) where
  lit : Literal → V
  unary : UnOp → V → V
  /-- The operators other than `&&` and `||`, which are not up to an interpretation. -/
  binary : BinOp → V → V → V
  test : MatchOp → Option String → V → V → V
  call : String → List V → V
  index : V → V → V
  range : V → V → V
  array : List V → V
  dict : List (V × V) → V
  /-- What a value counts as in a condition. -/
  truth : V → Bool
  /-- What a loop over a value runs through. -/
  elements : V → List V
  /-- What a variable holds that is declared without a value. -/
  unset : V
  /-- A container with the value of a key replaced. -/
  update : V → V → V → V

namespace Interp

variable {V : Type} (I : Interp V)

/-- A binary operator; the right operand of `&&` and `||` counts only if the left one does not
decide, and both give a truth value. -/
def combine : BinOp → V → V → V
  | .and, l, r => I.lit (.bool (I.truth l && I.truth r))
  | .or, l, r => I.lit (.bool (I.truth l || I.truth r))
  | op, l, r => I.binary op l r

mutual

/-- The value of an expression, given the values of variables. -/
def eval (ρ : String → V) : Expr → V
  | .lit value _ => I.lit value
  | .ident id => ρ id.name
  | .binary op left right _ => I.combine op (eval ρ left) (eval ρ right)
  | .unary op operand _ => I.unary op (eval ρ operand)
  | .test op subject pattern capture _ =>
    I.test op (capture.map Ident.name) (eval ρ subject) (eval ρ pattern)
  | .call callee args _ => I.call callee.name (evalAll ρ args)
  | .index target key _ => I.index (eval ρ target) (eval ρ key)
  | .range first last _ => I.range (eval ρ first) (eval ρ last)
  | .array elements _ => I.array (evalAll ρ elements)
  | .dict entries _ => I.dict (evalEntries ρ entries)

/-- The values of the expressions of a list. -/
def evalAll (ρ : String → V) : List Expr → List V
  | [] => []
  | e :: es => eval ρ e :: evalAll ρ es

/-- The values of keys and values. -/
def evalEntries (ρ : String → V) : List (Expr × Expr) → List (V × V)
  | [] => []
  | (key, value) :: entries => (eval ρ key, eval ρ value) :: evalEntries ρ entries

end

/-! ## Rebuilding a tree -/

section Rebuilt

variable {I} {ρ ρ' : String → V}

theorem evalAll_of_forall₂ {es es' : List Expr}
    (h : List.Forall₂ (fun e e' => I.eval ρ e' = I.eval ρ' e) es es') :
    I.evalAll ρ es' = I.evalAll ρ' es := by
  induction h with
  | nil => rfl
  | cons he _ ih => rw [evalAll, evalAll, he, ih]

theorem evalEntries_of_forall₂ {entries entries' : List (Expr × Expr)}
    (h : List.Forall₂
      (fun old new => I.eval ρ new.1 = I.eval ρ' old.1 ∧ I.eval ρ new.2 = I.eval ρ' old.2)
      entries entries') :
    I.evalEntries ρ entries' = I.evalEntries ρ' entries := by
  induction h with
  | nil => rfl
  | cons he _ ih => rw [evalEntries, evalEntries, he.1, he.2, ih]

/-- The value of a node depends on the values of its parts. -/
theorem eval_of_rebuilt {e e' : Expr} (h : e.Rebuilt (fun e e' => I.eval ρ e' = I.eval ρ' e) e')
    (hid : ∀ id, e = .ident id → ρ id.name = ρ' id.name) : I.eval ρ e' = I.eval ρ' e := by
  cases h with
  | lit => rw [eval, eval]
  | ident => rw [eval, eval, hid _ rfl]
  | binary hleft hright => rw [eval, eval, hleft, hright]
  | unary h => rw [eval, eval, h]
  | test hsubject hpattern => rw [eval, eval, hsubject, hpattern]
  | call h => rw [eval, eval, evalAll_of_forall₂ h]
  | index htarget hkey => rw [eval, eval, htarget, hkey]
  | range hfirst hlast => rw [eval, eval, hfirst, hlast]
  | array h => rw [eval, eval, evalAll_of_forall₂ h]
  | dict h => rw [eval, eval, evalEntries_of_forall₂ h]

/-- A tree that is rebuilt node by node has the value that the old tree has in other variables, if
the new leaves have the values of these and no other node changes its value. -/
theorem eval_bottomUp {f : Expr → Expr} (hid : ∀ id, I.eval ρ (f (.ident id)) = ρ' id.name)
    (hf : ∀ e, (∀ id, e ≠ .ident id) → I.eval ρ (f e) = I.eval ρ e) (e : Expr) :
    I.eval ρ (e.bottomUp f) = I.eval ρ' e := by
  refine Expr.rel_bottomUp (R := fun e e' => I.eval ρ e' = I.eval ρ' e) (fun {e e'} h => ?_) e
  by_cases he : ∃ id, e = .ident id
  · obtain ⟨id, rfl⟩ := he
    cases h
    rw [hid, eval]
  · have he' : ∀ id, e' ≠ .ident id := by
      rintro id rfl
      cases h
      exact he ⟨id, rfl⟩
    rw [hf e' he', eval_of_rebuilt h fun id hid => absurd ⟨id, hid⟩ he]

end Rebuilt

/-- The variables with some of them given the values of expressions. -/
def bind (ρ : String → V) (bound : String → Option Expr) : String → V :=
  fun x => ((bound x).map (I.eval ρ)).getD (ρ x)

theorem eval_subst (ρ : String → V) (bound : String → Option Expr) (e : Expr) :
    I.eval ρ (e.subst bound) = I.eval (I.bind ρ bound) e := by
  refine eval_bottomUp (fun id => ?_) (fun e he => ?_) e
  · rw [Expr.substNode, bind]
    cases bound id.name with
    | none => rw [Option.getD_none, Option.map_none, Option.getD_none, eval]
    | some e => rfl
  · cases e with
    | ident id => exact absurd rfl (he id)
    | _ => rfl

/-! ## Folding -/

/-- What the compiler relies on: where it computes with literals, the processor computes the
same. -/
structure Lawful : Prop where
  unary_lit {op : UnOp} {v r : Literal} :
    Literal.unary? op v = some r → I.unary op (I.lit v) = I.lit r
  binary_lit {op : BinOp} {l r v : Literal} :
    Literal.binary? op l r = some v → I.binary op (I.lit l) (I.lit r) = I.lit v
  test_lit {op : MatchOp} {capture : Option String} {s part : String} {b : Bool} :
    Expr.found? op s part = some b →
      I.test op capture (I.lit (.str s)) (I.lit (.str part)) = I.lit (.bool b)
  truth_lit {v : Literal} {b : Bool} : v.truth? = some b → I.truth (I.lit v) = b

namespace Lawful

variable {I} (hI : I.Lawful) (ρ : String → V)

include hI

theorem truth_of_truth? {e : Expr} {b : Bool} (h : e.truth? = some b) :
    I.truth (I.eval ρ e) = b := by
  rw [Expr.truth?] at h
  obtain ⟨v, hv, hb⟩ := Option.bind_eq_some_iff.1 h
  cases e <;> simp only [Expr.literal?, reduceCtorEq, Option.some.injEq] at hv
  subst hv
  rw [eval]
  exact hI.truth_lit hb

/-- A node whose value is known has that value. -/
theorem eval_of_value? {e : Expr} {v : Literal} (h : e.value? = some v) :
    I.eval ρ e = I.lit v := by
  unfold Expr.value? at h
  split at h
  next left right _ =>
    rw [eval, combine]
    split at h
    next hl =>
      obtain ⟨b, hr, rfl⟩ := Option.map_eq_some_iff.1 h
      rw [hI.truth_of_truth? ρ hl, hI.truth_of_truth? ρ hr, Bool.true_and]
    next hl =>
      cases h
      rw [hI.truth_of_truth? ρ hl, Bool.false_and]
    next => cases h
  next left right _ =>
    rw [eval, combine]
    split at h
    next hl =>
      cases h
      rw [hI.truth_of_truth? ρ hl, Bool.true_or]
    next hl =>
      obtain ⟨b, hr, rfl⟩ := Option.map_eq_some_iff.1 h
      rw [hI.truth_of_truth? ρ hl, hI.truth_of_truth? ρ hr, Bool.false_or]
    next => cases h
  next op l _ r _ _ hand hor =>
    rw [eval, eval, eval, combine]
    · exact hI.binary_lit h
    · exact hand
    · exact hor
  next op v _ _ =>
    rw [eval, eval]
    exact hI.unary_lit h
  next op s _ part _ _ _ =>
    obtain ⟨b, hb, rfl⟩ := Option.map_eq_some_iff.1 h
    rw [eval, eval, eval]
    exact hI.test_lit hb
  next => cases h

theorem eval_foldNode (e : Expr) : I.eval ρ e.foldNode = I.eval ρ e := by
  rw [Expr.foldNode]
  cases h : e.value? with
  | none => rfl
  | some v =>
    rw [hI.eval_of_value? ρ h]
    exact eval.eq_1 ..

/-- **Folding keeps the value of every expression.** -/
theorem eval_fold (e : Expr) : I.eval ρ e.fold = I.eval ρ e :=
  eval_bottomUp (fun id => hI.eval_foldNode ρ (.ident id)) (fun e _ => hI.eval_foldNode ρ e) e

end Lawful

end Interp

end EdgeScript
