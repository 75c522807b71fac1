import EdgeScript.Expr.Fold
import EdgeScript.Proofs.Inlining.Expand

/-!
# Folded expressions

An expression is folded if none of its nodes has a value that is known at compile time.  Folding
leads to such an expression (`Expr.isFolded_fold`) and leaves one as it is (`Expr.fold_eq_self`),
because a node whose value is known is replaced by a literal and every other node is kept with its
parts folded.
-/

set_option autoImplicit false

namespace EdgeScript.Expr

/-- Nothing is left to be computed in the expression. -/
def IsFolded (e : Expr) : Prop := ∀ x ∈ e.subterms, x.value? = none

/-- What holds of all nodes of the parts and of the node itself holds of all nodes. -/
theorem Rebuilt.forall_subterms {P : Expr → Prop} {e e' : Expr}
    (h : Rebuilt (fun _ new => ∀ x ∈ new.subterms, P x) e e') (hself : P e') :
    ∀ x ∈ e'.subterms, P x := by
  have hlist {old new : List Expr}
      (hnew : List.Forall₂ (fun _ new => ∀ x ∈ new.subterms, P x) old new) :
      ∀ part ∈ new, ∀ x ∈ part.subterms, P x := fun part hpart => by
    obtain ⟨_, -, hall⟩ := exists_mem_of_forall₂ hnew hpart
    exact hall
  cases h with
  | lit | ident => simpa [subterms] using hself
  | binary hleft hright | test hleft hright | index hleft hright | range hleft hright =>
    rw [subterms, List.forall_mem_cons, List.forall_mem_append]
    exact ⟨hself, hleft, hright⟩
  | unary hoperand =>
    rw [subterms, List.forall_mem_cons]
    exact ⟨hself, hoperand⟩
  | call hargs | array hargs =>
    rw [subterms, List.forall_mem_cons, subtermsAll_eq_flatMap, List.forall_mem_flatMap]
    exact ⟨hself, hlist hargs⟩
  | dict hentries =>
    rw [subterms, List.forall_mem_cons, subtermsEntries_eq_flatMap, List.forall_mem_flatMap]
    refine ⟨hself, fun entry hentry => ?_⟩
    obtain ⟨_, -, hkey, hvalue⟩ := exists_mem_of_forall₂ hentries hentry
    exact List.forall_mem_append.2 ⟨hkey, hvalue⟩

/-- In what has been folded nothing is left to be computed. -/
theorem isFolded_fold (e : Expr) : e.fold.IsFolded := by
  refine rel_bottomUp (R := fun _ new => new.IsFolded) (fun {e e'} h => ?_) e
  rw [foldNode]
  split
  · intro x hx
    rw [subterms, List.mem_singleton] at hx
    rw [hx]
    rfl
  · rename_i hvalue
    exact h.forall_subterms hvalue

section Same

variable {f : Expr → Expr}

mutual

/-- Rebuilding changes nothing if it changes no node. -/
theorem bottomUp_eq_self : ∀ {e : Expr}, (∀ x ∈ e.subterms, f x = x) → bottomUp f e = e
  | .lit .., h | .ident .., h => h _ (by simp [subterms])
  | .binary op left right span, h => by
    rw [subterms, List.forall_mem_cons, List.forall_mem_append] at h
    rw [bottomUp, bottomUp_eq_self h.2.1, bottomUp_eq_self h.2.2, h.1]
  | .unary op operand span, h => by
    rw [subterms, List.forall_mem_cons] at h
    rw [bottomUp, bottomUp_eq_self h.2, h.1]
  | .test op subject pattern capture span, h => by
    rw [subterms, List.forall_mem_cons, List.forall_mem_append] at h
    rw [bottomUp, bottomUp_eq_self h.2.1, bottomUp_eq_self h.2.2, h.1]
  | .call callee args span, h => by
    rw [subterms, List.forall_mem_cons] at h
    rw [bottomUp, bottomUpAll_eq_self h.2, h.1]
  | .index target key span, h => by
    rw [subterms, List.forall_mem_cons, List.forall_mem_append] at h
    rw [bottomUp, bottomUp_eq_self h.2.1, bottomUp_eq_self h.2.2, h.1]
  | .range first last span, h => by
    rw [subterms, List.forall_mem_cons, List.forall_mem_append] at h
    rw [bottomUp, bottomUp_eq_self h.2.1, bottomUp_eq_self h.2.2, h.1]
  | .array elements span, h => by
    rw [subterms, List.forall_mem_cons] at h
    rw [bottomUp, bottomUpAll_eq_self h.2, h.1]
  | .dict entries span, h => by
    rw [subterms, List.forall_mem_cons] at h
    rw [bottomUp, bottomUpEntries_eq_self h.2, h.1]

theorem bottomUpAll_eq_self :
    ∀ {es : List Expr}, (∀ x ∈ subtermsAll es, f x = x) → bottomUpAll f es = es
  | [], _ => by rw [bottomUpAll]
  | e :: es, h => by
    rw [subtermsAll, List.forall_mem_append] at h
    rw [bottomUpAll, bottomUp_eq_self h.1, bottomUpAll_eq_self h.2]

theorem bottomUpEntries_eq_self : ∀ {entries : List (Expr × Expr)},
    (∀ x ∈ subtermsEntries entries, f x = x) → bottomUpEntries f entries = entries
  | [], _ => by rw [bottomUpEntries]
  | (key, value) :: entries, h => by
    rw [subtermsEntries, List.forall_mem_append, List.forall_mem_append] at h
    rw [bottomUpEntries, bottomUp_eq_self h.1.1, bottomUp_eq_self h.1.2,
      bottomUpEntries_eq_self h.2]

end

end Same

/-- Folding leaves what is folded. -/
theorem fold_eq_self {e : Expr} (h : e.IsFolded) : e.fold = e :=
  bottomUp_eq_self fun x hx => by rw [foldNode, h x hx]

end EdgeScript.Expr
