import EdgeScript.Stmt

/-!
# Where statements stand

A statement stands in a script directly or in the body of another statement, at any depth.
`Stmt.Occurs` is this relation, together with the way that leads to the statement: whose bodies it
is in, from the outermost one to the innermost.  So "outside of functions" is a condition on the
way, and so is "in the body of a branch that binds a name".

`Stmt.Everywhere` is what holds of all statements of a script and of the ways to them; it is shown
one statement at a time (`Stmt.everywhere_cons`), and for a single statement by what is directly in
it (`Stmt.everywhere_singleton`).
-/

set_option autoImplicit false

namespace EdgeScript

/-- What a sequence of statements is to the statement it belongs to. -/
inductive BodyKind where
  | function
  | branch (cond : Expr)
  /-- What is done otherwise, the body of a loop or a block, and the two bodies of an attempt. -/
  | other
deriving Repr

namespace Stmt

/-- The expressions that stand directly in a statement. -/
def exprs : Stmt → List Expr
  | .atom a => a.exprs
  | .ifChain branches _ _ => branches.map Branch.cond
  | .forLoop _ collection _ _ => [collection]
  | .function .. | .breakLoop _ | .attempt .. | .require .. | .block .. => []

/-- The sequences of statements that stand directly in a statement. -/
def bodies : Stmt → List (BodyKind × List Stmt)
  | .function _ _ _ body _ => [(.function, body)]
  | .ifChain branches otherwise _ =>
    branches.map (fun b => (.branch b.cond, b.body)) ++ otherwise.toList.map (.other, ·)
  | .forLoop _ _ body _ => [(.other, body)]
  | .attempt body handler _ => (.other, body) :: handler.toList.map (.other, ·)
  | .block body _ => [(.other, body)]
  | .atom _ | .breakLoop _ | .require .. => []

/-- The statement stands in the script, and `way` leads to it. -/
inductive Occurs : List Stmt → List BodyKind → Stmt → Prop
  | here {stmts : List Stmt} {s : Stmt} (hs : s ∈ stmts) : Occurs stmts [] s
  | inside {stmts body : List Stmt} {s t : Stmt} {kind : BodyKind} {way : List BodyKind}
      (hs : s ∈ stmts) (hbody : (kind, body) ∈ s.bodies) (ht : Occurs body way t) :
      Occurs stmts (kind :: way) t

theorem Occurs.mono {stmts stmts' : List Stmt} {way : List BodyKind} {t : Stmt}
    (h : Occurs stmts way t) (hsub : stmts ⊆ stmts') : Occurs stmts' way t := by
  cases h with
  | here hs => exact .here (hsub hs)
  | inside hs hbody ht => exact .inside (hsub hs) hbody ht

/-- All statements of a script, with the ways to them, are as `P` says. -/
def Everywhere (P : List BodyKind → Stmt → Prop) (stmts : List Stmt) : Prop :=
  ∀ way t, Occurs stmts way t → P way t

section Everywhere

variable {P : List BodyKind → Stmt → Prop}

theorem everywhere_nil : Everywhere P [] := by
  intro way t h
  cases h with
  | here hs => simp at hs
  | inside hs => simp at hs

/-- What holds everywhere in a script holds everywhere in its parts. -/
theorem everywhere_append {first second : List Stmt} :
    Everywhere P (first ++ second) ↔ Everywhere P first ∧ Everywhere P second := by
  constructor
  · intro h
    exact ⟨fun way t ht => h way t (ht.mono (by simp)), fun way t ht => h way t (ht.mono (by simp))⟩
  · rintro ⟨hfirst, hsecond⟩ way t ht
    cases ht with
    | here hs =>
      rcases List.mem_append.1 hs with hs | hs
      · exact hfirst _ _ (.here hs)
      · exact hsecond _ _ (.here hs)
    | inside hs hbody ht =>
      rcases List.mem_append.1 hs with hs | hs
      · exact hfirst _ _ (.inside hs hbody ht)
      · exact hsecond _ _ (.inside hs hbody ht)

theorem everywhere_cons {s : Stmt} {rest : List Stmt} :
    Everywhere P (s :: rest) ↔ Everywhere P [s] ∧ Everywhere P rest := by
  rw [← List.singleton_append, everywhere_append]

/-- Everywhere in a statement is at the statement itself and everywhere in its bodies. -/
theorem everywhere_singleton {s : Stmt} :
    Everywhere P [s] ↔ P [] s ∧ ∀ b ∈ s.bodies, Everywhere (fun way => P (b.1 :: way)) b.2 := by
  constructor
  · intro h
    have hs : s ∈ [s] := by simp
    exact ⟨h [] s (.here hs), fun b hb way t ht => h _ t (.inside hs hb ht)⟩
  · rintro ⟨hself, hbodies⟩ way t ht
    cases ht with
    | here hs =>
      obtain rfl := List.mem_singleton.1 hs
      exact hself
    | inside hs hbody ht =>
      obtain rfl := List.mem_singleton.1 hs
      exact hbodies _ hbody _ t ht

end Everywhere

end Stmt

end EdgeScript
