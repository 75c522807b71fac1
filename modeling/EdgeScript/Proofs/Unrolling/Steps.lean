import EdgeScript.Proofs.Pass
import EdgeScript.Loop.Unroll

/-!
# What unrolling does, step by step

The functions of the unroller, taken apart once: for each form of statement, what a run that
succeeds has done (`gives_unrollStmt_block` and its kin).  Proofs about unrolling use these and
never open the functions.

A loop is the one form with a recursion of its own.  `Rounds` describes its first copies and
`Copies` the copies from some element on, without the bound that `Unroller.copies` counts down:

* `copies_of_gives`: the bound never ends a loop early.  Every copy counts against it, so a loop
  that would need more fails instead.
* `outcome_copies_of_rounds`: after its first copies a loop goes on as `Unroller.copies` from the
  next element.
-/

set_option autoImplicit false

namespace EdgeScript

namespace Unroller

open Pass

/-! ## Counting -/

/-- A state that an unroller can come to: the bound stays, and no copy and no note is forgotten. -/
structure Later (s s' : Unroller) : Prop where
  bound : s'.maxIterations = s.maxIterations
  count : s.iterations ≤ s'.iterations
  notes : ∀ n ∈ s.notes, n ∈ s'.notes

theorem Later.refl (s : Unroller) : Later s s := ⟨rfl, Nat.le_refl _, fun _ => id⟩

theorem Later.trans {s t u : Unroller} (h : Later s t) (h' : Later t u) : Later s u :=
  ⟨h'.bound.trans h.bound, Nat.le_trans h.count h'.count, fun n hn => h'.notes n (h.notes n hn)⟩

theorem Later.of_note (s : Unroller) (n : Note) : Later s { s with notes := s.notes.push n } :=
  ⟨rfl, Nat.le_refl _, fun _ => Array.mem_push_of_mem n⟩

@[simp]
theorem gives_note {n : Note} {s s' : Unroller} {u : Unit} :
    Gives (note n) s u s' ↔ s' = { s with notes := s.notes.push n } := by
  rw [note, gives_modify]

/-- A round may be counted below the limit only. -/
theorem gives_countIteration {var : String} {span : Span} {s s' : Unroller} {u : Unit} :
    Gives (countIteration var span) s u s' ↔
      s.iterations < s.maxIterations ∧ s' = { s with iterations := s.iterations + 1 } := by
  rw [countIteration, gives_get_bind]
  by_cases h : s.maxIterations ≤ s.iterations
  · simp only [if_pos h, gives_bind, not_gives_throw, false_and, exists_false, false_iff]
    omega
  · simp only [if_neg h, gives_set, true_and, Nat.lt_of_not_le h]

/-- Counting a round makes a later state. -/
theorem Later.of_countIteration {var : String} {span : Span} {s s' : Unroller} {u : Unit}
    (h : Gives (countIteration var span) s u s') : Later s s' := by
  obtain ⟨-, rfl⟩ := gives_countIteration.1 h
  exact ⟨rfl, Nat.le_succ _, fun _ => id⟩

/-- The unroller of the bodies of loops only goes forward. -/
def Inner.Forward (inner : Inner) : Prop :=
  ∀ {known stmts s out s'}, Gives (inner known stmts) s out s' → Later s s'

variable {inner : Inner} {known : Known} {s s' : Unroller}

/-! ## The copies of a loop -/

/-- A round is a folded copy of the body, with its inner loops unrolled, up to the first `break`. -/
theorem gives_round {var : String} {element : Expr} {body : List Stmt} {r : List Stmt × Bool} :
    Gives (round inner known var element body) s r s' ↔
      ∃ raw, Gives (inner known (Stmt.foldAll (Stmt.substAll var element body))) s raw s' ∧
        Stmt.cutAtBreak raw = .ok r := by
  rw [round, gives_bind]
  constructor
  · rintro ⟨raw, t, hraw, h⟩
    obtain ⟨hcut, rfl⟩ := gives_lift.1 h
    exact ⟨raw, hraw, hcut⟩
  · rintro ⟨raw, hraw, hcut⟩
    exact ⟨raw, s', hraw, gives_lift.2 ⟨hcut, rfl⟩⟩

/-- The first copies of a loop's body, none of which meets a `break`. -/
inductive Rounds (inner : Inner) (known : Known) (task : Task) (s : Unroller) :
    Nat → List Stmt → Unroller → Prop
  | zero : Rounds inner known task s 0 [] s
  | succ {i : Nat} {out copy : List Stmt} {e : Literal} {t t' t'' : Unroller}
      (h : Rounds inner known task s i out t) (he : task.collection.element? i = some e)
      (hcount : Gives (countIteration task.var task.span) t () t')
      (hround : Gives (round inner known task.var (.lit e task.place) task.body) t'
        (copy, false) t'') :
      Rounds inner known task s (i + 1) (out ++ copy) t''

/-- The copies of a loop's body from element number `i` on, up to one that meets a `break`. -/
inductive Copies (inner : Inner) (known : Known) (task : Task) :
    Nat → Unroller → List Stmt → Unroller → Prop
  | done {i : Nat} {s : Unroller} (he : task.collection.element? i = none) :
      Copies inner known task i s [] s
  | last {i : Nat} {s t t' : Unroller} {e : Literal} {copy : List Stmt}
      (he : task.collection.element? i = some e)
      (hcount : Gives (countIteration task.var task.span) s () t)
      (hround : Gives (round inner known task.var (.lit e task.place) task.body) t
        (copy, true) t') :
      Copies inner known task i s copy
        { t' with notes := t'.notes.push (.loopBroken task.var (i + 1)) }
  | more {i : Nat} {s t t' s' : Unroller} {e : Literal} {copy rest : List Stmt}
      (he : task.collection.element? i = some e)
      (hcount : Gives (countIteration task.var task.span) s () t)
      (hround : Gives (round inner known task.var (.lit e task.place) task.body) t
        (copy, false) t')
      (h : Copies inner known task (i + 1) t' rest s') :
      Copies inner known task i s (copy ++ rest) s'

theorem Later.of_round (hinner : inner.Forward) {var : String} {element : Expr} {body : List Stmt}
    {r : List Stmt × Bool} (h : Gives (round inner known var element body) s r s') :
    Later s s' := by
  obtain ⟨raw, hraw, -⟩ := gives_round.1 h
  exact hinner hraw

/-- Rounds make later states, one after the other. -/
theorem Copies.later (hinner : inner.Forward) {task : Task} {i : Nat} {out : List Stmt}
    (h : Copies inner known task i s out s') : Later s s' := by
  induction h with
  | done _ => exact Later.refl _
  | last _ hcount hround =>
    exact ((Later.of_countIteration hcount).trans (Later.of_round hinner hround)).trans
      (Later.of_note _ _)
  | more _ hcount hround _ ih =>
    exact ((Later.of_countIteration hcount).trans (Later.of_round hinner hround)).trans ih

theorem Rounds.later (hinner : inner.Forward) {task : Task} {i : Nat} {out : List Stmt}
    {t : Unroller} (h : Rounds inner known task s i out t) : Later s t := by
  induction h with
  | zero => exact Later.refl s
  | succ _ _ hcount hround ih =>
    exact ih.trans ((Later.of_countIteration hcount).trans (Later.of_round hinner hround))

/-- Each copy counts. -/
theorem Rounds.count (hinner : inner.Forward) {task : Task} {i : Nat} {out : List Stmt}
    {t : Unroller} (h : Rounds inner known task s i out t) : s.iterations + i ≤ t.iterations := by
  induction h with
  | zero => exact Nat.le_refl _
  | @succ i _ _ _ t t' t'' _ _ hcount hround ih =>
    obtain ⟨-, rfl⟩ := gives_countIteration.1 hcount
    have hcopy : t.iterations + 1 ≤ t''.iterations := (Later.of_round hinner hround).count
    omega

/-- As many copies as have been made are no more than the bound allows. -/
theorem Rounds.room (hinner : inner.Forward) {task : Task} {i : Nat} {out : List Stmt}
    {t : Unroller} (h : Rounds inner known task s i out t) :
    i ≤ s.maxIterations - s.iterations := by
  cases h with
  | zero => exact Nat.zero_le _
  | succ h _ hcount _ =>
    have h1 := h.count hinner
    have h2 := (h.later hinner).bound
    have h3 := (gives_countIteration.1 hcount).1
    omega

/-- **The bound never ends a loop early**: where `rounds` copies are left of it, copies end at a
`break` or with the collection. -/
theorem copies_of_gives (hinner : inner.Forward) {task : Task} {rounds i : Nat} {out : List Stmt}
    {n : Nat} (hbound : s.maxIterations ≤ rounds + s.iterations)
    (h : Gives (copies inner known task rounds i) s (out, n) s') :
    Copies inner known task i s out s' := by
  induction rounds generalizing i s out n with
  | zero =>
    rw [copies] at h
    cases he : task.collection.element? i with
    | none =>
      simp only [he, gives_pure, Prod.mk.injEq] at h
      obtain ⟨⟨rfl, -⟩, rfl⟩ := h
      exact .done he
    | some e =>
      simp only [he, gives_bind] at h
      obtain ⟨_, t, hcount, -⟩ := h
      have := (gives_countIteration.1 hcount).1
      omega
  | succ rounds ih =>
    rw [copies] at h
    cases he : task.collection.element? i with
    | none =>
      simp only [he, gives_pure, Prod.mk.injEq] at h
      obtain ⟨⟨rfl, -⟩, rfl⟩ := h
      exact .done he
    | some e =>
      simp only [he] at h
      obtain ⟨_, t, hcount, h⟩ := gives_bind.1 h
      obtain ⟨⟨copy, broke⟩, t', hround, h⟩ := gives_bind.1 h
      cases broke with
      | true =>
        simp only [if_true, gives_bind, gives_note, gives_pure, Prod.mk.injEq] at h
        obtain ⟨_, _, rfl, ⟨rfl, -⟩, rfl⟩ := h
        exact .last he hcount hround
      | false =>
        simp only [Bool.false_eq_true, if_false, gives_bind, gives_pure, Prod.mk.injEq] at h
        obtain ⟨⟨rest, m⟩, t'', hrest, ⟨rfl, -⟩, rfl⟩ := h
        refine .more he hcount hround (ih ?_ hrest)
        -- the copy just made counts, and so do the copies inside it
        have h1 := (gives_countIteration.1 hcount).2
        have h2 := Later.of_round hinner hround
        have h3 : t.maxIterations = s.maxIterations ∧ t.iterations = s.iterations + 1 := by
          rw [h1]
          exact ⟨rfl, rfl⟩
        have := h2.bound
        have := h2.count
        omega

/-- Where `rounds` copies are left of the bound, the copies of a loop are what `copies` gives. -/
theorem gives_copies_of_copies (hinner : inner.Forward) {task : Task} {i : Nat} {out : List Stmt}
    (h : Copies inner known task i s out s') (rounds : Nat)
    (hbound : s.maxIterations ≤ rounds + s.iterations) :
    ∃ n, Gives (copies inner known task rounds i) s (out, n) s' := by
  induction h generalizing rounds with
  | @done i s he =>
    refine ⟨i, ?_⟩
    rw [copies, he]
    exact gives_pure.2 ⟨rfl, rfl⟩
  | @last i s _ _ e copy he hcount hround =>
    refine ⟨i + 1, ?_⟩
    rw [copies, he]
    exact gives_bind.2 ⟨_, _, hcount, gives_bind.2 ⟨_, _, hround, rfl⟩⟩
  | @more i s u u' t e copy rest he hcount hround h ih =>
    obtain ⟨hroom, hcounted⟩ := gives_countIteration.1 hcount
    obtain ⟨rounds, rfl⟩ : ∃ r, rounds = r + 1 := Nat.exists_eq_add_one.2 (by omega)
    have hlater := Later.of_round hinner hround
    have hbound' : u'.maxIterations ≤ rounds + u'.iterations := by
      have h1 : u.maxIterations = s.maxIterations := by rw [hcounted]
      have h2 : u.iterations = s.iterations + 1 := by rw [hcounted]
      have := hlater.bound
      have := hlater.count
      omega
    obtain ⟨n, hrest⟩ := ih rounds hbound'
    refine ⟨n, ?_⟩
    rw [copies, he]
    exact gives_bind.2 ⟨_, _, hcount, gives_bind.2 ⟨_, _, hround, gives_bind.2 ⟨_, _, hrest, rfl⟩⟩⟩

/-- The first copies of a loop are the first of all its copies. -/
theorem Copies.of_rounds {task : Task} {i : Nat} {before : List Stmt} {t : Unroller}
    (hrounds : Rounds inner known task s i before t) {out : List Stmt}
    (h : Copies inner known task 0 s out s') :
    ∃ rest, Copies inner known task i t rest s' ∧ out = before ++ rest := by
  induction hrounds with
  | zero => exact ⟨out, h, rfl⟩
  | succ _ he hcount hround ih =>
    obtain ⟨rest, hrest, rfl⟩ := ih
    cases hrest with
    | done he' => rw [he] at he'; cases he'
    | last he' hcount' hround' =>
      obtain rfl : _ = _ := Option.some.inj (he.symm.trans he')
      obtain ⟨-, rfl⟩ := hcount.unique hcount'
      obtain ⟨hr, -⟩ := hround.unique hround'
      cases hr
    | more he' hcount' hround' hmore =>
      obtain rfl : _ = _ := Option.some.inj (he.symm.trans he')
      obtain ⟨-, rfl⟩ := hcount.unique hcount'
      obtain ⟨hr, rfl⟩ := hround.unique hround'
      cases hr
      exact ⟨_, hmore, (List.append_assoc ..).symm⟩

/-- After its first copies, a loop goes on from the next element. -/
theorem outcome_copies_of_rounds {task : Task} {i : Nat} {out : List Stmt} {t : Unroller}
    (h : Rounds inner known task s i out t) (rounds : Nat) :
    outcome (copies inner known task (rounds + i) 0) s =
      match outcome (copies inner known task rounds i) t with
      | (.ok (rest, n), t') => (.ok (out ++ rest, n), t')
      | (.error e, t') => (.error e, t') := by
  induction h generalizing rounds with
  | zero => rcases outcome (copies inner known task rounds 0) s with ⟨_ | ⟨rest, n⟩, t'⟩ <;> rfl
  | @succ i out copy e t t' t'' _ he hcount hround ih =>
    have hstep : outcome (copies inner known task (rounds + 1) i) t =
        match outcome (copies inner known task rounds (i + 1)) t'' with
        | (.ok (rest, n), u) => (.ok (copy ++ rest, n), u)
        | (.error e, u) => (.error e, u) := by
      rw [copies]
      simp only [he]
      rw [outcome_bind, show outcome (countIteration _ _) t = _ from hcount]
      simp only
      rw [outcome_bind, show outcome (round _ _ _ _ _) t' = _ from hround]
      simp only [Bool.false_eq_true, if_false]
      rw [outcome_bind]
      rcases outcome (copies inner known task rounds (i + 1)) t'' with ⟨_ | ⟨rest, n⟩, u⟩ <;> rfl
    rw [show rounds + (i + 1) = rounds + 1 + i by omega, ih (rounds + 1), hstep]
    rcases outcome (copies inner known task rounds (i + 1)) t'' with ⟨_ | ⟨rest, n⟩, u⟩
    · rfl
    · simp only [List.append_assoc]

/-! ## The forms of statements -/

/-- A loop is unrolled if its collection is known, and into as many rounds as that has elements. -/
theorem gives_unrollLoop {var : Option Ident} {collection : Expr} {body : List Stmt} {span : Span}
    {out : List Stmt} :
    Gives (unrollLoop inner known var collection body span) s out s' ↔
      ∃ c n t, Collection.ofExpr? known collection.fold = some c ∧
        Gives (copies inner known ⟨loopVariable var, c, collection.fold.span, body, span⟩
          (s.maxIterations - s.iterations) 0) s (out, n) t ∧
        s' = { t with
          loopsUnrolled := t.loopsUnrolled + 1
          notes := t.notes.push (.loopUnrolled (loopVariable var) n) } := by
  rw [unrollLoop]
  cases hc : Collection.ofExpr? known collection.fold with
  | none => simp only [not_gives_throw, reduceCtorEq, false_and, exists_false]
  | some c =>
    simp only [Option.some.injEq]
    rw [gives_get_bind]
    simp only [gives_bind, gives_modify, gives_note, gives_pure]
    constructor
    · rintro ⟨⟨stmts, n⟩, t, hcopies, -, _, rfl, -, _, rfl, rfl, rfl⟩
      exact ⟨c, n, t, rfl, hcopies, rfl⟩
    · rintro ⟨_, n, t, rfl, hcopies, rfl⟩
      exact ⟨(out, n), t, hcopies, (), _, rfl, (), _, rfl, rfl, rfl⟩

section Forms

-- Each lemma below opens one equation of the walk; asked for here, they are made once.
attribute [local simp] unrollStmt unrollStmts unrollBranches

variable {r : List Stmt × Known}

@[simp]
theorem gives_unrollStmt_atom {a : Atom} :
    Gives (unrollStmt inner known (.atom a)) s r s' ↔ r = ([.atom a], known.after a) ∧ s' = s := by
  rw [unrollStmt, gives_pure]

@[simp]
theorem gives_unrollStmt_function {name : Ident} {params : List Param} {isInline : Bool}
    {body : List Stmt} {span : Span} :
    Gives (unrollStmt inner known (.function name params isInline body span)) s r s' ↔
      r = ([.function name params isInline body span], known) ∧ s' = s := by
  rw [unrollStmt, gives_pure]

@[simp]
theorem gives_unrollStmt_breakLoop {span : Span} :
    Gives (unrollStmt inner known (.breakLoop span)) s r s' ↔
      r = ([.breakLoop span], known) ∧ s' = s := by
  rw [unrollStmt, gives_pure]

@[simp]
theorem gives_unrollStmt_require {path : String} {force : Bool} {span : Span} :
    Gives (unrollStmt inner known (.require path force span)) s r s' ↔
      r = ([.require path force span], known) ∧ s' = s := by
  rw [unrollStmt, gives_pure]

/-- Behind a loop nothing is known of the variables that its body sets. -/
theorem gives_unrollStmt_forLoop {var : Option Ident} {collection : Expr} {body : List Stmt}
    {span : Span} :
    Gives (unrollStmt inner known (.forLoop var collection body span)) s r s' ↔
      ∃ out, Gives (unrollLoop inner known var collection body span) s out s' ∧
        r = (out, known.eraseAll (Stmt.assignedAll out)) := by
  rw [unrollStmt, bind_pure_comp, gives_map]

theorem gives_unrollStmt_block {body : List Stmt} {span : Span} :
    Gives (unrollStmt inner known (.block body span)) s r s' ↔
      ∃ out behind, Gives (unrollStmts inner known body) s (out, behind) s' ∧
        r = ([.block out span], behind) := by
  rw [unrollStmt, bind_pure_comp, gives_map, Prod.exists]

/-- The bodies of a chain are unrolled with what is known in front of the chain; behind it nothing
is known of the variables that they set. -/
theorem gives_unrollStmt_ifChain {branches : List (Branch Stmt)} {otherwise : Option (List Stmt)}
    {span : Span} :
    Gives (unrollStmt inner known (.ifChain branches otherwise span)) s r s' ↔
      ∃ branches' t, Gives (unrollBranches inner known branches) s branches' t ∧
        ∃ out behind, Gives (unrollStmts inner known (otherwise.getD [])) t (out, behind) s' ∧
          ∃ stmt, stmt = Stmt.ifChain branches' (otherwise.map fun _ => out) span ∧
            r = ([stmt], known.eraseAll stmt.assigned) := by
  cases otherwise with
  | none =>
    rw [unrollStmt, bind_pure_comp, gives_map, Option.getD_none, unrollStmts]
    constructor
    · rintro ⟨branches', h, rfl⟩
      exact ⟨branches', s', h, [], known, gives_pure.2 ⟨rfl, rfl⟩, _, rfl, rfl⟩
    · rintro ⟨branches', t, h, out, behind, hnil, _, rfl, rfl⟩
      obtain ⟨-, rfl⟩ := gives_pure.1 hnil
      exact ⟨branches', h, rfl⟩
  | some body =>
    rw [unrollStmt, gives_bind, Option.getD_some]
    simp only [bind_pure_comp, gives_map, Prod.exists, exists_eq_left, Option.map_some]

/-- The same for the two sides of an attempt. -/
theorem gives_unrollStmt_attempt {body : List Stmt} {handler : Option (List Stmt)} {span : Span} :
    Gives (unrollStmt inner known (.attempt body handler span)) s r s' ↔
      ∃ out behind t, Gives (unrollStmts inner known body) s (out, behind) t ∧
        ∃ out' behind', Gives (unrollStmts inner known (handler.getD [])) t (out', behind') s' ∧
          ∃ stmt, stmt = Stmt.attempt out (handler.map fun _ => out') span ∧
            r = ([stmt], known.eraseAll stmt.assigned) := by
  cases handler with
  | none =>
    rw [unrollStmt, bind_pure_comp, gives_map, Option.getD_none, unrollStmts, Prod.exists]
    constructor
    · rintro ⟨out, behind, h, rfl⟩
      exact ⟨out, behind, s', h, [], known, gives_pure.2 ⟨rfl, rfl⟩, _, rfl, rfl⟩
    · rintro ⟨out, behind, t, h, out', behind', hnil, _, rfl, rfl⟩
      obtain ⟨-, rfl⟩ := gives_pure.1 hnil
      exact ⟨out, behind, h, rfl⟩
  | some handler =>
    rw [unrollStmt, gives_bind, Option.getD_some, Prod.exists]
    simp only [bind_pure_comp, gives_map, Prod.exists, exists_eq_left, Option.map_some]

@[simp]
theorem gives_unrollStmts_nil :
    Gives (unrollStmts inner known []) s r s' ↔ r = ([], known) ∧ s' = s := by
  rw [unrollStmts, gives_pure]

/-- What is known behind a statement is known in front of the next one. -/
theorem gives_unrollStmts_cons {stmt : Stmt} {rest : List Stmt} :
    Gives (unrollStmts inner known (stmt :: rest)) s r s' ↔
      ∃ first between t, Gives (unrollStmt inner known stmt) s (first, between) t ∧
        ∃ out behind, Gives (unrollStmts inner between rest) t (out, behind) s' ∧
          r = (first ++ out, behind) := by
  rw [unrollStmts, gives_bind, Prod.exists]
  simp only [bind_pure_comp, gives_map, Prod.exists]

end Forms

theorem gives_unrollStmts_singleton {stmt : Stmt} {r : List Stmt × Known} :
    Gives (unrollStmts inner known [stmt]) s r s' ↔ Gives (unrollStmt inner known stmt) s r s' := by
  rw [gives_unrollStmts_cons]
  constructor
  · rintro ⟨first, between, u, hfirst, out, behind, hnil, rfl⟩
    obtain ⟨hout, rfl⟩ := gives_unrollStmts_nil.1 hnil
    obtain ⟨rfl, rfl⟩ := Prod.mk.inj hout
    rwa [List.append_nil]
  · intro h
    exact ⟨r.1, r.2, s', h, [], r.2, gives_unrollStmts_nil.2 ⟨rfl, rfl⟩, by rw [List.append_nil]⟩

/-- Unrolling goes through a list from the left to the right. -/
theorem gives_unrollStmts_append {first rest : List Stmt} {r : List Stmt × Known} :
    Gives (unrollStmts inner known (first ++ rest)) s r s' ↔
      ∃ out between u, Gives (unrollStmts inner known first) s (out, between) u ∧
        ∃ out' behind, Gives (unrollStmts inner between rest) u (out', behind) s' ∧
          r = (out ++ out', behind) := by
  induction first generalizing known s r with
  | nil =>
    constructor
    · intro h
      exact ⟨[], known, s, gives_unrollStmts_nil.2 ⟨rfl, rfl⟩, r.1, r.2, h, rfl⟩
    · rintro ⟨out, between, u, hnil, out', behind, hrest, rfl⟩
      obtain ⟨hout, rfl⟩ := gives_unrollStmts_nil.1 hnil
      obtain ⟨rfl, rfl⟩ := Prod.mk.inj hout
      exact hrest
  | cons stmt first ih =>
    rw [List.cons_append, gives_unrollStmts_cons]
    constructor
    · rintro ⟨out, between, u, hstmt, out', behind, hrest, rfl⟩
      obtain ⟨out₁, between₁, u₁, hfirst, out₂, behind₂, hrest, hr⟩ := ih.1 hrest
      obtain ⟨rfl, rfl⟩ := Prod.mk.inj hr
      exact ⟨out ++ out₁, between₁, u₁,
        gives_unrollStmts_cons.2 ⟨out, between, u, hstmt, out₁, between₁, hfirst, rfl⟩, out₂,
          _, hrest,
        by rw [List.append_assoc]⟩
    · rintro ⟨out, between, u, hcons, out', behind, hrest, rfl⟩
      obtain ⟨out₁, between₁, u₁, hstmt, out₂, behind₂, hfirst, hr⟩ :=
        gives_unrollStmts_cons.1 hcons
      obtain ⟨rfl, rfl⟩ := Prod.mk.inj hr
      exact ⟨out₁, between₁, u₁, hstmt, out₂ ++ out', behind,
        ih.2 ⟨out₂, _, u, hfirst, out', behind, hrest, rfl⟩, by rw [List.append_assoc]⟩

@[simp]
theorem gives_unrollBranches_nil {r : List (Branch Stmt)} :
    Gives (unrollBranches inner known []) s r s' ↔ r = [] ∧ s' = s := by
  rw [unrollBranches, gives_pure]

theorem gives_unrollBranches_cons {cond : Expr} {body : List Stmt} {span : Span}
    {rest r : List (Branch Stmt)} :
    Gives (unrollBranches inner known (⟨cond, body, span⟩ :: rest)) s r s' ↔
      ∃ out behind t, Gives (unrollStmts inner known body) s (out, behind) t ∧
        ∃ rest', Gives (unrollBranches inner known rest) t rest' s' ∧
          r = ⟨cond, out, span⟩ :: rest' := by
  rw [unrollBranches, gives_bind, Prod.exists]
  simp only [bind_pure_comp, gives_map]

theorem gives_unrollBranches_append {before after r : List (Branch Stmt)}
    (h : Gives (unrollBranches inner known (before ++ after)) s r s') :
    ∃ out t out', Gives (unrollBranches inner known before) s out t ∧
      Gives (unrollBranches inner known after) t out' s' ∧ r = out ++ out' := by
  induction before generalizing s r with
  | nil => exact ⟨[], s, r, gives_unrollBranches_nil.2 ⟨rfl, rfl⟩, h, rfl⟩
  | cons b before ih =>
    obtain ⟨cond, body, span⟩ := b
    obtain ⟨out, behind, t, hbody, rest', hrest, rfl⟩ := gives_unrollBranches_cons.1 h
    obtain ⟨outs, t', out', hbefore, hafter, rfl⟩ := ih hrest
    exact ⟨_, t', out', gives_unrollBranches_cons.2 ⟨out, behind, t, hbody, outs, hbefore, rfl⟩,
      hafter, rfl⟩

/-- Inner loops are unrolled with one depth less. -/
theorem gives_unrollAt_succ {depth : Nat} {stmts out : List Stmt} :
    Gives (unrollAt (depth + 1) known stmts) s out s' ↔
      ∃ behind, Gives (unrollStmts (unrollAt depth) known stmts) s (out, behind) s' := by
  rw [unrollAt, bind_pure_comp, gives_map, Prod.exists]
  constructor
  · rintro ⟨_, behind, h, rfl⟩
    exact ⟨behind, h⟩
  · rintro ⟨behind, h⟩
    exact ⟨out, behind, h, rfl⟩

/-! ## Failing

An error in a part of a script is the error of the whole script. -/

section Failing

variable {err : Error}

/-- A list fails where its first statement fails, -/
theorem fails_unrollStmts_of_first {stmt : Stmt}
    (h : Fails (unrollStmt inner known stmt) s err s') (rest : List Stmt) :
    Fails (unrollStmts inner known (stmt :: rest)) s err s' := by
  rw [unrollStmts]
  exact h.bind _

/-- or behind it. -/
theorem fails_unrollStmts_of_rest {stmt : Stmt} {rest first : List Stmt} {between : Known}
    {t : Unroller} (hfirst : Gives (unrollStmt inner known stmt) s (first, between) t)
    (h : Fails (unrollStmts inner between rest) t err s') :
    Fails (unrollStmts inner known (stmt :: rest)) s err s' := by
  rw [unrollStmts]
  exact hfirst.bind_fails (h.bind _)

/-- Branches fail at the first body that fails. -/
theorem fails_unrollBranches {before out : List (Branch Stmt)} {t : Unroller}
    (hbefore : Gives (unrollBranches inner known before) s out t) {b : Branch Stmt}
    (h : Fails (unrollStmts inner known b.body) t err s') (after : List (Branch Stmt)) :
    Fails (unrollBranches inner known (before ++ b :: after)) s err s' := by
  induction before generalizing s out with
  | nil =>
    obtain ⟨-, rfl⟩ := gives_unrollBranches_nil.1 hbefore
    obtain ⟨cond, body, span⟩ := b
    rw [List.nil_append, unrollBranches]
    exact h.bind _
  | cons b' before ih =>
    obtain ⟨cond, body, span⟩ := b'
    obtain ⟨out, behind, u, hbody, rest', hrest, -⟩ := gives_unrollBranches_cons.1 hbefore
    rw [List.cons_append, unrollBranches]
    exact hbody.bind_fails ((ih hrest).bind _)

theorem fails_unrollStmt_block {body : List Stmt}
    (h : Fails (unrollStmts inner known body) s err s') (span : Span) :
    Fails (unrollStmt inner known (.block body span)) s err s' := by
  rw [unrollStmt]
  exact h.bind _

theorem fails_unrollStmt_ifChain_of_branches {branches : List (Branch Stmt)}
    (h : Fails (unrollBranches inner known branches) s err s') (otherwise : Option (List Stmt))
    (span : Span) : Fails (unrollStmt inner known (.ifChain branches otherwise span)) s err s' := by
  cases otherwise with
  | none =>
    rw [unrollStmt]
    exact h.bind _
  | some body =>
    rw [unrollStmt]
    exact h.bind _

theorem fails_unrollStmt_ifChain_of_otherwise {branches out : List (Branch Stmt)} {t : Unroller}
    (hbranches : Gives (unrollBranches inner known branches) s out t) {body : List Stmt}
    (h : Fails (unrollStmts inner known body) t err s') (span : Span) :
    Fails (unrollStmt inner known (.ifChain branches (some body) span)) s err s' := by
  rw [unrollStmt]
  exact hbranches.bind_fails (h.bind _)

theorem fails_unrollStmt_attempt_of_body {body : List Stmt}
    (h : Fails (unrollStmts inner known body) s err s') (handler : Option (List Stmt))
    (span : Span) : Fails (unrollStmt inner known (.attempt body handler span)) s err s' := by
  cases handler with
  | none =>
    rw [unrollStmt]
    exact h.bind _
  | some handler =>
    rw [unrollStmt]
    exact h.bind _

theorem fails_unrollStmt_attempt_of_handler {body out : List Stmt} {behind : Known} {t : Unroller}
    (hbody : Gives (unrollStmts inner known body) s (out, behind) t) {handler : List Stmt}
    (h : Fails (unrollStmts inner known handler) t err s') (span : Span) :
    Fails (unrollStmt inner known (.attempt body (some handler) span)) s err s' := by
  rw [unrollStmt]
  exact hbody.bind_fails (h.bind _)

theorem fails_unrollStmt_forLoop {var : Option Ident} {collection : Expr} {body : List Stmt}
    {span : Span} (h : Fails (unrollLoop inner known var collection body span) s err s') :
    Fails (unrollStmt inner known (.forLoop var collection body span)) s err s' := by
  rw [unrollStmt]
  exact h.bind _

/-- A loop over something of which the elements are not known. -/
theorem fails_unrollLoop_of_unknown {collection : Expr}
    (h : Collection.ofExpr? known collection.fold = none) (s : Unroller) (var : Option Ident)
    (body : List Stmt) (span : Span) :
    Fails (unrollLoop inner known var collection body span) s
      (.unboundedLoop (loopVariable var) collection.fold.span) s := by
  rw [unrollLoop, h]
  exact fails_throw.2 ⟨rfl, rfl⟩

/-- A loop in one of whose copies there is an error. -/
theorem fails_unrollLoop_of_copy (hinner : inner.Forward) {var : Option Ident} {collection : Expr}
    {body : List Stmt} {span : Span} {c : Collection}
    (hc : Collection.ofExpr? known collection.fold = some c) {task : Task}
    (htask : task = ⟨loopVariable var, c, collection.fold.span, body, span⟩) {i : Nat}
    {out : List Stmt} {t t' : Unroller} {e : Literal} (hrounds : Rounds inner known task s i out t)
    (he : c.element? i = some e) (hcount : Gives (countIteration task.var span) t () t')
    (h : Fails (inner known (Stmt.foldAll (Stmt.substAll task.var (.lit e task.place) body)))
      t' err s') :
    Fails (unrollLoop inner known var collection body span) s err s' := by
  obtain ⟨rounds, hr⟩ := Nat.exists_eq_add_of_le' (hrounds.room hinner)
  have hround : Fails (round inner known task.var (.lit e task.place) task.body) t' err s' := by
    rw [htask] at h ⊢
    exact h.bind _
  have hcopies : Fails (copies inner known task rounds i) t err s' := by
    have hcollection : task.collection.element? i = some e := by rw [htask]; exact he
    have hspan : task.span = span := by rw [htask]
    rw [copies]
    simp only [hcollection, hspan]
    exact hcount.bind_fails (hround.bind _)
  have hall : Fails (copies inner known task (rounds + i) 0) s err s' := by
    rw [Fails, outcome_copies_of_rounds hrounds, show outcome (copies _ _ _ _ _) t = _ from hcopies]
  rw [unrollLoop, hc]
  refine Gives.bind_fails (gives_get.2 ⟨rfl, rfl⟩) ?_
  rw [hr, ← htask]
  exact hall.bind _

theorem fails_unrollAt_succ {depth : Nat} {stmts : List Stmt} :
    Fails (unrollAt (depth + 1) known stmts) s err s' ↔
      Fails (unrollStmts (unrollAt depth) known stmts) s err s' := by
  rw [unrollAt, bind_pure_comp, fails_map]

end Failing

/-! ## Going forward -/

/-- A loop that is unrolled is the copies of its body. -/
theorem copies_of_unrollLoop (hinner : inner.Forward) {var : Option Ident} {collection : Expr}
    {body : List Stmt} {span : Span} {out : List Stmt}
    (h : Gives (unrollLoop inner known var collection body span) s out s') :
    ∃ c t, Collection.ofExpr? known collection.fold = some c ∧
      Copies inner known ⟨loopVariable var, c, collection.fold.span, body, span⟩ 0 s out t ∧
      Later t s' := by
  obtain ⟨c, n, t, hc, hcopies, rfl⟩ := gives_unrollLoop.1 h
  exact ⟨c, t, hc, copies_of_gives hinner (by omega) hcopies, rfl, Nat.le_refl _,
    fun _ => Array.mem_push_of_mem _⟩

/-- A loop that has come to the end of its collection leaves a note with the number of its
rounds. -/
theorem noted_of_unrollLoop (hinner : inner.Forward) {var : Option Ident} {collection : Expr}
    {body : List Stmt} {span : Span} {out : List Stmt}
    (h : Gives (unrollLoop inner known var collection body span) s out s') {c : Collection}
    (hc : Collection.ofExpr? known collection.fold = some c) {i : Nat} {before : List Stmt}
    {t : Unroller}
    (hrounds : Rounds inner known ⟨loopVariable var, c, collection.fold.span, body, span⟩ s i
      before t) (he : c.element? i = none) : Note.loopUnrolled (loopVariable var) i ∈ s'.notes := by
  obtain ⟨c', n, u, hc', hcopies, rfl⟩ := gives_unrollLoop.1 h
  obtain rfl : c' = c := Option.some.inj (hc'.symm.trans hc)
  obtain ⟨rounds, hr⟩ := Nat.exists_eq_add_of_le' (hrounds.room hinner)
  have hend :
      Gives (copies inner known ⟨loopVariable var, c', collection.fold.span, body, span⟩ rounds i)
      t ([], i) t := by
    rw [copies]
    simp only [he]
    exact gives_pure.2 ⟨rfl, rfl⟩
  rw [hr, Gives, outcome_copies_of_rounds hrounds, show outcome (copies _ _ _ _ _) t = _ from hend]
    at hcopies
  cases hcopies
  exact Array.mem_push_self

mutual

/-- Unrolling a statement makes a later state, if the unrolling of inner loops does. -/
theorem unrollStmt_later (hinner : inner.Forward) :
    ∀ (stmt : Stmt) {known : Known} {s s' : Unroller} {r : List Stmt × Known},
      Gives (unrollStmt inner known stmt) s r s' → Later s s'
  | .atom a, known, s, s', r, h => (gives_unrollStmt_atom.1 h).2 ▸ Later.refl s
  | .function .., known, s, s', r, h => (gives_unrollStmt_function.1 h).2 ▸ Later.refl s
  | .breakLoop span, known, s, s', r, h => (gives_unrollStmt_breakLoop.1 h).2 ▸ Later.refl s
  | .require .., known, s, s', r, h => (gives_unrollStmt_require.1 h).2 ▸ Later.refl s
  | .forLoop .., known, s, s', r, h => by
    obtain ⟨out, hloop, -⟩ := gives_unrollStmt_forLoop.1 h
    obtain ⟨c, t, -, hcopies, ht⟩ := copies_of_unrollLoop hinner hloop
    exact (hcopies.later hinner).trans ht
  | .block body span, known, s, s', r, h => by
    obtain ⟨out, behind, hbody, -⟩ := gives_unrollStmt_block.1 h
    exact unrollStmts_later hinner body hbody
  | .ifChain branches none span, known, s, s', r, h => by
    obtain ⟨branches', t, hbranches, out, behind, hnil, -⟩ := gives_unrollStmt_ifChain.1 h
    obtain ⟨-, rfl⟩ := gives_unrollStmts_nil.1 hnil
    exact unrollBranches_later hinner branches hbranches
  | .ifChain branches (some body) span, known, s, s', r, h => by
    obtain ⟨branches', t, hbranches, out, behind, hbody, -⟩ := gives_unrollStmt_ifChain.1 h
    exact (unrollBranches_later hinner branches hbranches).trans
      (unrollStmts_later hinner body hbody)
  | .attempt body none span, known, s, s', r, h => by
    obtain ⟨out, behind, t, hbody, out', behind', hnil, -⟩ := gives_unrollStmt_attempt.1 h
    obtain ⟨-, rfl⟩ := gives_unrollStmts_nil.1 hnil
    exact unrollStmts_later hinner body hbody
  | .attempt body (some handler) span, known, s, s', r, h => by
    obtain ⟨out, behind, t, hbody, out', behind', hhandler, -⟩ := gives_unrollStmt_attempt.1 h
    exact (unrollStmts_later hinner body hbody).trans (unrollStmts_later hinner handler hhandler)

theorem unrollStmts_later (hinner : inner.Forward) :
    ∀ (stmts : List Stmt) {known : Known} {s s' : Unroller} {r : List Stmt × Known},
      Gives (unrollStmts inner known stmts) s r s' → Later s s'
  | [], known, s, s', r, h => (gives_unrollStmts_nil.1 h).2 ▸ Later.refl s
  | stmt :: rest, known, s, s', r, h => by
    obtain ⟨first, between, t, hfirst, out, behind, hrest, -⟩ := gives_unrollStmts_cons.1 h
    exact (unrollStmt_later hinner stmt hfirst).trans (unrollStmts_later hinner rest hrest)

theorem unrollBranches_later (hinner : inner.Forward) :
    ∀ (branches : List (Branch Stmt)) {known : Known} {s s' : Unroller} {r : List (Branch Stmt)},
      Gives (unrollBranches inner known branches) s r s' → Later s s'
  | [], known, s, s', r, h => (gives_unrollBranches_nil.1 h).2 ▸ Later.refl s
  | ⟨cond, body, span⟩ :: rest, known, s, s', r, h => by
    obtain ⟨out, behind, t, hbody, rest', hrest, -⟩ := gives_unrollBranches_cons.1 h
    exact (unrollStmts_later hinner body hbody).trans (unrollBranches_later hinner rest hrest)

end

/-- So it does at any depth. -/
theorem unrollAt_forward (depth : Nat) : (unrollAt depth).Forward := by
  induction depth with
  | zero =>
    intro known stmts s out s' h
    rw [unrollAt, gives_pure] at h
    exact h.2 ▸ Later.refl s
  | succ depth ih =>
    intro known stmts s out s' h
    obtain ⟨behind, h⟩ := gives_unrollAt_succ.1 h
    exact unrollStmts_later ih stmts h

end Unroller

end EdgeScript
