import EdgeScript.Proofs.Unrolling.Steps

/-!
# The bound on the copies of loop bodies

All loops of a script share one bound, and every copy of a body counts against it before it is made.
What follows from that is shown of the unroller as a whole, by what it is put together from
(`Composed`):

* a run goes by single steps, and none of them makes a copy too many (`exists_trace_afterAll`,
  `Trace.within`);
* a run that succeeds under one bound does the same under every bound that its copies stay in, and
  comes to the copy that is one too many under every other (`Metered`).
-/

set_option autoImplicit false

namespace EdgeScript

open Pass

/-- Sequences agree where what comes second agrees on what comes out of the first. -/
theorem Pass.outcome_bind_congr {σ α β : Type} {x : Pass σ α} {f g : α → Pass σ β} {s : σ}
    (h : ∀ a t, Gives x s a t → outcome (f a) t = outcome (g a) t) :
    outcome (x >>= f) s = outcome (x >>= g) s := by
  rw [outcome_bind, outcome_bind]
  cases hx : outcome x s with
  | mk r t =>
    cases r with
    | error e => rfl
    | ok a => exact h a t hx

namespace Unroller

variable {α β : Type} {s t u : Unroller}

/-! ## What the unroller is put together from -/

/-- What holds of passes that are put together from passes of which it holds. -/
structure Composed (C : {α : Type} → Pass Unroller α → Prop) : Prop where
  pure {α : Type} (a : α) : C (pure a)
  throw {α : Type} (e : Error) : C (throw e : Pass Unroller α)
  bind {α β : Type} {x : Pass Unroller α} {f : α → Pass Unroller β} : C x → (∀ a, C (f a)) →
    C (x >>= f)
  count (var : String) (span : Span) : C (countIteration var span)
  note (n : Note) : C (note n)

namespace Composed

variable {C : {α : Type} → Pass Unroller α → Prop} (hC : Composed C) {inner : Inner}
include hC

/-- A round is composed of the steps that `C` goes through. -/
theorem round (hinner : ∀ known stmts, C (inner known stmts)) (known : Known) (var : String)
    (element : Expr) (body : List Stmt) : C (Unroller.round inner known var element body) := by
  refine hC.bind (hinner known _) fun copy => ?_
  cases Stmt.cutAtBreak copy with
  | ok r => exact hC.pure r
  | error e => exact hC.throw e

/-- So are the rounds of a loop, -/
theorem copies (hinner : ∀ known stmts, C (inner known stmts)) (known : Known) (task : Task)
    (rounds i : Nat) : C (Unroller.copies inner known task rounds i) := by
  induction rounds generalizing i with
  | zero =>
    rw [Unroller.copies]
    cases task.collection.element? i with
    | none => exact hC.pure _
    | some e =>
      refine hC.bind (hC.count _ _) fun _ => hC.bind (hC.round hinner known _ _ _) ?_
      rintro ⟨copy, broke⟩
      cases broke with
      | true => exact hC.bind (hC.note _) fun _ => hC.pure _
      | false => exact hC.pure _
  | succ rounds ih =>
    rw [Unroller.copies]
    cases task.collection.element? i with
    | none => exact hC.pure _
    | some e =>
      refine hC.bind (hC.count _ _) fun _ => hC.bind (hC.round hinner known _ _ _) ?_
      rintro ⟨copy, broke⟩
      cases broke with
      | true => exact hC.bind (hC.note _) fun _ => hC.pure _
      | false => exact hC.bind (ih (i + 1)) fun _ => hC.pure _

mutual

/-- and the unrolling of a statement, if that of loops is. -/
theorem unrollStmt
    (hloop : ∀ known var collection body span,
      C (unrollLoop inner known var collection body span)) :
    ∀ (known : Known) (s : Stmt), C (Unroller.unrollStmt inner known s)
  | known, .forLoop var collection body span => by
    rw [Unroller.unrollStmt]
    exact hC.bind (hloop known var collection body span) fun _ => hC.pure _
  | known, .atom a => by
    rw [Unroller.unrollStmt]
    exact hC.pure _
  | known, .block body span => by
    rw [Unroller.unrollStmt]
    exact hC.bind (unrollStmts hloop known body) fun _ => hC.pure _
  | known, .ifChain branches (some body) span => by
    rw [Unroller.unrollStmt]
    exact hC.bind (unrollBranches hloop known branches) fun _ =>
      hC.bind (unrollStmts hloop known body) fun _ => hC.pure _
  | known, .ifChain branches none span => by
    rw [Unroller.unrollStmt]
    exact hC.bind (unrollBranches hloop known branches) fun _ => hC.pure _
  | known, .attempt body (some handler) span => by
    rw [Unroller.unrollStmt]
    exact hC.bind (unrollStmts hloop known body) fun _ => hC.bind (unrollStmts hloop known handler)
      fun _ => hC.pure _
  | known, .attempt body none span => by
    rw [Unroller.unrollStmt]
    exact hC.bind (unrollStmts hloop known body) fun _ => hC.pure _
  | known, .function .. => by
    rw [Unroller.unrollStmt]
    exact hC.pure _
  | known, .breakLoop _ => by
    rw [Unroller.unrollStmt]
    exact hC.pure _
  | known, .require .. => by
    rw [Unroller.unrollStmt]
    exact hC.pure _

theorem unrollStmts
    (hloop : ∀ known var collection body span,
      C (unrollLoop inner known var collection body span)) :
    ∀ (known : Known) (stmts : List Stmt), C (Unroller.unrollStmts inner known stmts)
  | known, [] => by
    rw [Unroller.unrollStmts]
    exact hC.pure _
  | known, s :: rest => by
    rw [Unroller.unrollStmts]
    exact hC.bind (unrollStmt hloop known s) fun r => hC.bind (unrollStmts hloop r.2 rest) fun _ =>
      hC.pure _

theorem unrollBranches
    (hloop : ∀ known var collection body span,
      C (unrollLoop inner known var collection body span)) :
    ∀ (known : Known) (branches : List (Branch Stmt)),
      C (Unroller.unrollBranches inner known branches)
  | known, [] => by
    rw [Unroller.unrollBranches]
    exact hC.pure _
  | known, ⟨cond, body, span⟩ :: rest => by
    rw [Unroller.unrollBranches]
    exact hC.bind (unrollStmts hloop known body) fun _ => hC.bind (unrollBranches hloop known rest)
      fun _ => hC.pure _

end

/-- It holds of the unroller if it holds of every loop whose body it holds of. -/
theorem unrollAt
    (hloop : ∀ {inner : Inner}, (∀ known stmts, C (inner known stmts)) →
      ∀ known var collection body span, C (unrollLoop inner known var collection body span))
    (depth : Nat) : ∀ known stmts, C (Unroller.unrollAt depth known stmts) := by
  induction depth with
  | zero => exact fun _ _ => hC.pure _
  | succ depth ih =>
    exact fun known stmts => hC.bind (hC.unrollStmts (hloop ih) known stmts) fun _ => hC.pure _

end Composed

/-! ## The states of a run -/

/-- What an unroller does at a time: it counts a copy, leaves a note, or counts a loop. -/
inductive Step : Unroller → Unroller → Prop
  | counted {s t : Unroller} {var : String} {span : Span}
      (h : Gives (countIteration var span) s () t) : Step s t
  | noted {s t : Unroller} {n : Note} (h : Gives (note n) s () t) : Step s t
  | unrolled {s : Unroller} : Step s { s with loopsUnrolled := s.loopsUnrolled + 1 }

/-- The states behind `s`, each one step from the one before, up to `t`. -/
inductive Trace : Unroller → List Unroller → Unroller → Prop
  | nil (s : Unroller) : Trace s [] s
  | cons {s u t : Unroller} {us : List Unroller} (hstep : Step s u) (hrest : Trace u us t) :
      Trace s (u :: us) t

theorem Trace.append {us vs : List Unroller} (h : Trace s us u) (h' : Trace u vs t) :
    Trace s (us ++ vs) t := by
  induction h with
  | nil => exact h'
  | cons hstep _ ih => exact .cons hstep (ih h')

/-- The bound is `most`, and there have been no more copies. -/
structure Within (most : Nat) (s : Unroller) : Prop where
  bound : s.maxIterations = most
  count : s.iterations ≤ most

/-- One step never goes past the limit. -/
theorem Step.within {most : Nat} (hstep : Step s t) (h : Within most s) : Within most t := by
  cases hstep with
  | counted hcount =>
    obtain ⟨hroom, rfl⟩ := gives_countIteration.1 hcount
    exact ⟨h.bound, h.bound ▸ hroom⟩
  | noted hnote =>
    obtain rfl := gives_note.1 hnote
    exact ⟨h.bound, h.count⟩
  | unrolled => exact ⟨h.bound, h.count⟩

/-- So no state on the way does. -/
theorem Trace.within {most : Nat} {us : List Unroller} (htrace : Trace s us t) (h : Within most s) :
    (∀ u ∈ us, Within most u) ∧ Within most t := by
  induction htrace with
  | nil => exact ⟨fun u hu => absurd hu List.not_mem_nil, h⟩
  | cons hstep _ ih =>
    have hu := hstep.within h
    exact ⟨List.forall_mem_cons.2 ⟨hu, (ih hu).1⟩, (ih hu).2⟩

/-- From every state the pass goes step by step, whether it fails or not. -/
def Traced (x : Pass Unroller α) : Prop :=
  ∀ s, ∃ us, Trace s us (outcome x s).2

theorem traced_modify {f : Unroller → Unroller} (h : ∀ s, Step s (f s)) : Traced (modify f) :=
  fun s => ⟨[f s], .cons (h s) (.nil _)⟩

theorem traced_get_bind {f : Unroller → Pass Unroller α} (h : ∀ s, Traced (f s)) :
    Traced (get >>= f) :=
  fun s => h s s

/-- At the limit no more rounds are counted, and the state stays as it is. -/
theorem fails_countIteration {var : String} {span : Span} (h : s.maxIterations ≤ s.iterations) :
    Fails (countIteration var span) s
      (.limitExceeded (.iterations var s.maxIterations) span) s := by
  rw [countIteration, Fails, outcome_bind]
  show outcome (if s.maxIterations ≤ s.iterations then _ else _) s = _
  rw [if_pos h]
  rfl

/-- Counting a round is one step or none. -/
theorem traced_countIteration (var : String) (span : Span) : Traced (countIteration var span) := by
  intro s
  by_cases hroom : s.maxIterations ≤ s.iterations
  · rw [fails_countIteration hroom]
    exact ⟨[], .nil s⟩
  · have hgives : Gives (countIteration var span) s () { s with iterations := s.iterations + 1 } :=
      gives_countIteration.2 ⟨Nat.lt_of_not_le hroom, rfl⟩
    rw [hgives]
    exact ⟨_, .cons (.counted hgives) (.nil _)⟩

/-- Passes that take steps only can be put together. -/
theorem composed_traced : Composed Traced where
  pure _ := fun s => ⟨[], .nil s⟩
  throw _ := fun s => ⟨[], .nil s⟩
  bind {_ _ x f} hx hf := by
    intro s
    obtain ⟨us, hus⟩ := hx s
    rw [outcome_bind]
    rcases houtcome : outcome x s with ⟨_ | a, t⟩
    · rw [houtcome] at hus
      exact ⟨us, hus⟩
    · rw [houtcome] at hus
      obtain ⟨vs, hvs⟩ := hf a t
      exact ⟨us ++ vs, hus.append hvs⟩
  count := traced_countIteration
  note n := traced_modify fun s => .noted (gives_note.2 rfl)

/-- A loop takes steps only, if the loops in its body do. -/
theorem traced_unrollLoop {inner : Inner} (hinner : ∀ known stmts, Traced (inner known stmts))
    (known : Known) (var : Option Ident) (collection : Expr) (body : List Stmt) (span : Span) :
    Traced (unrollLoop inner known var collection body span) := by
  rw [unrollLoop]
  dsimp only
  cases Collection.ofExpr? known collection.fold with
  | none => exact composed_traced.throw _
  | some c =>
    refine traced_get_bind fun s => composed_traced.bind (composed_traced.copies hinner known _ _ _)
      fun _ => ?_
    refine composed_traced.bind (traced_modify fun _ => .unrolled) fun _ => ?_
    exact composed_traced.bind (composed_traced.note _) fun _ => composed_traced.pure _

/-- Runs of one unroller, one after the other, whether they fail or not. -/
def afterAll (scripts : List (List Stmt)) (s : Unroller) : Unroller :=
  scripts.foldl (fun s stmts => (outcome (run stmts) s).2) s

/-- Whatever scripts are unrolled one after the other, there is a way through all of them. -/
theorem exists_trace_afterAll (scripts : List (List Stmt)) (s : Unroller) :
    ∃ us, Trace s us (afterAll scripts s) := by
  induction scripts generalizing s with
  | nil => exact ⟨[], .nil s⟩
  | cons stmts scripts ih =>
    obtain ⟨us, hus⟩ :=
      composed_traced.unrollAt traced_unrollLoop (Stmt.loopDepthAll stmts + 1) [] stmts s
    obtain ⟨vs, hvs⟩ := ih (outcome (run stmts) s).2
    exact ⟨us ++ vs, hus.append hvs⟩

/-! ## Other bounds -/

/-- The unroller with another bound. -/
def withBound (s : Unroller) (bound : Nat) : Unroller := { s with maxIterations := bound }

/-- Under a bound that the copies made by the pass stay in, it does the same, and under a smaller
one it comes to the copy that is one too many. -/
def Metered (x : Pass Unroller α) : Prop :=
  ∀ s a t, Gives x s a t → Later s t ∧ ∀ bound,
    (t.iterations ≤ bound → Gives x (s.withBound bound) a (t.withBound bound)) ∧
    (s.iterations ≤ bound → bound < t.iterations →
      ∃ var span u, Fails x (s.withBound bound) (.limitExceeded (.iterations var bound) span) u)

theorem metered_modify {f : Unroller → Unroller}
    (hiterations : ∀ s, (f s).iterations = s.iterations)
    (hnotes : ∀ s, ∀ n ∈ s.notes, n ∈ (f s).notes)
    (hbound : ∀ s bound, f (s.withBound bound) = (f s).withBound bound) : Metered (modify f) := by
  intro s a t h
  obtain rfl := gives_modify.1 h
  have hsame : (f (s.withBound s.maxIterations)).maxIterations = s.maxIterations := by
    rw [hbound]
    rfl
  have hlater : Later s (f s) := ⟨hsame, Nat.le_of_eq (hiterations s).symm, hnotes s⟩
  refine ⟨hlater, fun bound => ⟨fun _ => gives_modify.2 (hbound s bound).symm, fun hle hlt => ?_⟩⟩
  rw [hiterations] at hlt
  exact absurd hle (Nat.not_le_of_lt hlt)

/-- Counting succeeds if and only if the limit leaves room for one more round. -/
theorem metered_countIteration (var : String) (span : Span) :
    Metered (countIteration var span) := by
  intro s a t h
  obtain ⟨-, rfl⟩ := gives_countIteration.1 h
  refine ⟨Later.of_countIteration h,
    fun bound => ⟨fun hle => gives_countIteration.2 ⟨hle, rfl⟩, fun hle hlt => ?_⟩⟩
  -- the copy is the one that the bound does not allow
  have hfull : (s.withBound bound).maxIterations ≤ (s.withBound bound).iterations :=
    Nat.le_of_lt_succ hlt
  exact ⟨var, span, _, fails_countIteration hfull⟩

/-- Passes that depend on the limit in this way only can be put together. -/
theorem composed_metered : Composed Metered where
  pure a := by
    intro s b t h
    obtain ⟨rfl, rfl⟩ := gives_pure.1 h
    exact ⟨Later.refl _, fun bound =>
      ⟨fun _ => gives_pure.2 ⟨rfl, rfl⟩, fun hle hlt => absurd hle (Nat.not_le_of_lt hlt)⟩⟩
  throw _ := fun _ _ _ h => absurd h not_gives_throw
  bind {_ _ x f} hx hf := by
    intro s b t h
    obtain ⟨a, u, hfirst, hsecond⟩ := gives_bind.1 h
    obtain ⟨hlater, hbounds⟩ := hx _ _ _ hfirst
    obtain ⟨hlater', hbounds'⟩ := hf a _ _ _ hsecond
    refine ⟨hlater.trans hlater', fun bound => ⟨fun hle => ?_, fun hle hlt => ?_⟩⟩
    · have hu : u.iterations ≤ bound := Nat.le_trans hlater'.count hle
      exact gives_bind.2 ⟨a, _, (hbounds bound).1 hu, (hbounds' bound).1 hle⟩
    · by_cases hu : u.iterations ≤ bound
      · obtain ⟨var, span, v, hfails⟩ := (hbounds' bound).2 hu hlt
        exact ⟨var, span, v, ((hbounds bound).1 hu).bind_fails hfails⟩
      · obtain ⟨var, span, v, hfails⟩ := (hbounds bound).2 hle (Nat.lt_of_not_le hu)
        exact ⟨var, span, v, hfails.bind f⟩
  count := metered_countIteration
  note n := metered_modify (fun _ => rfl) (fun s => (Later.of_note s n).notes) fun _ _ => rfl

/-- The number of rounds does not show where what is left of the bound is not more. -/
theorem outcome_copies_of_le {inner : Inner} (hinner : inner.Forward) (known : Known) (task : Task)
    (rounds rounds' i : Nat) {s : Unroller} (h : s.maxIterations ≤ rounds + s.iterations)
    (h' : s.maxIterations ≤ rounds' + s.iterations) :
    outcome (copies inner known task rounds i) s =
      outcome (copies inner known task rounds' i) s := by
  rw [copies, copies]
  cases task.collection.element? i with
  | none => rfl
  | some e =>
    refine outcome_bind_congr fun _ t hcount => outcome_bind_congr ?_
    rintro ⟨copy, broke⟩ u hround
    cases broke with
    | true => rfl
    | false =>
      -- a copy has been counted, so there was room for it in both numbers of rounds
      obtain ⟨hroom, ht⟩ := gives_countIteration.1 hcount
      have hlater := Later.of_round hinner hround
      have hbound : u.maxIterations = s.maxIterations := by rw [hlater.bound, ht]
      have hspent : s.iterations + 1 ≤ u.iterations := by simpa [ht] using hlater.count
      cases rounds with
      | zero => omega
      | succ rounds =>
        cases rounds' with
        | zero => omega
        | succ rounds' =>
          show outcome (copies inner known task rounds (i + 1) >>= _) u =
            outcome (copies inner known task rounds' (i + 1) >>= _) u
          rw [outcome_bind, outcome_bind,
            outcome_copies_of_le hinner known task rounds rounds' (i + 1) (by omega) (by omega)]

/-- A loop whose copies do not all fit under the bound fails as they do. -/
theorem fails_unrollLoop_of_copies {inner : Inner} {known : Known} {var : Option Ident}
    {collection : Expr} {body : List Stmt} {span : Span} {c : Collection} {e : Error}
    (hc : Collection.ofExpr? known collection.fold = some c)
    (h : Fails (copies inner known ⟨loopVariable var, c, collection.fold.span, body, span⟩
      (s.maxIterations - s.iterations) 0) s e t) :
    Fails (unrollLoop inner known var collection body span) s e t := by
  rw [unrollLoop]
  dsimp only
  rw [hc]
  exact h.bind _

theorem metered_unrollLoop {inner : Inner} (hinner : ∀ known stmts, Metered (inner known stmts))
    (known : Known) (var : Option Ident) (collection : Expr) (body : List Stmt) (span : Span) :
    Metered (unrollLoop inner known var collection body span) := by
  have hforward : inner.Forward := fun {known stmts s out t} h => (hinner known stmts s out t h).1
  intro s out t h
  obtain ⟨c, n, u, hc, hcopies, rfl⟩ := gives_unrollLoop.1 h
  let task : Task := ⟨loopVariable var, c, collection.fold.span, body, span⟩
  have hmetered := composed_metered.copies hinner known task
  obtain ⟨hlater, -⟩ := hmetered _ 0 _ _ _ hcopies
  refine ⟨hlater.trans ⟨rfl, Nat.le_refl _, fun _ => Array.mem_push_of_mem _⟩, fun bound => ?_⟩
  -- rounds enough for both bounds, under which the two runs can be compared
  let rounds := s.maxIterations + bound
  have hrounds : Gives (copies inner known task rounds 0) s (out, n) u :=
    (outcome_copies_of_le hforward known task _ _ 0 (by omega) (by omega)).trans hcopies
  have henough : outcome (copies inner known task (bound - s.iterations) 0) (s.withBound bound) =
      outcome (copies inner known task rounds 0) (s.withBound bound) := by
    refine outcome_copies_of_le hforward known task _ _ 0 ?_ ?_
    · show bound ≤ bound - s.iterations + s.iterations
      omega
    · show bound ≤ s.maxIterations + bound + s.iterations
      omega
  obtain ⟨hfits, hstops⟩ := (hmetered rounds 0 _ _ _ hrounds).2 bound
  constructor
  · intro hle
    exact gives_unrollLoop.2 ⟨c, n, u.withBound bound, hc, henough.trans (hfits hle), rfl⟩
  · intro hle hlt
    obtain ⟨var', span', v, hfails⟩ := hstops hle hlt
    exact ⟨var', span', v, fails_unrollLoop_of_copies hc (henough.trans hfails)⟩

/-- Unrolling depends on the limit only in whether it gets through. -/
theorem metered_run (stmts : List Stmt) : Metered (run stmts) :=
  composed_metered.unrollAt metered_unrollLoop _ [] stmts

theorem within_of_gives_run {stmts out : List Stmt} {bound : Nat}
    (h : Gives (run stmts) (new bound) out t) : Within bound t := by
  obtain ⟨us, hus⟩ :=
    composed_traced.unrollAt traced_unrollLoop (Stmt.loopDepthAll stmts + 1) [] stmts (new bound)
  have hwithin := (hus.within ⟨rfl, Nat.zero_le _⟩).2
  rwa [show outcome (unrollAt _ [] stmts) (new bound) = _ from h] at hwithin

/-- **A larger bound changes nothing** for a script that stays within the smaller one. -/
theorem gives_run_of_le {stmts out : List Stmt} {bound bound' : Nat} (hle : bound ≤ bound')
    (h : Gives (run stmts) (new bound) out t) :
    Gives (run stmts) (new bound') out (t.withBound bound') :=
  ((metered_run stmts _ _ _ h).2 bound').1 (Nat.le_trans (within_of_gives_run h).count hle)

end Unroller

end EdgeScript
