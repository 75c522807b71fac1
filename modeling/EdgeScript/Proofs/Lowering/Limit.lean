import EdgeScript.Proofs.Lowering.Idempotent
import EdgeScript.Proofs.Output.Related
import EdgeScript.Proofs.Unrolling.Limit

/-!
# The limit on loops

The options bound how many copies of loop bodies a unit may have, and with the same number how long
a list may be that a range is written as.  A larger number takes nothing away: what is compiled
under one bound is compiled under every larger one, to the same markup and with the same counters
and notes.  Unrolling and writing are followed apart, the first by `Unroller.gives_run_of_le`, the
second by comparing what is written under two limits.
-/

set_option autoImplicit false

namespace EdgeScript

open Pass

/-! ## Markup -/

namespace Markup

/-- What is written is written under a larger limit too. -/
theorem compared_of_le (functions : List String) {n n' : Nat} (h : n ≤ n') :
    ComparedWhole (fun _ => True) functions n n' fun x y => ∀ a, x = .ok a → y = .ok a where
  ok _ := fun _ ha => ha
  bind {_ _ x y f g} hx hf b hb := by
    cases x with
    | error e => cases hb
    | ok a =>
      rw [hx a rfl]
      exact hf a b hb
  refused _ _ _ _ _ ha := by cases ha
  leftover _ _ _ _ _ ha := by cases ha
  range first last _ _ text htext := by
    unfold renderRange at htext ⊢
    split at htext
    · split at htext
      · cases htext
      · rename_i hfits
        rw [if_neg (by simp only at hfits ⊢; omega)]
        exact htext
    · cases htext

theorem gives_ofProgram_of_le {options : Options} {m m' : Nat} (h : m ≤ m') {stmts : List Stmt}
    {markup : List Markup} {notes notes' : Array Note}
    (hgives : Gives (ofProgram { options with maxLoopIterations := m } stmts) notes markup notes') :
    Gives (ofProgram { options with maxLoopIterations := m' } stmts) notes markup notes' := by
  have hfollows := compared_of_le (Stmt.declaredFunctionsAll stmts) h
  rw [gives_iff_ending] at hgives ⊢
  refine hfollows.pass_bind (hfollows.pass_lift fun _ hcaptures => hcaptures)
    (fun _ => ?_) notes _ hgives
  exact hfollows.pass_bind_pure (hfollows.ofStmts fun _ _ => trivial)

end Markup

/-! ## Lowering -/

namespace Lowering

theorem gives_runPasses_append {passes rest : List LoweringPass} {stmts out : List Stmt}
    {s t : Lowering} :
    Gives (runPasses (passes ++ rest) stmts) s out t ↔
      ∃ between u, Gives (runPasses passes stmts) s between u ∧
        Gives (runPasses rest between) u out t := by
  induction passes generalizing stmts s with
  | nil => simp [runPasses]
  | cons pass passes ih =>
    simp only [List.cons_append, runPasses, gives_bind, ih]
    constructor
    · rintro ⟨first, u, hfirst, between, v, hpasses, hrest⟩
      exact ⟨between, v, ⟨first, u, hfirst, hpasses⟩, hrest⟩
    · rintro ⟨between, v, ⟨first, u, hfirst, hpasses⟩, hrest⟩
      exact ⟨first, u, hfirst, between, v, hpasses, hrest⟩

/-- Only the last pass has to do with the bound. -/
theorem gives_runPasses_of_le {options : Options} {m m' : Nat} (h : m ≤ m') {stmts out : List Stmt}
    {s t : Lowering}
    (hgives : Gives (runPasses { options with maxLoopIterations := m }.passes stmts) s out t) :
    Gives (runPasses { options with maxLoopIterations := m' }.passes stmts) s out t := by
  obtain ⟨between, u, hfirst, hunroll⟩ := gives_runPasses_append.1 hgives
  obtain ⟨unroller, hrun, rfl⟩ := gives_runPasses_unrolling.1 hunroll
  refine gives_runPasses_append.2 ⟨between, u, hfirst, gives_runPasses_unrolling.2 ?_⟩
  exact ⟨_, Unroller.gives_run_of_le h hrun, rfl⟩

end Lowering

/-! ## Compilations -/

namespace Compilation

variable {options : Options} {m m' : Nat} {s t : Compilation}

theorem gives_runPasses_of_le (h : m ≤ m') {stmts out : List Stmt}
    (hgives : Gives (runPasses { options with maxLoopIterations := m } stmts) s out t) :
    Gives (runPasses { options with maxLoopIterations := m' } stmts) s out t := by
  obtain ⟨u, hpasses⟩ := exists_gives_of_nested hgives
  have hsame :
      (Lowering.runPasses { options with maxLoopIterations := m' }.passes stmts).run.run {} =
      (Lowering.runPasses { options with maxLoopIterations := m }.passes stmts).run.run {} :=
    (Lowering.gives_runPasses_of_le h hpasses).trans hpasses.symm
  rw [runPasses] at hgives ⊢
  rwa [hsame]

theorem gives_generate_of_le (h : m ≤ m') {stmts : List Stmt} {text : String}
    (hgives : Gives (generate { options with maxLoopIterations := m } stmts) s text t) :
    Gives (generate { options with maxLoopIterations := m' } stmts) s text t := by
  rw [generate] at hgives ⊢
  obtain ⟨_, _, -, hrest⟩ := gives_bind.1 hgives
  obtain ⟨markup, _, hmarkup, -⟩ := gives_bind.1 hrest
  obtain ⟨notes, hprogram⟩ := exists_gives_of_lift hmarkup
  have hsame : (Markup.ofProgram { options with maxLoopIterations := m' } stmts).run.run #[] =
      (Markup.ofProgram { options with maxLoopIterations := m } stmts).run.run #[] :=
    (Markup.gives_ofProgram_of_le h hprogram).trans hprogram.symm
  rwa [hsame]

theorem gives_compile_of_le (h : m ≤ m') {loader : Loader} {file : Nat} {entry : Option Path}
    {text : String}
    (hgives : Gives (compile { options with maxLoopIterations := m } loader file entry) s text t) :
    Gives (compile { options with maxLoopIterations := m' } loader file entry) s text t := by
  obtain ⟨lowered, u, hlower, hgenerate⟩ := gives_bind.1 hgives
  rw [lower, gives_get_bind] at hlower
  obtain ⟨program, v, hparse, hrest⟩ := gives_bind.1 hlower
  obtain ⟨expanded, w, himports, hpasses⟩ := gives_bind.1 hrest
  refine gives_bind.2 ⟨lowered, u, ?_, gives_generate_of_le h hgenerate⟩
  rw [lower, gives_get_bind]
  exact gives_bind.2 ⟨program, v, hparse,
    gives_bind.2 ⟨expanded, w, himports, gives_runPasses_of_le h hpasses⟩⟩

end Compilation

theorem CompiledUnit.compile_of_le {options : Options} {m m' : Nat} (h : m ≤ m') {loader : Loader}
    {name : String} {sources : SourceMap} {file : Nat} {entry : Option Path}
    (hok : (compile { options with maxLoopIterations := m } loader name sources file entry).isOk =
      true) :
    compile { options with maxLoopIterations := m' } loader name sources file entry =
      compile { options with maxLoopIterations := m } loader name sources file entry := by
  rw [compile] at hok ⊢
  rw [compile]
  rcases houtcome :
      (Compilation.compile { options with maxLoopIterations := m } loader file entry).run.run
        { sources, notes := #[.compiling name] } with ⟨_ | text, t⟩
  · rw [houtcome] at hok
    cases hok
  · have hsame :
        (Compilation.compile { options with maxLoopIterations := m' } loader file entry).run.run
          { sources, notes := #[.compiling name] } = _ :=
      Compilation.gives_compile_of_le h houtcome
    rw [hsame]

/-! ## The limit -/

/-- **The bound on the copies of loop bodies is exact.**  Let `m` be no larger than `m'`.  An
unroller with the bound `m` goes through any scripts, whether they fail or not, by steps that count
one copy each or none, and at no point has it made more than `m`.  A script that it unrolls is
unrolled alike under `m'`.  A script that is unrolled under `m'` is unrolled under `m` exactly if
the copies made are no more than `m`, and is refused for the bound otherwise.  A text that is
compiled under `m` is compiled under `m'` with the same outcome in every part. -/
theorem iteration_bound_is_exact {m m' : Nat} (h : m ≤ m') :
    (∀ scripts, ∃ trace, Unroller.Trace (.new m) trace (Unroller.afterAll scripts (.new m)) ∧
      ∀ u ∈ Unroller.new m :: trace, u.iterations ≤ m) ∧
    (∀ stmts out t, Gives (Unroller.run stmts) (.new m) out t →
      Gives (Unroller.run stmts) (.new m') out { t with maxIterations := m' }) ∧
    (∀ stmts out t, Gives (Unroller.run stmts) (.new m') out t →
      ((∃ out' t', Gives (Unroller.run stmts) (.new m) out' t') ↔ t.iterations ≤ m) ∧
      (m < t.iterations →
        ∃ var span u,
          Fails (Unroller.run stmts) (.new m) (.limitExceeded (.iterations var m) span) u)) ∧
    ∀ (options : Options) loader name text,
      (CompiledUnit.ofSource { options with maxLoopIterations := m } loader name text).isOk = true →
      CompiledUnit.ofSource { options with maxLoopIterations := m' } loader name text =
        CompiledUnit.ofSource { options with maxLoopIterations := m } loader name text := by
  have hnew : Unroller.Within m (.new m) := ⟨rfl, Nat.zero_le m⟩
  refine ⟨fun scripts => ?_, fun stmts out t => Unroller.gives_run_of_le h,
    fun stmts out t hgives => ?_,
    fun options loader name text hok => CompiledUnit.compile_of_le h hok⟩
  · obtain ⟨trace, htrace⟩ := Unroller.exists_trace_afterAll scripts (.new m)
    refine ⟨trace, htrace, fun u hu => ?_⟩
    rcases List.mem_cons.1 hu with rfl | hu
    · exact hnew.count
    · exact ((htrace.within hnew).1 u hu).count
  · obtain ⟨hfits, hstops⟩ := (Unroller.metered_run stmts _ _ _ hgives).2 m
    refine ⟨⟨fun ⟨out', t', hgives'⟩ => ?_, fun hle => ⟨out, _, hfits hle⟩⟩, hstops (Nat.zero_le m)⟩
    -- both runs come to the same end, the one under `m` within its bound
    obtain ⟨-, hsame⟩ := hgives.unique (Unroller.gives_run_of_le h hgives')
    rw [hsame]
    exact (Unroller.within_of_gives_run hgives').count

/-- Two loops, one in the other, and a third behind them make eight copies in all. -/
theorem iteration_bound_is_exact_nestedLoops :
    let text :=
      "for (i of [1 .. 2]) \x7b for (j of [3, 4]) \x7b print(i, j); \x7d \x7d " ++
        "for (k of [5, 6]) \x7b print(k); \x7d"
    let loader := UnitTable.loader []
    (∃ program out t, Program.parse text 0 = .ok program ∧
      Gives (Unroller.run program.body) (.new 9) out t ∧ t.iterations = 8 ∧
      (∃ out' t', Gives (Unroller.run program.body) (.new 8) out' t') ∧
      ∃ var span u, Fails (Unroller.run program.body) (.new 7)
        (.limitExceeded (.iterations var 7) span) u) ∧
    (CompiledUnit.ofSource { maxLoopIterations := 8 } loader "unit" text).isOk = true ∧
    CompiledUnit.ofSource { maxLoopIterations := 9 } loader "unit" text =
      CompiledUnit.ofSource { maxLoopIterations := 8 } loader "unit" text := by
  intro text loader
  have hruns : succeeds (Program.parse text 0) (fun program =>
      succeeds (outcome (Unroller.run program.body) (.new 9)).1 (fun _ => true) &&
        (outcome (Unroller.run program.body) (.new 9)).2.iterations == 8) = true := by
    decide +kernel
  have hok : (CompiledUnit.ofSource { maxLoopIterations := 8 } loader "unit" text).isOk = true := by
    decide +kernel
  obtain ⟨program, hparse, hbehind⟩ := exists_of_succeeds hruns
  rw [Bool.and_eq_true, beq_iff_eq] at hbehind
  obtain ⟨out, hout, -⟩ := exists_of_succeeds hbehind.1
  have hgives : Gives (Unroller.run program.body) (.new 9) out
      (outcome (Unroller.run program.body) (.new 9)).2 := Prod.ext hout rfl
  obtain ⟨-, -, height, hunits⟩ := iteration_bound_is_exact (show 8 ≤ 9 by decide)
  obtain ⟨-, -, hseven, -⟩ := iteration_bound_is_exact (show 7 ≤ 9 by decide)
  refine ⟨⟨program, out, _, hparse, hgives, hbehind.2, (height _ _ _ hgives).1.2 ?_,
    (hseven _ _ _ hgives).2 ?_⟩, hok, hunits {} loader "unit" text hok⟩
  · exact Nat.le_of_eq hbehind.2
  · exact Nat.lt_of_lt_of_eq (by decide) hbehind.2.symm

end EdgeScript
