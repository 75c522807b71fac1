import EdgeScript.Compiler
import EdgeScript.Proofs.Pass

/-!
# The stages of a compilation

A compilation that gives markup has read a script, expanded its imports, lowered it and written what
was left.  The lemmas here take it apart into these stages, and lowering into its passes: whatever
the options, a script is folded or not, then its calls are expanded or not, and then its loops are
unrolled.
-/

set_option autoImplicit false

namespace EdgeScript

open Pass

/-! ## Lowering -/

/-- A script as the passes behind folding find it. -/
def Options.folded (options : Options) (stmts : List Stmt) : List Stmt :=
  if options.folding then Stmt.foldAll stmts else stmts

/-- The script `out` is what unrolling finds of `stmts`. -/
def Options.Inlines (options : Options) (stmts out : List Stmt) : Prop :=
  if options.inlining then
    ∃ inliner, Gives (Inliner.run stmts) (Inliner.new options.folding) out inliner
  else out = stmts

/-- The passes make `lowered` of the script `stmts`. -/
def Options.Lowers (options : Options) (stmts lowered : List Stmt) : Prop :=
  ∃ inlined, options.Inlines (options.folded stmts) inlined ∧
    ∃ unroller, Gives (Unroller.run inlined)
      (Unroller.new options.maxLoopIterations) lowered unroller

/-- The result of another pass that is run from a state of its own. -/
theorem Pass.exists_gives_of_lift {σ τ α : Type} {x : Pass τ α} {start : τ} {s t : σ} {a : α}
    (h : Gives (liftM (outcome x start).1 : Pass σ α) s a t) : ∃ u, Gives x start a u :=
  ⟨(outcome x start).2, Prod.ext (gives_lift.1 h).1 rfl⟩

/-- The same with something done before and behind it. -/
theorem Pass.exists_gives_of_nested {σ τ α : Type} {x : Pass τ α} {start : τ}
    {before : Pass σ PUnit} {after : α → Pass σ PUnit} {s t : σ} {a : α}
    (h : Gives (do
      before
      let a ← (liftM (outcome x start).1 : Pass σ α)
      after a
      return a) s a t) : ∃ u, Gives x start a u := by
  obtain ⟨_, _, -, hresult⟩ := gives_bind.1 h
  obtain ⟨out, _, hout, hafter⟩ := gives_bind.1 hresult
  obtain ⟨_, _, -, hpure⟩ := gives_bind.1 hafter
  obtain ⟨rfl, -⟩ := gives_pure.1 hpure
  exact exists_gives_of_lift hout

namespace Lowering

variable {stmts out : List Stmt} {s t : Lowering}

theorem exists_gives_inline {fold : Bool} (h : Gives (inline fold stmts) s out t) :
    ∃ inliner, Gives (Inliner.run stmts) (Inliner.new fold) out inliner :=
  exists_gives_of_nested h

theorem exists_gives_unroll {maxIterations : Nat} (h : Gives (unroll maxIterations stmts) s out t) :
    ∃ unroller, Gives (Unroller.run stmts) (Unroller.new maxIterations) out unroller :=
  exists_gives_of_nested h

theorem gives_runPasses_cons {pass : LoweringPass} {rest : List LoweringPass}
    (h : Gives (runPasses (pass :: rest) stmts) s out t) :
    ∃ between s' s'', Gives (match pass with
      | .folding => return Stmt.foldAll stmts
      | .inlining fold => inline fold stmts
      | .unrolling maxIterations => unroll maxIterations stmts) s' between s'' ∧
      Gives (runPasses rest between) s'' out t := by
  simp only [runPasses, runPass, gives_bind] at h
  obtain ⟨between, s'', ⟨_, s', -, hpass⟩, hrest⟩ := h
  exact ⟨between, s', s'', hpass, hrest⟩

/-- **The options choose among the first two passes, and unrolling is the last.** -/
theorem lowers_of_gives {options : Options} (h : Gives (runPasses options.passes stmts) s out t) :
    options.Lowers stmts out := by
  have hlast {stmts : List Stmt} {s : Lowering}
      (h : Gives (runPasses [.unrolling options.maxLoopIterations] stmts) s out t) :
      ∃ unroller, Gives (Unroller.run stmts)
        (Unroller.new options.maxLoopIterations) out unroller := by
    obtain ⟨_, _, _, hunroll, hrest⟩ := gives_runPasses_cons h
    obtain ⟨rfl, rfl⟩ := gives_pure.1 hrest
    exact exists_gives_unroll hunroll
  have hbehind {stmts : List Stmt} {s : Lowering}
      (h : Gives (runPasses ((if options.inlining then [.inlining options.folding] else []) ++
        [.unrolling options.maxLoopIterations]) stmts) s out t) :
      ∃ inlined, options.Inlines stmts inlined ∧
        ∃ unroller, Gives (Unroller.run inlined) (Unroller.new options.maxLoopIterations) out
          unroller := by
    unfold Options.Inlines
    split at h
    · obtain ⟨inlined, _, _, hinline, hrest⟩ := gives_runPasses_cons h
      exact ⟨inlined, by simpa [*] using exists_gives_inline hinline, hlast hrest⟩
    · exact ⟨stmts, by simp [*], hlast h⟩
  rw [Options.passes, List.append_assoc] at h
  unfold Options.Lowers Options.folded
  split at h
  · obtain ⟨_, _, _, hfold, hrest⟩ := gives_runPasses_cons h
    obtain ⟨rfl, rfl⟩ := gives_pure.1 hfold
    simpa [*] using hbehind hrest
  · simpa [*] using hbehind h

end Lowering

/-! ## Compilations -/

namespace Compilation

variable {options : Options} {loader : Loader} {file : Nat} {entry : Option Path}
  {s t : Compilation}
  {lowered : List Stmt}

/-- A script, the same with its imports expanded, and what the passes make of that. -/
structure Stages (options : Options) (loader : Loader) (file : Nat) (entry : Option Path)
    (s : Compilation) (program : Program) (expanded lowered : List Stmt) : Prop where
  parsed : Program.parse (s.sources.text file) file = .ok program
  imported : ∃ importer,
    Gives (Importer.run loader entry program.body) (Importer.new s.sources) expanded importer
  lowers : options.Lowers expanded lowered

theorem exists_gives_expandImports {stmts expanded : List Stmt}
    (h : Gives (expandImports loader entry stmts) s expanded t) :
    ∃ importer, Gives (Importer.run loader entry stmts)
      (Importer.new s.sources) expanded importer := by
  rw [expandImports, gives_get_bind] at h
  obtain ⟨_, _, -, hresult⟩ := gives_bind.1 h
  obtain ⟨out, _, hout, hafter⟩ := gives_bind.1 hresult
  obtain ⟨_, _, -, hnotes⟩ := gives_bind.1 hafter
  obtain ⟨_, _, -, hpure⟩ := gives_bind.1 hnotes
  obtain ⟨rfl, -⟩ := gives_pure.1 hpure
  exact exists_gives_of_lift hout

theorem lowers_of_gives_runPasses {stmts : List Stmt}
    (h : Gives (runPasses options stmts) s lowered t) : options.Lowers stmts lowered := by
  obtain ⟨_, hpasses⟩ := exists_gives_of_nested h
  exact Lowering.lowers_of_gives hpasses

/-- **Where lowering gives statements, it went through its stages.** -/
theorem exists_stages (h : Gives (lower options loader file entry) s lowered t) :
    ∃ program expanded, Stages options loader file entry s program expanded lowered := by
  rw [lower, gives_get_bind] at h
  obtain ⟨program, _, hparse, hrest⟩ := gives_bind.1 h
  obtain ⟨hparsed, rfl⟩ := gives_lift.1 hparse
  obtain ⟨expanded, _, himports, hpasses⟩ := gives_bind.1 hrest
  exact ⟨program, expanded, hparsed, exists_gives_expandImports himports,
    lowers_of_gives_runPasses hpasses⟩

/-- The result of a compilation is that of writing what lowering gives. -/
theorem result_compile (h : Gives (lower options loader file entry) s lowered t) :
    (outcome (compile options loader file entry) s).1 =
      (outcome (Markup.ofProgram options lowered) #[]).1.map Markup.textAll := by
  rw [compile, outcome_bind, h]
  change (outcome (do
    addNotes (outcome (Markup.ofProgram options lowered) #[]).2
    let markup ← (liftM (outcome (Markup.ofProgram options lowered) #[]).1 :
      Pass Compilation (List Markup))
    return Markup.textAll markup) t).1 = _
  generalize outcome (Markup.ofProgram options lowered) #[] = r
  rcases r with ⟨_ | _, _⟩ <;> rfl

end Compilation

end EdgeScript
