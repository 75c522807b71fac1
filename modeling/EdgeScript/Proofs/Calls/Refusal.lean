import EdgeScript.Proofs.Calls.Guard
import EdgeScript.Proofs.Calls.Standing
import EdgeScript.Proofs.Rule.Lowering

/-!
# Calls of declared functions

A call of a function that the script declares is expanded, if the function is an inline one, or
refused.  Writing looks the declarations up in the lowered script, so a call gets through only if
lowering has dropped every declaration of its function (`Options.Drops`).  Declarations outside of
chains and loops are never dropped, and inline functions leave no calls behind.
-/

set_option autoImplicit false

namespace EdgeScript

open Pass

/-! ## Collecting inline functions -/

theorem FunctionTable.mem_names_insert {table : FunctionTable} {name : String} {f : InlineFunction}
    {n : String} : n ∈ (table.insert name f).names ↔ n = name ∨ n ∈ table.names := by
  induction table with
  | nil => simp [insert, names]
  | cons entry rest ih =>
    obtain ⟨other, g⟩ := entry
    simp only [names] at ih
    rw [insert]
    split
    · rename_i heq
      simp [names, heq]
    · split
      · simp [names]
      · simp [names, ih, or_left_comm]

namespace Inliner

theorem gives_collectOne {d : InlineDeclaration} {s t : Inliner} {u : Unit}
    (h : Gives (collectOne d) s u t) :
    ∃ f, d.reduce = .ok f ∧ t.functions = s.functions.insert d.name f := by
  obtain ⟨f, _, hlift, hrest⟩ := gives_bind.1 h
  obtain ⟨hreduce, rfl⟩ := gives_lift.1 hlift
  rw [gives_get_bind] at hrest
  obtain ⟨_, _, hset, hnote⟩ := gives_bind.1 hrest
  obtain rfl := gives_set.1 hset
  refine ⟨f, hreduce, ?_⟩
  split at hnote
  · rw [gives_modify.1 hnote]
  · rw [(gives_pure.1 hnote).2]

/-- The table of an inliner only grows, and what has been collected is in it. -/
theorem mem_names_of_collect {ds : List InlineDeclaration} {s t : Inliner} {u : Unit}
    (h : Gives (collect ds) s u t) :
    s.functions.names ⊆ t.functions.names ∧
      ∀ d ∈ ds, d.name ∈ t.functions.names ∧ ∃ f, d.reduce = .ok f := by
  induction ds generalizing s with
  | nil =>
    rw [(gives_pure.1 h).2]
    exact ⟨List.Subset.refl _, fun _ hd => absurd hd List.not_mem_nil⟩
  | cons d ds ih =>
    obtain ⟨_, v, hone, hrest⟩ := gives_bind.1 h
    obtain ⟨f, hreduce, hinsert⟩ := gives_collectOne hone
    obtain ⟨hgrows, hall⟩ := ih hrest
    have hnames {n : String} (hn : n = d.name ∨ n ∈ s.functions.names) : n ∈ t.functions.names := by
      refine hgrows ?_
      rw [hinsert]
      exact FunctionTable.mem_names_insert.2 hn
    refine ⟨fun n hn => hnames (.inr hn), List.forall_mem_cons.2 ⟨?_, hall⟩⟩
    exact ⟨hnames (.inl rfl), f, hreduce⟩

end Inliner

/-! ## Functions that are called nowhere -/

/-- The function is called nowhere. -/
def Rule.silent (f : String) : Rule where
  atom a := ∀ e ∈ a.exprs, f ∉ e.calls
  cond e := f ∉ e.calls

theorem Rule.survives_silent {f : String} {g : Expr → Expr}
    (hg : ∀ e, f ∈ (g e).calls → f ∈ e.calls) : (Rule.silent f).Survives g where
  atom {a} h e he := by
    rw [Atom.exprs_mapExprs] at he
    obtain ⟨old, hold, rfl⟩ := List.mem_map.1 he
    exact fun hcall => h old hold (hg old hcall)
  cond {e} h hcall := h (hg e hcall)

theorem Rule.stable_silent (f : String) : (Rule.silent f).Stable where
  fold := survives_silent fun e => e.calls_fold f
  subst var value span := survives_silent fun e hcall => by
    -- A literal has no calls to bring in.
    rcases e.calls_subst _ f hcall with hcall | ⟨x, a, hbound, hcall⟩
    · exact hcall
    · obtain ⟨-, rfl⟩ : x = var ∧ Expr.lit value span = a := by
        simpa [Stmt.binding] using hbound
      cases hcall

namespace Inliner

/-- No call of an inline function is left in an expression. -/
theorem ensures_expand {table : FunctionTable} (hcycles : table.checkCycles = .ok ()) (e : Expr) :
    Ensures (fun s => s.functions = table) (expand e) fun r => ∀ n ∈ table.names, n ∉ r.calls := by
  obtain ⟨order, horder, hall⟩ := FunctionTable.exists_ordered hcycles
  refine ⟨fun {s t r} hs hrun => ?_⟩
  rw [expand, gives_get_bind] at hrun
  have hdepth : order.length < s.functions.length + 1 := by
    rw [hs]
    exact Nat.lt_succ_of_le horder.length_le
  obtain ⟨ht, hclean⟩ := (ensures_expandAt horder hdepth fun n _ => hall n).run hs hrun
  refine ⟨ht, fun n hn hcall => ?_⟩
  have hother := hclean n hcall
  rw [FunctionTable.contains_iff_mem_names.2 hn] at hother
  cases hother

theorem ensures_silent_expandStmts {table : FunctionTable} (hcycles : table.checkCycles = .ok ())
    {f : String} (hf : f ∈ table.names) (stmts : List Stmt) :
    Ensures (fun s => s.functions = table) (expandStmts stmts) (Rule.silent f).HoldsAll := by
  have hexpand (e : Expr) : Ensures (fun s => s.functions = table) (expand e) fun r =>
      f ∉ r.calls :=
    (ensures_expand hcycles e).mono fun _ h => h f hf
  refine ensures_expandStmts (r := ⟨fun _ => True, fun _ => True⟩) (fun a _ => ?_)
    (fun e _ => hexpand e) (fun e => (hexpand e).mono fun _ _ => trivial) ?_
  · exact (Atom.ensures_mapExprsM hexpand a).mono fun _ h => h.1
  · exact Rule.holdsAll_of_forall (fun _ => trivial) (fun _ => trivial) stmts

/-- Inline functions are called nowhere behind inlining. -/
theorem silent_of_gives_run {stmts out : List Stmt} {s t : Inliner} (h : Gives (run stmts) s out t)
    {d : InlineDeclaration} (hd : d ∈ Stmt.inlineDeclarationsAll stmts) :
    (Rule.silent d.name).HoldsAll out := by
  obtain ⟨u, v, expanded, hcollect, hcycles, hexpand, hout⟩ := exists_gives_of_run h
  have hname : d.name ∈ u.functions.names := ((mem_names_of_collect hcollect).2 d hd).1
  have hsilent := ((ensures_silent_expandStmts hcycles hname stmts).run rfl hexpand).2
  rcases hout with rfl | rfl
  · exact hsilent
  · exact hsilent.fold (Rule.stable_silent _).fold

/-- Everything else that stands outside of chains still does behind inlining. -/
theorem standing_of_gives_run {stmts out : List Stmt} {s t : Inliner}
    (h : Gives (run stmts) s out t) {f : String} (hf : f ∈ Stmt.standingAll true stmts)
    (hother : ∀ d ∈ Stmt.inlineDeclarationsAll stmts, d.name ≠ f) :
    f ∈ Stmt.standingAll true out := by
  obtain ⟨u, v, expanded, hcollect, -, hexpand, hout⟩ := exists_gives_of_run h
  have hretained : f ∈ Stmt.standingAll true expanded := by
    rcases ((retains_expandStmts stmts).run trivial hexpand).2 f hf with ⟨d, hd, hdeclares⟩ | hmem
    · obtain ⟨-, g, hreduce⟩ := (mem_names_of_collect hcollect).2 d hd
      rw [InlineDeclaration.declares_of_reduce hreduce, List.mem_singleton] at hdeclares
      exact absurd hdeclares.symm (hother d hd)
    · exact hmem
  rcases hout with rfl | rfl
  · exact hretained
  · exact Stmt.standingAll_subset_foldAll _ hretained

end Inliner

/-! ## What is called nowhere is not met -/

theorem Atom.written_subset_exprs (a : Atom) : a.written ⊆ a.exprs := by
  cases a with
  | inclusion kind options span =>
    intro e he
    obtain ⟨key, -, hvalue⟩ := List.mem_flatMap.1 he
    obtain ⟨o, ho, rfl⟩ := List.mem_map.1 hvalue
    exact List.mem_map_of_mem (List.mem_of_find?_eq_some (Option.mem_toList.1 ho))
  | _ => exact List.Subset.refl _

namespace Rule

variable {f : String}

mutual

theorem Holds.notMem_writtenCalls : ∀ {s : Stmt}, (silent f).Holds s → f ∉ s.writtenCalls
  | .atom a, h, hf => by
    obtain ⟨e, he, hcall⟩ := List.mem_flatMap.1 hf
    exact h e (a.written_subset_exprs he) hcall
  | .ifChain _ (some _) _, h, hf =>
    (List.mem_append.1 hf).elim h.1.notMem_writtenCallsBranches h.2.notMem_writtenCallsAll
  | .ifChain _ none _, h, hf => HoldsBranches.notMem_writtenCallsBranches h hf
  | .attempt _ (some _) _, h, hf =>
    (List.mem_append.1 hf).elim h.1.notMem_writtenCallsAll h.2.notMem_writtenCallsAll
  | .attempt _ none _, h, hf => HoldsAll.notMem_writtenCallsAll h hf
  | .block .., h, hf => HoldsAll.notMem_writtenCallsAll h hf

theorem HoldsAll.notMem_writtenCallsAll : ∀ {stmts : List Stmt}, (silent f).HoldsAll stmts →
    f ∉ Stmt.writtenCallsAll stmts
  | _ :: _, h, hf => (List.mem_append.1 hf).elim h.1.notMem_writtenCalls h.2.notMem_writtenCallsAll

theorem HoldsBranches.notMem_writtenCallsBranches : ∀ {branches : List (Branch Stmt)},
    (silent f).HoldsBranches branches → f ∉ Stmt.writtenCallsBranches branches
  | ⟨_, _, _⟩ :: _, h, hf =>
    (List.mem_append.1 hf).elim h.1 fun hf =>
      (List.mem_append.1 hf).elim h.2.1.notMem_writtenCallsAll h.2.2.notMem_writtenCallsBranches

end

end Rule

/-! ## Lowering -/

namespace Options

variable {options : Options} {stmts lowered : List Stmt} {f : String}

/-- Lowering drops every declaration of a function: there are some and none is left, though the
function was not expanded.  All of them stood in loops, or in chains that were folded. -/
structure Drops (options : Options) (stmts lowered : List Stmt) (f : String) : Prop where
  declared : Stmt.Declares stmts f
  gone : ¬ Stmt.Declares lowered f
  inside : f ∉ Stmt.standingAll options.folding stmts
  unexpanded : options.inlining = true →
    ∀ d ∈ Stmt.inlineDeclarationsAll (options.folded stmts), d.name ≠ f

theorem folding_of_inlining (h : options.inlining = true) : options.folding = true :=
  decide_eq_true (Nat.le_trans (by decide : foldLevel ≤ inlineLevel) (of_decide_eq_true h))

/-- An inline function is called nowhere in the lowered script. -/
theorem Lowers.notMem_writtenCalls (h : options.Lowers stmts lowered)
    (hinlining : options.inlining = true) {d : InlineDeclaration}
    (hd : d ∈ Stmt.inlineDeclarationsAll (options.folded stmts)) :
    d.name ∉ Stmt.writtenCallsAll lowered := by
  obtain ⟨inlined, hinlines, unroller, hunroll⟩ := h
  rw [Inlines, if_pos hinlining] at hinlines
  obtain ⟨inliner, hrun⟩ := hinlines
  have hsilent := Inliner.silent_of_gives_run hrun hd
  have hlowered :=
    ((Unroller.ensures_run (Rule.stable_silent d.name) hsilent).run trivial hunroll).2
  exact hlowered.notMem_writtenCallsAll

/-- What is declared where nothing is dropped is declared in the lowered script, inline functions
apart. -/
theorem Lowers.declares_of_standing (h : options.Lowers stmts lowered)
    (hstanding : f ∈ Stmt.standingAll options.folding stmts)
    (hother : options.inlining = true →
      ∀ d ∈ Stmt.inlineDeclarationsAll (options.folded stmts), d.name ≠ f) :
    Stmt.Declares lowered f := by
  obtain ⟨inlined, hinlines, unroller, hunroll⟩ := h
  have hfolded : f ∈ Stmt.standingAll options.folding (options.folded stmts) := by
    rw [folded]
    split
    · rename_i hfolding
      rw [hfolding] at hstanding ⊢
      exact Stmt.standingAll_subset_foldAll _ hstanding
    · exact hstanding
  have hinlined : f ∈ Stmt.standingAll options.folding inlined := by
    rw [Inlines] at hinlines
    split at hinlines
    · rename_i hinlining
      rw [folding_of_inlining hinlining] at hfolded ⊢
      obtain ⟨inliner, hrun⟩ := hinlines
      exact Inliner.standing_of_gives_run hrun hfolded (hother hinlining)
    · rwa [hinlines]
  have hlowered := ((Unroller.standing_run inlined).run trivial hunroll).2 hinlined
  exact Stmt.mem_declaredFunctionsAll_iff.1 (Stmt.standingAll_subset_declared _ hlowered)

/-- A function that is called in the lowered script is declared there, unless its declarations were
dropped. -/
theorem Lowers.declares_of_written (h : options.Lowers stmts lowered)
    (hdeclared : Stmt.Declares stmts f) (hwritten : f ∈ Stmt.writtenCallsAll lowered)
    (hdrops : ¬ options.Drops stmts lowered f) : Stmt.Declares lowered f := by
  by_contra hgone
  have hother : options.inlining = true →
      ∀ d ∈ Stmt.inlineDeclarationsAll (options.folded stmts), d.name ≠ f := by
    rintro hinlining d hd rfl
    exact h.notMem_writtenCalls hinlining hd hwritten
  have hinside : f ∉ Stmt.standingAll options.folding stmts :=
    fun hstanding => hgone (h.declares_of_standing hstanding hother)
  exact hdrops ⟨hdeclared, hgone, hinside, hother⟩

end Options

/-! ## Compilation -/

section Compilation

variable {options : Options} {loader : Loader} {file : Nat} {entry : Option Path}
  {s t : Compilation}
  {lowered : List Stmt}

/-- Where a call is met of a function that the script declares, writing fails, and it fails for such
a call if nothing else is wrong. -/
theorem Markup.error_of_written (options : Options) {stmts : List Stmt} {f : String}
    (hwritten : f ∈ Stmt.writtenCallsAll stmts) (hdeclared : Stmt.Declares stmts f) :
    ∃ e, (outcome (Markup.ofProgram options stmts) #[]).1 = .error e ∧
      ∀ markup notes, Gives (Markup.ofProgramWith [] options stmts) #[] markup notes →
        ∃ g ∈ Stmt.writtenCallsAll stmts, Stmt.Declares stmts g ∧
          ∃ span, e = .unsupported (.userCall g) span := by
  simp only [← Stmt.mem_declaredFunctionsAll_iff] at hdeclared ⊢
  have hguarded := Markup.guards_ofProgramWith (Stmt.declaredFunctionsAll stmts) options stmts #[]
  obtain ⟨e, herror, hrefused⟩ := hguarded.error_of_mem hwritten hdeclared
  refine ⟨e, ?_, fun markup notes hgives => hrefused (markup, notes) (by rw [ending, hgives]; rfl)⟩
  rw [Markup.ofProgram_eq]
  rw [ending] at herror
  generalize outcome (Markup.ofProgramWith _ options stmts) #[] = r at herror ⊢
  rcases r with ⟨e' | _, _⟩
  · cases herror
    rfl
  · cases herror

/-- Such a call in the lowered script makes compilation fail. -/
theorem Compilation.error_of_written
    (h : Gives (Compilation.lower options loader file entry) s lowered t) {f : String}
    (hwritten : f ∈ Stmt.writtenCallsAll lowered) (hdeclared : Stmt.Declares lowered f) :
    ∃ e, (outcome (Compilation.compile options loader file entry) s).1 = .error e ∧
      ∀ markup notes, Gives (Markup.ofProgramWith [] options lowered) #[] markup notes →
        ∃ g ∈ Stmt.writtenCallsAll lowered, Stmt.Declares lowered g ∧
          ∃ span, e = .unsupported (.userCall g) span := by
  obtain ⟨e, herror, hrefused⟩ := Markup.error_of_written options hwritten hdeclared
  refine ⟨e, ?_, hrefused⟩
  rw [Compilation.result_compile h, herror]
  rfl

/-- **Calls of declared functions are expanded or refused.**  A function that the script declares
once its imports are expanded, and that is called in what is written of the lowered script, makes
compilation fail unless lowering has dropped every declaration of it.  If nothing else is wrong,
what it fails with is that a call of a declared function has no markup.  The units come from a
loader of finitely many identities. -/
theorem calls_of_declared_functions_are_refused
    (h : Gives (Compilation.lower options loader file entry) s lowered t) :
    ∃ program expanded, Compilation.Stages options loader file entry s program expanded lowered ∧
      ∀ f, Stmt.Declares expanded f → f ∈ Stmt.writtenCallsAll lowered →
        options.Drops expanded lowered f ∨
        ∃ e, (outcome (Compilation.compile options loader file entry) s).1 = .error e ∧
          ∀ markup notes, Gives (Markup.ofProgramWith [] options lowered) #[] markup notes →
            ∃ g ∈ Stmt.writtenCallsAll lowered, Stmt.Declares lowered g ∧
              ∃ span, e = .unsupported (.userCall g) span := by
  obtain ⟨program, expanded, hstages⟩ := Compilation.exists_stages h
  refine ⟨program, expanded, hstages, fun f hf hwritten => or_iff_not_imp_left.2 fun hdrops => ?_⟩
  have hdeclared := hstages.lowers.declares_of_written hf hwritten hdrops
  exact Compilation.error_of_written h hwritten hdeclared

/-- What a script declares is found by reading it and expanding its imports. -/
theorem Compilation.Stages.declaredFunctionsAll_eq {program : Program} {expanded : List Stmt}
    (h : Stages options loader file entry s program expanded lowered) {names : List String}
    (hfound : succeeds (Program.parse (s.sources.text file) file) (fun program =>
      succeeds (outcome (Importer.run loader entry program.body) (Importer.new s.sources)).1
        fun expanded => Stmt.declaredFunctionsAll expanded == names) = true) :
    Stmt.declaredFunctionsAll expanded = names := by
  obtain ⟨program', hparsed, hbehind⟩ := exists_of_succeeds hfound
  obtain rfl : program' = program := Except.ok.inj (hparsed.symm.trans h.parsed)
  obtain ⟨expanded', _, himported', hnames⟩ := exists_gives_of_succeeds hbehind
  obtain ⟨importer, himported⟩ := h.imported
  obtain ⟨rfl, -⟩ := himported'.unique himported
  exact beq_iff_eq.1 hnames

/-- A call that is left in the argument of one that is expanded. -/
theorem calls_of_declared_functions_are_refused_argument :
    let text :=
      "function inline g(a) \x7b return a; \x7d function f() \x7b\x7d if (b) \x7b x = g(f()); \x7d"
    let s : Compilation := { sources := ⟨#[⟨"main.js", none, text⟩]⟩ }
    ∃ lowered t span, Gives (Compilation.lower {} (UnitTable.loader []) 0 none) s lowered t ∧
      Stmt.writtenCallsAll lowered = ["f"] ∧
      (outcome (Compilation.compile {} (UnitTable.loader []) 0 none) s).1 =
        .error (.unsupported (.userCall "f") span) := by
  intro text s
  have hrun : succeeds (outcome (Compilation.lower {} (UnitTable.loader []) 0 none) s).1
      (fun lowered =>
        (Stmt.writtenCallsAll lowered == ["f"] && Stmt.declaredFunctionsAll lowered == ["f"]) &&
        succeeds (outcome (Markup.ofProgramWith [] {} lowered) #[]).1 fun _ => true) = true := by
    decide +kernel
  obtain ⟨lowered, t, hlower, hlowered⟩ := exists_gives_of_succeeds hrun
  rw [Bool.and_eq_true, Bool.and_eq_true, beq_iff_eq, beq_iff_eq] at hlowered
  obtain ⟨⟨hwritten, hdeclared⟩, hgenerates⟩ := hlowered
  obtain ⟨markup, notes, hmarkup, -⟩ := exists_gives_of_succeeds hgenerates
  obtain ⟨program, expanded, hstages, hcalls⟩ := calls_of_declared_functions_are_refused hlower
  have hnames : Stmt.declaredFunctionsAll expanded = ["g", "f"] :=
    hstages.declaredFunctionsAll_eq (by decide +kernel)
  have hf : Stmt.Declares expanded "f" :=
    Stmt.mem_declaredFunctionsAll_iff.1 (by rw [hnames]; decide)
  rcases hcalls "f" hf (by rw [hwritten]; decide) with hdrops | ⟨e, herror, hrefused⟩
  · exact absurd (Stmt.mem_declaredFunctionsAll_iff.1 (by rw [hdeclared]; decide)) hdrops.gone
  · obtain ⟨g, hg, -, span, rfl⟩ := hrefused markup notes hmarkup
    rw [hwritten, List.mem_singleton] at hg
    exact ⟨lowered, t, span, hlower, hwritten, hg ▸ herror⟩

/-- A declaration that is dropped with its branch takes the refusal of its calls with it. -/
theorem call_of_dropped_function_is_written :
    let s : Compilation :=
      { sources := ⟨#[⟨"main.js", none, "if (0) \x7b function f() \x7b\x7d \x7d x = f();"⟩]⟩ }
    ∃ program expanded lowered text,
      Compilation.Stages {} (UnitTable.loader []) 0 none s program expanded lowered ∧
      Stmt.Declares expanded "f" ∧ "f" ∈ Stmt.writtenCallsAll lowered ∧
      (outcome (Compilation.compile {} (UnitTable.loader []) 0 none) s).1 = .ok text ∧
      text = "<esi:assign name=\"x\" value=\"$f()\"/>" := by
  intro s
  have hrun : succeeds (outcome (Compilation.lower {} (UnitTable.loader []) 0 none) s).1
      (fun lowered => Stmt.writtenCallsAll lowered == ["f"]) = true := by decide +kernel
  have hcompiles : succeeds (outcome (Compilation.compile {} (UnitTable.loader []) 0 none) s).1
      (fun text => text == "<esi:assign name=\"x\" value=\"$f()\"/>") = true := by decide +kernel
  obtain ⟨lowered, t, hlower, hwritten⟩ := exists_gives_of_succeeds hrun
  obtain ⟨text, hresult, htext⟩ := exists_of_succeeds hcompiles
  obtain ⟨program, expanded, hstages⟩ := Compilation.exists_stages hlower
  have hnames : Stmt.declaredFunctionsAll expanded = ["f"] :=
    hstages.declaredFunctionsAll_eq (by decide +kernel)
  refine ⟨program, expanded, lowered, text, hstages, ?_, ?_, hresult, beq_iff_eq.1 htext⟩
  · refine Stmt.mem_declaredFunctionsAll_iff.1 ?_
    rw [hnames]
    decide
  · rw [beq_iff_eq.1 hwritten]
    decide

end Compilation

end EdgeScript
