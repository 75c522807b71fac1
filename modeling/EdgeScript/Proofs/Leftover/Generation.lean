import EdgeScript.Proofs.Captures.Misplaced
import EdgeScript.Proofs.Leftover.Expansion
import EdgeScript.Proofs.Leftover.Lowering
import EdgeScript.Proofs.Output.Related

/-!
# Nothing is left over

The generation of markup refuses loops, jumps and imports that are still there, and raw output of
something that is no literal.  The stages before it see to it that it never has to: what a
compilation hands to it has none of them outside of the bodies of functions
(`Compilation.clean_lower`), and no stage complains of them (`nothing_is_left_over`).
-/

set_option autoImplicit false

namespace EdgeScript

open Pass

/-! ## Captures and expressions -/

theorem CaptureScope.Misplaces.clean {P : Span → Prop} {r : Except Error Unit} (h : Misplaces P r) :
    CleanResult r fun _ => True := by
  cases r with
  | ok a => trivial
  | error e =>
    obtain ⟨what, span, rfl, -⟩ := h
    rfl

namespace Markup

/-- No expression is refused as something that is left over. -/
theorem compared_clean (functions : List String) (n : Nat) :
    Compared (fun _ => True) functions n n fun x _ => CleanResult x fun _ => True where
  ok _ := trivial
  bind hx hrest := hx.bind fun a _ => hrest a
  refused _ _ hwhat _ := hwhat
  range first last span _ := by
    unfold renderRange
    split
    · split
      · rfl
      · trivial
    · rfl

end Markup

theorem CleanResult.mapM {α β : Type} {f : α → Except Error β} {l : List α}
    (h : ∀ x ∈ l, CleanResult (f x) fun _ => True) : CleanResult (l.mapM f) fun _ => True :=
  (Markup.compared_clean [] 0).mapM (g := f) h

namespace Markup

variable (ctx : RenderContext)

theorem cleanResult_render (style : Style) (e : Expr) :
    CleanResult (e.render ctx style) fun _ => True :=
  (compared_clean ctx.functions ctx.maxListLength).render style fun _ _ => trivial

/-! ## Statements -/

/-- Raw output of literals is not refused. -/
theorem cleanResult_rawText {e : Expr} (h : e.literal?.isSome = true) :
    CleanResult (rawText e) fun _ => True := by
  cases e with
  | lit value span => cases value <;> trivial
  | _ => cases h

theorem cleanResult_ofOutput {kind : OutputKind} {args : List Expr} {span : Span} {a : Allowed}
    (h : Atom.within a (.output kind args span) = true) :
    CleanResult (ofOutput ctx kind args) fun _ => True := by
  cases kind with
  | printRaw =>
    rw [Atom.within, List.all_eq_true] at h
    exact (CleanResult.mapM fun e he => cleanResult_rawText (h e he)).bind fun _ _ => trivial
  | print =>
    exact (CleanResult.mapM fun e _ => cleanResult_render ctx .text e).bind fun _ _ => trivial
  | printVars =>
    exact (CleanResult.mapM fun e _ => cleanResult_render ctx .text e).bind fun _ _ => trivial

theorem clean_ofAtom {a : Atom} (h : a.within .nothing = true) :
    Clean (ofAtom ctx a) fun _ => True := by
  have hclean := compared_clean ctx.functions ctx.maxListLength
  cases a with
  | declare name value span =>
    cases value with
    | none => exact clean_pure trivial
    | some value =>
      have hassign : CleanResult (ofAssign ctx name none value) fun _ => True :=
        hclean.ofAssign (fun _ _ _ _ => trivial) fun _ _ => trivial
      exact (clean_lift hassign).seq fun _ => clean_pure trivial
  | assign target key value span =>
    have hassign : CleanResult (ofAssign ctx target key value) fun _ => True :=
      hclean.ofAssign (fun _ _ _ _ => trivial) fun _ _ => trivial
    exact (clean_lift hassign).seq fun _ => clean_pure trivial
  | expr e =>
    refine (clean_lift (cleanResult_render ctx .expression e)).seq fun text => ?_
    split
    · exact clean_pure trivial
    · exact (clean_modify _).seq fun _ => clean_pure trivial
  | ret value span => cases h
  | inclusion kind options span =>
    refine (clean_lift (P := fun _ => True) ?_).seq fun _ => clean_pure trivial
    refine (CleanResult.mapM fun key _ => ?_).bind fun _ _ => trivial
    exact hclean.optionAttributes (fun _ _ _ _ => trivial) key
  | output kind args span => exact clean_lift (cleanResult_ofOutput ctx h)
  | comment text span => exact clean_pure trivial

mutual

theorem clean_ofStmt : ∀ {s}, Stmt.within .nothing s = true → Clean (ofStmt ctx s) fun _ => True
  | .atom _, h => by
    rw [Stmt.within] at h
    rw [ofStmt]
    exact clean_ofAtom ctx h
  | .function _ _ isInline _ _, _ => by
    rw [ofStmt]
    split
    · exact (clean_modify _).seq fun _ => clean_pure trivial
    · exact clean_pure trivial
  | .ifChain branches (some body) _, h => by
    rw [Stmt.within, Bool.and_eq_true] at h
    rw [ofStmt]
    exact (clean_ofBranches h.1).seq fun _ => (clean_ofStmts h.2).seq fun _ => clean_pure trivial
  | .ifChain branches none _, h => by
    rw [Stmt.within] at h
    rw [ofStmt]
    exact (clean_ofBranches h).seq fun _ => clean_pure trivial
  | .attempt body (some handler) _, h => by
    rw [Stmt.within, Bool.and_eq_true] at h
    rw [ofStmt]
    exact (clean_ofStmts h.1).seq fun _ => (clean_ofStmts h.2).seq fun _ => clean_pure trivial
  | .attempt body none _, h => by
    rw [Stmt.within] at h
    rw [ofStmt]
    exact (clean_ofStmts h).seq fun _ => clean_pure trivial
  | .block body _, h => by
    rw [Stmt.within] at h
    rw [ofStmt]
    exact clean_ofStmts h
  | .forLoop .., h => by
    rw [Stmt.within, Bool.and_eq_true] at h
    cases h.1
  | .breakLoop _, h => by
    rw [Stmt.within] at h
    cases h
  | .require .., h => by
    rw [Stmt.within] at h
    cases h

theorem clean_ofStmts :
    ∀ {stmts}, Stmt.withinAll .nothing stmts = true → Clean (ofStmts ctx stmts) fun _ => True
  | [], _ => by
    rw [ofStmts]
    exact clean_pure trivial
  | s :: rest, h => by
    rw [Stmt.withinAll, Bool.and_eq_true] at h
    rw [ofStmts]
    exact (clean_ofStmt h.1).seq fun _ => (clean_ofStmts h.2).seq fun _ => clean_pure trivial

theorem clean_ofBranches :
    ∀ {branches}, Stmt.withinBranches .nothing branches = true →
      Clean (ofBranches ctx branches) fun _ => True
  | [], _ => by
    rw [ofBranches]
    exact clean_pure trivial
  | ⟨cond, body, _⟩ :: rest, h => by
    rw [Stmt.withinBranches, Bool.and_eq_true] at h
    rw [ofBranches]
    exact (clean_lift (cleanResult_render ctx .expression cond)).seq fun _ =>
      (clean_ofStmts h.1).seq fun _ =>
      (clean_ofBranches h.2).seq fun _ => clean_pure trivial

end

theorem clean_ofProgram (options : Options) {stmts : List Stmt}
    (h : Stmt.withinAll .nothing stmts = true) : Clean (ofProgram options stmts) fun _ => True := by
  have hstmts : Stmt.LocatedAll (fun _ => True) stmts := fun _ _ => trivial
  refine (clean_lift (CaptureScope.misplaces_checkStmts _ hstmts).clean).seq fun _ => ?_
  exact (clean_ofStmts _ h).seq fun _ => clean_pure trivial

end Markup

/-! ## Compilations -/

namespace Compilation

theorem clean_expandImports (loader : Loader) (entry : Option Path) {stmts : List Stmt}
    (h : Stmt.withinAll .unit stmts = true) :
    Clean (expandImports loader entry stmts) fun out => Stmt.withinAll .expanded out = true := by
  refine clean_get.seq fun s => ?_
  have hrun := (Importer.clean_run loader entry h).run (Importer.new s.sources)
  refine (clean_set _).seq fun _ => (clean_lift hrun).bind fun out hout => ?_
  exact (clean_modify _).seq fun _ => (clean_modify _).seq fun _ => clean_pure hout

/-- **What is written as markup has nothing left over.** -/
theorem clean_lower (options : Options) (loader : Loader) (file : Nat) (entry : Option Path) :
    Clean (lower options loader file entry) fun out => Stmt.withinAll .nothing out = true := by
  refine clean_get.seq fun s => ?_
  refine (clean_lift (Program.cleanResult_parse ..)).bind fun program hprogram => ?_
  refine (clean_expandImports loader entry hprogram).bind fun stmts hstmts => ?_
  have hpasses := (Lowering.clean_runPasses hstmts options).run {}
  refine (clean_modify _).seq fun _ => (clean_lift hpasses).bind fun out hout => ?_
  exact (clean_modify _).seq fun _ => clean_pure hout

theorem clean_compile (options : Options) (loader : Loader) (file : Nat) (entry : Option Path) :
    Clean (compile options loader file entry) fun _ => True := by
  refine (clean_lower options loader file entry).bind fun stmts hstmts => ?_
  have hgenerate := (Markup.clean_ofProgram options hstmts).run #[]
  refine (clean_modify _).seq fun _ => (clean_lift hgenerate).seq fun _ => ?_
  exact clean_pure trivial

end Compilation

theorem CompiledUnit.result_compile (options : Options) (loader : Loader) (name : String)
    (sources : SourceMap) (file : Nat) (entry : Option Path) :
    (compile options loader name sources file entry).result =
      (outcome (Compilation.compile options loader file entry)
        { sources, notes := #[.compiling name] }).1 := by
  have hresult (result : Except Error String) (c : Compilation) :
      (ofResult name result c).result = result := by
    cases result <;> rfl
  exact hresult ..

/-- **Nothing is left over for the markup to refuse.**  Whatever the text, the options and the
finitely many units that can be required, a compilation does not fail because of a loop, a `break`,
a `return` or a `require` that is still there, or because of raw output of something that is no
literal; and where lowering gives statements, they have none of these outside of the bodies of
functions. -/
theorem nothing_is_left_over (options : Options) (loader : Loader) (name text : String) :
    (∀ e, (CompiledUnit.ofSource options loader name text).result = .error e →
      e.isLeftover = false) ∧
    ∀ file entry s stmts t, Gives (Compilation.lower options loader file entry) s stmts t →
      Stmt.withinAll .nothing stmts = true := by
  refine ⟨fun e he => ?_, fun file entry s stmts t hlower => ?_⟩
  · rw [CompiledUnit.ofSource, CompiledUnit.result_compile] at he
    have hclean := (Compilation.clean_compile options loader
      (SourceMap.empty.add name none text).2 none).run
        { sources := (SourceMap.empty.add name none text).1, notes := #[.compiling name] }
    rwa [he] at hclean
  · have hclean := (Compilation.clean_lower options loader file entry).run s
    rwa [hlower] at hclean

/-- A loop with a `break`, around a unit that has a loop with a `break` itself. -/
theorem nothing_is_left_over_loopInLoop :
    let loader := UnitTable.loader [(⟨"a.js"⟩, "for (y of [1..9]) \x7b print(y); break; \x7d")]
    let text := "function f() \x7b return 1; \x7d for (x of [1..2]) \x7b " ++
      "require('a.js'); break; \x7d printraw('r');"
    let sources : SourceMap := ⟨#[⟨"main.js", none, text⟩]⟩
    ∃ stmts t, Gives (Compilation.lower {} loader 0 none) { sources } stmts t ∧
      Stmt.withinAll .nothing stmts = true := by
  intro loader text sources
  have hok : (outcome (Compilation.lower {} loader 0 none) { sources }).1.isOk = true := by
    decide +kernel
  rcases hlower : outcome (Compilation.lower {} loader 0 none) { sources } with ⟨e | stmts, t⟩
  · rw [hlower] at hok
    cases hok
  · exact ⟨stmts, t, hlower, (nothing_is_left_over {} loader "main.js" text).2 _ _ _ _ _ hlower⟩

end EdgeScript
