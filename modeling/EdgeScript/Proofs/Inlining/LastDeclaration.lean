import EdgeScript.Proofs.Inlining.Outside
import EdgeScript.Proofs.Lowering.Idempotent
import EdgeScript.Proofs.Calls.Refusal

/-!
# Functions that are declared several times

A name stands for the last one of its inline declarations: a later one replaces what an earlier one
has put into the table.  Declarations that are not inline have no part in this.  So the last
declaration of a function counts if it is inline, or if none is; but an inline declaration is not
taken back by a plain one behind it.
-/

set_option autoImplicit false

namespace EdgeScript

open Pass

/-! ## Declarations -/

/-- The last one of the declarations that is of the name. -/
def FunctionDeclaration.last? (f : String) (ds : List FunctionDeclaration) :
    Option FunctionDeclaration :=
  ds.reverse.find? (·.name = f)

/-- If the last declaration is inline, it is the last one that is. -/
theorem FunctionDeclaration.last?_filter_of_isInline {f : String} {ds : List FunctionDeclaration}
    {d : FunctionDeclaration} (h : last? f ds = some d) (hd : d.isInline = true) :
    last? f (ds.filter (·.isInline)) = some d := by
  obtain ⟨hname, before, behind, hds, hbefore⟩ := List.find?_eq_some_iff_append.1 h
  rw [last?, ← List.filter_reverse, List.find?_filter, List.find?_eq_some_iff_append]
  refine ⟨by rw [hd, hname]; rfl, before, behind, hds, fun d' hd' => ?_⟩
  have hother := hbefore d' hd'
  grind

/-- The inline ones among declarations. -/
def FunctionDeclaration.inlineOnes (ds : List FunctionDeclaration) : List InlineDeclaration :=
  (ds.filter (·.isInline)).map (·.toInlineDeclaration)

theorem FunctionDeclaration.inlineOnes_append (ds ds' : List FunctionDeclaration) :
    inlineOnes (ds ++ ds') = inlineOnes ds ++ inlineOnes ds' := by
  rw [inlineOnes, List.filter_append, List.map_append]
  rfl

theorem FunctionDeclaration.find?_inlineOnes (f : String) (ds : List FunctionDeclaration) :
    (inlineOnes ds).reverse.find? (·.name = f) =
      (last? f (ds.filter (·.isInline))).map (·.toInlineDeclaration) := by
  rw [inlineOnes, ← List.map_reverse, List.find?_map]
  rfl

theorem FunctionDeclaration.name_ne_of_mem_inlineOnes {f : String} {ds : List FunctionDeclaration}
    (h : ∀ d ∈ ds, d.name = f → d.isInline = false) : ∀ d ∈ inlineOnes ds, d.name ≠ f := by
  rintro _ hd rfl
  obtain ⟨d, hfiltered, rfl⟩ := List.mem_map.1 hd
  obtain ⟨hmem, hinline⟩ := List.mem_filter.1 hfiltered
  exact absurd hinline (by rw [h d hmem rfl]; exact Bool.noConfusion)

namespace Stmt

open FunctionDeclaration

mutual

theorem inlineOnes_declarations :
    ∀ {s : Stmt}, (∀ d ∈ s.inlineDeclarations, declarationsAll d.body = []) →
      inlineOnes s.declarations = s.inlineDeclarations
  | .function name params true body span, h => by
    have hbody : declarationsAll body = [] :=
      h ⟨name.name, params, body, span⟩ (List.mem_singleton.2 rfl)
    rw [declarations, hbody]
    rfl
  | .function _ _ false body _, h => @inlineOnes_declarationsAll body h
  | .ifChain branches (some body) _, h => by
    obtain ⟨hbranches, hbody⟩ := List.forall_mem_append.1 h
    rw [declarations, inlineOnes_append, inlineOnes_declarationsBranches hbranches,
      inlineOnes_declarationsAll hbody]
    rfl
  | .ifChain branches none _, h => @inlineOnes_declarationsBranches branches h
  | .forLoop _ _ body _, h => @inlineOnes_declarationsAll body h
  | .attempt body (some handler) _, h => by
    obtain ⟨hbody, hhandler⟩ := List.forall_mem_append.1 h
    rw [declarations, inlineOnes_append, inlineOnes_declarationsAll hbody,
      inlineOnes_declarationsAll hhandler]
    rfl
  | .attempt body none _, h => @inlineOnes_declarationsAll body h
  | .block body _, h => @inlineOnes_declarationsAll body h
  | .atom _, _ | .breakLoop _, _ | .require .., _ => rfl

/-- The inline ones among all declarations are those that are collected, unless there are others in
their bodies. -/
theorem inlineOnes_declarationsAll :
    ∀ {stmts : List Stmt}, (∀ d ∈ inlineDeclarationsAll stmts, declarationsAll d.body = []) →
      inlineOnes (declarationsAll stmts) = inlineDeclarationsAll stmts
  | [], _ => rfl
  | _ :: _, h => by
    obtain ⟨hfirst, hrest⟩ := List.forall_mem_append.1 h
    rw [declarationsAll, inlineOnes_append, inlineOnes_declarations hfirst,
      inlineOnes_declarationsAll hrest]
    rfl

theorem inlineOnes_declarationsBranches :
    ∀ {branches : List (Branch Stmt)},
      (∀ d ∈ inlineDeclarationsBranches branches, declarationsAll d.body = []) →
      inlineOnes (declarationsBranches branches) = inlineDeclarationsBranches branches
  | [], _ => rfl
  | ⟨_, _, _⟩ :: _, h => by
    obtain ⟨hbody, hrest⟩ := List.forall_mem_append.1 h
    rw [declarationsBranches, inlineOnes_append, inlineOnes_declarationsAll hbody,
      inlineOnes_declarationsBranches hrest]
    rfl

end

end Stmt

/-! ## The table -/

theorem FunctionTable.get?_insert (table : FunctionTable) (name : String) (f : InlineFunction)
    (n : String) : (table.insert name f).get? n = if n = name then some f else table.get? n := by
  induction table with
  | nil =>
    rw [insert, get?, List.lookup_cons]
    grind [get?]
  | cons entry rest ih =>
    obtain ⟨other, g⟩ := entry
    rw [insert]
    grind [get?]

namespace Inliner

/-- A name stands for the last declaration that is collected. -/
theorem get?_of_collect {ds : List InlineDeclaration} {s t : Inliner} {u : Unit}
    (h : Gives (collect ds) s u t) (f : String) :
    (∀ d, ds.reverse.find? (·.name = f) = some d →
      ∃ g, d.reduce = .ok g ∧ t.functions.get? f = some g) ∧
      (ds.reverse.find? (·.name = f) = none → t.functions.get? f = s.functions.get? f) := by
  induction ds generalizing s with
  | nil =>
    rw [(gives_pure.1 h).2]
    exact ⟨nofun, fun _ => rfl⟩
  | cons d ds ih =>
    obtain ⟨_, v, hone, hrest⟩ := gives_bind.1 h
    obtain ⟨g, hreduce, hinsert⟩ := gives_collectOne hone
    obtain ⟨hfound, hnone⟩ := ih hrest
    rw [List.reverse_cons, List.find?_append]
    cases hlast : ds.reverse.find? (·.name = f) with
    | some d' => exact ⟨fun _ hd => Option.some.inj hd ▸ hfound d' hlast, nofun⟩
    | none =>
      have hget : t.functions.get? f = if f = d.name then some g else s.functions.get? f := by
        rw [hnone hlast, hinsert, FunctionTable.get?_insert]
      by_cases hname : d.name = f
      · rw [if_pos hname.symm] at hget
        rw [Option.none_or, List.find?_cons_of_pos (by simpa using hname)]
        exact ⟨fun _ hd => Option.some.inj hd ▸ ⟨g, hreduce, hget⟩, nofun⟩
      · rw [if_neg (Ne.symm hname)] at hget
        rw [Option.none_or, List.find?_cons_of_neg (by simpa using hname), List.find?_nil]
        exact ⟨nofun, fun _ => hget⟩

/-- The inline ones among the declarations of a script whose functions can be collected are those
that are. -/
theorem inlineOnes_of_collect {stmts : List Stmt} {s t : Inliner} {u : Unit}
    (h : Gives (collect (Stmt.inlineDeclarationsAll stmts)) s u t) :
    FunctionDeclaration.inlineOnes (Stmt.declarationsAll stmts) =
      Stmt.inlineDeclarationsAll stmts := by
  refine Stmt.inlineOnes_declarationsAll fun d hd => ?_
  obtain ⟨-, f, hreduce⟩ := (mem_names_of_collect h).2 d hd
  obtain ⟨-, _, hbody⟩ := InlineDeclaration.eq_of_reduce hreduce
  rw [hbody]
  rfl

end Inliner

/-! ## The last declaration -/

open FunctionDeclaration in
/-- **The last inline declaration of a function counts.**  Outside of function bodies the
expressions of a script are expanded with what each name stands for.  If the last declaration of a
function is inline, the name stands for it: for its parameters, and for the expression that its body
returns.  If none is, its calls stay, and writing one that is met fails unless every declaration of
the function was dropped, as none is outside of chains and loops; it fails because such a call has
no markup if nothing else is wrong.  If the last declaration is not inline but another one is, the
last inline one counts all the same. -/
theorem last_inline_declaration_counts {stmts inlined lowered : List Stmt} {folding : Bool}
    {maxIterations : Nat} {inliner : Inliner} {unroller : Unroller}
    (hinline : Gives (Inliner.run stmts) (Inliner.new folding) inlined inliner)
    (hunroll : Gives (Unroller.run inlined) (Unroller.new maxIterations) lowered unroller) :
    ∃ (functions : String → Option InlineFunction) (expanded : List Stmt),
      List.Forall₂ (Expr.InlinesTo functions folding) (Stmt.outerExprsAll stmts)
        (Stmt.outerExprsAll expanded) ∧
      inlined = (if folding then Stmt.foldAll expanded else expanded) ∧
      ∀ f d, last? f (Stmt.declarationsAll stmts) = some d →
        (d.isInline = true → ∃ g, d.reduce = .ok g ∧ g.params = d.params ∧
          (∃ span, d.body = [.atom (.ret (some g.body) span)]) ∧ functions f = some g) ∧
        (∀ d', last? f ((Stmt.declarationsAll stmts).filter (·.isInline)) = some d' →
          ∃ g, d'.reduce = .ok g ∧ g.params = d'.params ∧
            (∃ span, d'.body = [.atom (.ret (some g.body) span)]) ∧ functions f = some g) ∧
        ((∀ d' ∈ Stmt.declarationsAll stmts, d'.name = f → d'.isInline = false) →
          functions f = none ∧
          (f ∈ Stmt.standingAll true stmts → Stmt.Declares lowered f) ∧
          (f ∈ Stmt.writtenCallsAll lowered → Stmt.Declares lowered f → ∀ options,
            ∃ e, (outcome (Markup.ofProgram options lowered) #[]).1 = .error e ∧
              ∀ markup notes, Gives (Markup.ofProgramWith [] options lowered) #[] markup notes →
                ∃ g ∈ Stmt.writtenCallsAll lowered, Stmt.Declares lowered g ∧
                  ∃ span, e = .unsupported (.userCall g) span)) := by
  obtain ⟨u, expanded, hcollect, hcycles, hexpand, hout⟩ := Inliner.steps_of_gives_run hinline
  have hfolding : u.folding = folding := ((Inliner.ensures_folding_collect _).run rfl hcollect).1
  obtain ⟨hend, hexprs⟩ :=
    (Inliner.ensures_outer_expandStmts (Inliner.ensures_inlinesTo_expand hcycles) stmts).run
    ⟨rfl, hfolding⟩ hexpand
  have hinlineOnes := Inliner.inlineOnes_of_collect hcollect
  have htable (f : String) := Inliner.get?_of_collect hcollect f
  have hlast (f : String) (d : FunctionDeclaration)
      (hd : last? f ((Stmt.declarationsAll stmts).filter (·.isInline)) = some d) :
      ∃ g, d.reduce = .ok g ∧ g.params = d.params ∧
        (∃ span, d.body = [.atom (.ret (some g.body) span)]) ∧ u.functions.get? f = some g := by
    have hfound : (Stmt.inlineDeclarationsAll stmts).reverse.find? (·.name = f) =
        some d.toInlineDeclaration := by
      rw [← hinlineOnes, find?_inlineOnes, hd]
      rfl
    obtain ⟨g, hreduce, hget⟩ := (htable f).1 d.toInlineDeclaration hfound
    obtain ⟨hparams, hbody⟩ := InlineDeclaration.eq_of_reduce hreduce
    exact ⟨g, hreduce, hparams, hbody, hget⟩
  refine ⟨u.functions.get?, expanded, hexprs, by rw [hout, hend.2],
    fun f d hd => ⟨fun hdInline => ?_, hlast f, ?_⟩⟩
  · exact hlast f d (last?_filter_of_isInline hd hdInline)
  · intro hplain
    have hother : ∀ d ∈ Stmt.inlineDeclarationsAll stmts, d.name ≠ f := by
      rw [← hinlineOnes]
      exact name_ne_of_mem_inlineOnes hplain
    refine ⟨(htable f).2 ?_, fun hstanding => ?_, fun hwritten hdeclared options => ?_⟩
    · rw [← hinlineOnes, List.find?_eq_none]
      exact fun d' hd' => by simpa using hother d' (hinlineOnes ▸ List.mem_reverse.1 hd')
    · have hinlined := Inliner.standing_of_gives_run hinline hstanding hother
      have hlowered := ((Unroller.standing_run inlined).run trivial hunroll).2 hinlined
      exact Stmt.mem_declaredFunctionsAll_iff.1 (Stmt.standingAll_subset_declared _ hlowered)
    · exact Markup.error_of_written options hwritten hdeclared

open FunctionDeclaration in
/-- An import that is forced brings its declaration back, and a plain function is called next to
it. -/
theorem last_inline_declaration_counts_forcedImport :
    let text :=
      "require('a.js'); function k() \x7b \"inline\"; return 2; \x7d " ++
        "require('a.js', force=true); function h() \x7b\x7d print(k()); x = h();"
    let loader := UnitTable.loader [(⟨"a.js"⟩, "function k() \x7b \"inline\"; return 1; \x7d")]
    let sources : SourceMap := ⟨#[⟨"main.js", none, text⟩]⟩
    ∃ program expanded importer inlined inliner lowered unroller functions calls g span,
      Program.parse text 0 = .ok program ∧
      Gives (Importer.run loader none program.body) (Importer.new sources) expanded importer ∧
      Gives (Inliner.run (Stmt.foldAll expanded)) (Inliner.new true) inlined inliner ∧
      Gives (Unroller.run inlined) (Unroller.new 1024) lowered unroller ∧
      List.Forall₂ (Expr.InlinesTo functions true)
        (Stmt.outerExprsAll (Stmt.foldAll expanded)) calls ∧
      functions "k" = some g ∧ g.body.literal? = some (.int 1) ∧ functions "h" = none ∧
      (outcome (Markup.ofProgram {} lowered) #[]).1 =
        .error (.unsupported (.userCall "h") span) := by
  intro text loader sources
  have hruns : succeeds (Program.parse text 0) (fun program =>
      succeeds (outcome (Importer.run loader none program.body) (Importer.new sources)).1
        fun expanded =>
      succeeds (outcome (Inliner.run (Stmt.foldAll expanded)) (Inliner.new true)).1 fun inlined =>
      succeeds (outcome (Unroller.run inlined) (Unroller.new 1024)).1 fun lowered =>
        ((last? "k" (Stmt.declarationsAll (Stmt.foldAll expanded))).any fun d =>
          d.isInline && succeeds d.reduce fun g => g.body.literal? == some (.int 1)) &&
        ((last? "h" (Stmt.declarationsAll (Stmt.foldAll expanded))).isSome &&
          (Stmt.declarationsAll (Stmt.foldAll expanded)).all fun d => d.name != "h" ||
            !d.isInline) &&
        (Stmt.writtenCallsAll lowered == ["h"] && Stmt.declaredFunctionsAll lowered == ["h"] &&
          succeeds (outcome (Markup.ofProgramWith [] {} lowered) #[]).1 fun _ => true)) = true := by
    decide +kernel
  obtain ⟨program, hparse, himports⟩ := exists_of_succeeds hruns
  obtain ⟨expanded, importer, hexpanded, hinlines⟩ := exists_gives_of_succeeds himports
  obtain ⟨inlined, inliner, hinlined, hunrolls⟩ := exists_gives_of_succeeds hinlines
  obtain ⟨lowered, unroller, hlowered, hchecks⟩ := exists_gives_of_succeeds hunrolls
  simp only [Bool.and_eq_true, beq_iff_eq, Option.any_eq_true, Option.isSome_iff_exists] at hchecks
  obtain ⟨⟨⟨d, hd, hinline, hreduces⟩, ⟨d', hd'⟩, hplain⟩, ⟨hwritten, hdeclared⟩, hgenerates⟩ :=
    hchecks
  obtain ⟨functions, calls, hcalls, -, hlast⟩ := last_inline_declaration_counts hinlined hlowered
  obtain ⟨g, hg, -, -, hk⟩ := (hlast "k" d hd).1 hinline
  obtain ⟨hh, -, hrefused⟩ := (hlast "h" d' hd').2.2 fun d'' hmem hname => by
    simpa [hname] using List.all_eq_true.1 hplain d'' hmem
  have hdeclares : Stmt.Declares lowered "h" :=
    Stmt.mem_declaredFunctionsAll_iff.1 (by simp [hdeclared])
  obtain ⟨e, herror, hcause⟩ := hrefused (by simp [hwritten]) hdeclares {}
  obtain ⟨markup, notes, hmarkup, -⟩ := exists_gives_of_succeeds hgenerates
  obtain ⟨f, hf, -, span, rfl⟩ := hcause markup notes hmarkup
  rw [hwritten, List.mem_singleton] at hf
  subst hf
  obtain ⟨g', hg', hbody⟩ := exists_of_succeeds hreduces
  obtain rfl : g = g' := Except.ok.inj (hg.symm.trans hg')
  exact ⟨program, expanded, importer, inlined, inliner, lowered, unroller, functions, _, g, span,
    hparse, hexpanded, hinlined, hlowered, hcalls, hk, beq_iff_eq.1 hbody, hh, herror⟩

/-- A declaration that is not inline comes last, and the call is expanded with the one in front of
it. -/
theorem plain_redeclaration_does_not_count :
    let text :=
      "function f() \x7b \"inline\"; return 1; \x7d function f() \x7b return 2; \x7d x = f();"
    let s : Compilation := { sources := ⟨#[⟨"main.js", none, text⟩]⟩ }
    ∃ program d markup, Program.parse text 0 = .ok program ∧
      FunctionDeclaration.last? "f" (Stmt.declarationsAll program.body) = some d ∧
      d.isInline = false ∧
      (outcome (Compilation.compile {} (UnitTable.loader []) 0 none) s).1 = .ok markup ∧
      markup = "<esi:assign name=\"x\" value=\"1\"/>" := by
  intro text s
  have hreads : succeeds (Program.parse text 0) (fun program =>
      (FunctionDeclaration.last? "f" (Stmt.declarationsAll program.body)).map (·.isInline) ==
        some false) = true := by
    decide +kernel
  have hcompiles : succeeds (outcome (Compilation.compile {} (UnitTable.loader []) 0 none) s).1
      (fun markup => markup == "<esi:assign name=\"x\" value=\"1\"/>") = true := by decide +kernel
  obtain ⟨program, hparse, hlast⟩ := exists_of_succeeds hreads
  obtain ⟨markup, hmarkup, htext⟩ := exists_of_succeeds hcompiles
  obtain ⟨d, hd, hplain⟩ := Option.map_eq_some_iff.1 (beq_iff_eq.1 hlast)
  exact ⟨program, d, markup, hparse, hd, hplain, hmarkup, beq_iff_eq.1 htext⟩

end EdgeScript
