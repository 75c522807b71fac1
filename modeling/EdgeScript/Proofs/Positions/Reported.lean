import EdgeScript.Proofs.Import.Serving
import EdgeScript.Proofs.Positions.Grammar
import EdgeScript.Proofs.Positions.Lines
import EdgeScript.Proofs.Positions.Writing
import EdgeScript.Proofs.Stages

/-!
# The places that a compilation reports

The units of a compilation are read one after the other, each into the source map before it is
parsed, and none is taken out of it again.  So a place that has been one stays one, whatever is
imported later (`SourceMap.Contains.mono`), and the places in a unit are places of the source map
from the moment it is read.  Imports put units in the places of requests, and lowering and writing
keep to the places they find.  So every place that a compilation leads to, in a script or in an
error, is a place in the text of a loaded unit, and is shown as that (`reported_places_exist`).
-/

set_option autoImplicit false

namespace EdgeScript

open Pass

/-! ## Imports -/

namespace Importer

variable {loader : Loader} {origin : Option Path} {s t : Importer}

/-- What an answer leads to is in the sources. -/
def Answer.Located (m : SourceMap) : Answer → Prop
  | .refused e => e.Located m.Contains
  | .skipped => True
  | .opened _ body => Stmt.LocatedAll m.Contains body

theorem extends_loading (s : Importer) (path : Path) (text : String) :
    s.sources.Extends (s.loading path text).sources :=
  s.sources.extends_add path.text (some path) text

/-- A unit is read into the sources before it is parsed. -/
theorem locatedResult_loading (s : Importer) (path : Path) (text : String) :
    LocatedResult (s.loading path text).sources.Contains (Program.parse text s.sources.files.size)
      fun p => Stmt.LocatedAll (s.loading path text).sources.Contains p.body := by
  have hwithin {span : Span} (h : span.Within s.sources.files.size text.toList) :
      (s.loading path text).sources.Contains span :=
    SourceMap.contains_of_within (s.sources.getElem?_files_add path.text (some path) text) h
  exact (Program.locatedResult_parse text _).mono (fun _ => hwithin) fun _ hp => hp.mono
    fun _ => hwithin

theorem located_answer {r : Request} {a : Answer} (hr : s.sources.Contains r.span)
    (h : answer loader origin r s = (a, t)) :
    s.sources.Extends t.sources ∧ a.Located t.sources := by
  rw [answer] at h
  cases hresolve : loader.resolve origin r.path with
  | none =>
    rw [hresolve] at h
    cases h
    exact ⟨.refl _, .of_span rfl hr⟩
  | some path =>
    rw [hresolve] at h
    dsimp only at h
    split at h
    · split at h <;> cases h
      · exact ⟨.refl _, .of_span rfl hr⟩
      · exact ⟨.refl _, trivial⟩
    · split at h
      · cases h
        exact ⟨.refl _, trivial⟩
      · cases hread : loader.read path with
        | error reason =>
          rw [hread] at h
          cases h
          refine ⟨.refl _, fun span hmem => ?_⟩
          cases hmem
        | ok text =>
          rw [hread] at h
          dsimp only at h
          have hparsed := locatedResult_loading s path text
          cases hparse : Program.parse text s.sources.files.size <;>
            rw [hparse] at h hparsed <;> cases h
          · exact ⟨s.extends_loading path text, hparsed⟩
          · exact ⟨s.extends_loading path text, hparsed⟩

/-- What requests are replaced by has its places in the sources that are loaded in the end. -/
theorem Serves.located {requests : List Request} {trace : List Passed}
    {result : Except Error (List (List Stmt))} (h : Serves loader origin requests s trace result t)
    (hrequests : ∀ r ∈ requests, s.sources.Contains r.span) :
    s.sources.Extends t.sources ∧
      LocatedResult t.sources.Contains result fun parts => ∀ part ∈ parts,
        Stmt.LocatedAll t.sources.Contains part := by
  induction h with
  | done => exact ⟨.refl _, fun _ hmem => nomatch hmem⟩
  | refused h => exact located_answer (hrequests _ List.mem_cons_self) h
  | skipped h _ ih =>
    obtain ⟨hr, hrest⟩ := List.forall_mem_cons.1 hrequests
    obtain ⟨hgrows, -⟩ := located_answer hr h
    obtain ⟨hgrows', hparts⟩ := ih fun r hr => (hrest r hr).mono hgrows
    refine ⟨hgrows.trans hgrows', .map (hparts.mono (fun _ => id) fun parts hparts => ?_)⟩
    exact List.forall_mem_cons.2 ⟨Stmt.locatedAll_nil, hparts⟩
  | failed h _ ih =>
    obtain ⟨hgrows, hbody⟩ := located_answer (hrequests _ List.mem_cons_self) h
    obtain ⟨hgrows', herror⟩ := ih (Stmt.LocatedAll.request hbody)
    exact ⟨hgrows.trans hgrows', herror⟩
  | expanded h _ _ ih ih' =>
    obtain ⟨hr, hrest⟩ := List.forall_mem_cons.1 hrequests
    obtain ⟨hgrows, hbody⟩ := located_answer hr h
    obtain ⟨hgrows', hparts⟩ := ih (Stmt.LocatedAll.request hbody)
    obtain ⟨hgrows'', hmore⟩ := ih' fun r hr => ((hrest r hr).mono hgrows).mono hgrows'
    refine ⟨(hgrows.trans hgrows').trans hgrows'',
      .map (hmore.mono (fun _ => id) fun more hmore => ?_)⟩
    refine List.forall_mem_cons.2 ⟨?_, hmore⟩
    refine Stmt.LocatedAll.mono (fun _ => SourceMap.Contains.mono hgrows'')
      (Stmt.LocatedAll.fill ?_ hparts)
    exact Stmt.LocatedAll.mono (fun _ => SourceMap.Contains.mono hgrows') hbody

/-- **Imports lead to places in the units that are loaded in the end**, those of the script
included. -/
theorem located_run (loader : Loader) (entry : Option Path) {stmts : List Stmt}
    (h : Stmt.LocatedAll s.sources.Contains stmts) :
    s.sources.Extends (outcome (run loader entry stmts) s).2.sources ∧
      LocatedResult (outcome (run loader entry stmts) s).2.sources.Contains
        (outcome (run loader entry stmts) s).1
        (Stmt.LocatedAll (outcome (run loader entry stmts) s).2.sources.Contains) := by
  obtain ⟨trace, hresolves⟩ := exists_resolves loader entry stmts s
  generalize (outcome (run loader entry stmts) s).1 = result,
    (outcome (run loader entry stmts) s).2 = t at hresolves ⊢
  have hfill {u : Importer} (hgrows : s.sources.Extends u.sources) {parts : List (List Stmt)}
      (hparts : ∀ part ∈ parts, Stmt.LocatedAll u.sources.Contains part) :
      Stmt.LocatedAll u.sources.Contains (Stmt.fillAll .handlerFirst stmts parts) :=
    (h.mono fun _ => SourceMap.Contains.mono hgrows).fill hparts
  cases hresolves with
  | nowhere hserves =>
    obtain ⟨hgrows, hparts⟩ := hserves.located h.request
    exact ⟨hgrows, .map (hparts.mono (fun _ => id) fun _ => hfill hgrows)⟩
  | unit hserves =>
    obtain ⟨hgrows, hparts⟩ := hserves.located h.request
    exact ⟨hgrows, .map (hparts.mono (fun _ => id) fun _ => hfill hgrows)⟩

end Importer

/-! ## Stages -/

theorem Stmt.LocatedAll.lowers {P : Span → Prop} {options : Options} {stmts lowered : List Stmt}
    (h : LocatedAll P stmts) (hlowers : options.Lowers stmts lowered) : LocatedAll P lowered := by
  obtain ⟨inlined, hinlines, unroller, hunroll⟩ := hlowers
  have hfolded : LocatedAll P (options.folded stmts) := by
    unfold Options.folded
    split
    · exact h.fold
    · exact h
  have hinlined : LocatedAll P inlined := by
    unfold Options.Inlines at hinlines
    split at hinlines
    · obtain ⟨inliner, hrun⟩ := hinlines
      have hresult := (Inliner.locates_run hfolded).result (s := .new options.folding) fun _ hmem =>
        nomatch hmem
      rwa [hrun] at hresult
    · exact hinlines ▸ hfolded
  have hresult :=
    (Unroller.locates_run hinlined).result (s := .new options.maxLoopIterations) trivial
  rwa [hunroll] at hresult

namespace Compilation

variable {α β : Type} {x : Pass Compilation α} {f : α → Pass Compilation β} {s : Compilation}
  {m : SourceMap}

/-- The pass comes to the result `r` and leaves the sources `m`. -/
def Settles (x : Pass Compilation α) (s : Compilation) (r : Except Error α) (m : SourceMap) :
    Prop :=
  (outcome x s).1 = r ∧ (outcome x s).2.sources = m

theorem Settles.bind {r : Except Error α} {g : α → Except Error β} (hx : Settles x s r m)
    (hf : ∀ a t, t.sources = m → Settles (f a) t (g a) m) : Settles (x >>= f) s (r >>= g) m := by
  obtain ⟨rfl, hsources⟩ := hx
  rw [Settles, outcome_bind]
  rcases hout : outcome x s with ⟨_ | a, t⟩ <;> rw [hout] at hsources
  · exact ⟨rfl, hsources⟩
  · exact hf a t hsources

theorem settles_expandImports (loader : Loader) (entry : Option Path) (stmts : List Stmt)
    (s : Compilation) :
    Settles (expandImports loader entry stmts) s
      (outcome (Importer.run loader entry stmts) (.new s.sources)).1
      (outcome (Importer.run loader entry stmts) (.new s.sources)).2.sources := by
  have hget : outcome (get : Pass Compilation Compilation) s = (.ok s, s) := rfl
  rw [Settles, expandImports, outcome_bind, hget]
  dsimp only
  unfold outcome
  rcases (Importer.run loader entry stmts).run.run (.new s.sources) with ⟨_ | _, _⟩ <;>
    exact ⟨rfl, rfl⟩

theorem settles_runPasses (options : Options) (stmts : List Stmt) (s : Compilation) :
    Settles (runPasses options stmts) s
      (outcome (Lowering.runPasses options.passes stmts) {}).1 s.sources := by
  unfold runPasses outcome
  rcases (Lowering.runPasses options.passes stmts).run.run {} with ⟨_ | _, _⟩ <;> exact ⟨rfl, rfl⟩

theorem settles_generate (options : Options) (stmts : List Stmt) (s : Compilation) :
    Settles (generate options stmts) s
      ((outcome (Markup.ofProgram options stmts) #[]).1.map Markup.textAll) s.sources := by
  unfold generate outcome
  rcases (Markup.ofProgram options stmts).run.run #[] with ⟨_ | _, _⟩ <;> exact ⟨rfl, rfl⟩

variable {options : Options} {loader : Loader} {file : Nat} {entry : Option Path}

theorem outcome_compile (options : Options) (loader : Loader) (file : Nat) (entry : Option Path)
    (s : Compilation) :
    outcome (compile options loader file entry) s =
      outcome (do
        let program ← (liftM (Program.parse (s.sources.text file) file) : Pass Compilation Program)
        let expanded ← expandImports loader entry program.body
        let lowered ← runPasses options expanded
        generate options lowered) s := by
  simp only [compile, lower, bind_assoc]
  rfl

theorem settles_compile_of_error {e : Error}
    (hparse : Program.parse (s.sources.text file) file = .error e) :
    Settles (compile options loader file entry) s (.error e) s.sources := by
  rw [Settles, outcome_compile, hparse]
  exact ⟨rfl, rfl⟩

/-- A compilation ends with the sources that the expansion of its imports ends with. -/
theorem settles_compile_of_ok {program : Program}
    (hparse : Program.parse (s.sources.text file) file = .ok program) :
    Settles (compile options loader file entry) s
      (do
        let expanded ← (outcome (Importer.run loader entry program.body) (.new s.sources)).1
        let lowered ← (outcome (Lowering.runPasses options.passes expanded) {}).1
        (outcome (Markup.ofProgram options lowered) #[]).1.map Markup.textAll)
      (outcome (Importer.run loader entry program.body) (.new s.sources)).2.sources := by
  rw [Settles, outcome_compile, hparse]
  refine (settles_expandImports loader entry program.body s).bind fun expanded t ht => ?_
  rw [← ht]
  refine (settles_runPasses options expanded t).bind fun lowered u hu => ?_
  rw [← hu]
  exact settles_generate options lowered u

end Compilation

/-! ## Units -/

section Units

variable {options : Options} {loader : Loader} {name : String} {sources : SourceMap} {file : Nat}
  {entry : Option Path}

theorem CompiledUnit.settles_compile {result : Except Error String} {m : SourceMap}
    (h : Compilation.Settles (Compilation.compile options loader file entry)
      { sources, notes := #[.compiling name] } result m) :
    (compile options loader name sources file entry).result = result ∧
      (compile options loader name sources file entry).sources = m := by
  rw [Compilation.Settles, outcome] at h
  rw [compile]
  rcases hrun : (Compilation.compile options loader file entry).run.run
    { sources, notes := #[.compiling name] } with ⟨_ | _, _⟩ <;> rw [hrun] at h <;> exact h

/-- The places that the compilation of a unit leads to: those in its script, in the script with its
imports expanded and in the lowered script, as far as there are such scripts, and the place of its
error. -/
inductive Reported (options : Options) (loader : Loader) (name : String) (sources : SourceMap)
  (file : Nat)
    (entry : Option Path) (span : Span) : Prop
  | parsed {program : Program} (hparse : Program.parse (sources.text file) file = .ok program)
      (h : span ∈ Stmt.spansAll program.body)
  | expanded {program : Program} {expanded : List Stmt} {importer : Importer}
      (hparse : Program.parse (sources.text file) file = .ok program)
      (himports : Gives (Importer.run loader entry program.body) (.new sources) expanded importer)
      (h : span ∈ Stmt.spansAll expanded)
  | lowered {program : Program} {expanded lowered : List Stmt} {importer : Importer}
      (hparse : Program.parse (sources.text file) file = .ok program)
      (himports : Gives (Importer.run loader entry program.body) (.new sources) expanded importer)
      (hlowers : options.Lowers expanded lowered) (h : span ∈ Stmt.spansAll lowered)
  | refused {e : Error}
      (hresult : (CompiledUnit.compile options loader name sources file entry).result = .error e)
      (h : e.span? = some span)

variable {unit : SourceFile} (hunit : sources.files[file]? = some unit)
include hunit

theorem locatedResult_parse_of_unit :
    LocatedResult sources.Contains (Program.parse (sources.text file) file)
      fun p => Stmt.LocatedAll sources.Contains p.body := by
  have hwithin {span : Span} (h : span.Within file unit.text.toList) : sources.Contains span :=
    SourceMap.contains_of_within hunit h
  rw [SourceMap.text_of_getElem? hunit]
  exact (Program.locatedResult_parse unit.text file).mono (fun _ => hwithin) fun _ hp => hp.mono
    fun _ => hwithin

theorem CompiledUnit.locatedResult_compile (options : Options) (loader : Loader) (name : String)
    (entry : Option Path) :
    LocatedResult (compile options loader name sources file entry).sources.Contains
      (compile options loader name sources file entry).result fun _ => True := by
  have hparsed := locatedResult_parse_of_unit hunit
  cases hparse : Program.parse (sources.text file) file with
  | error e =>
    rw [hparse] at hparsed
    obtain ⟨hresult, hsources⟩ := settles_compile (Compilation.settles_compile_of_error hparse)
    rw [hresult, hsources]
    exact hparsed
  | ok program =>
    rw [hparse] at hparsed
    obtain ⟨hresult, hsources⟩ := settles_compile (Compilation.settles_compile_of_ok hparse)
    rw [hresult, hsources]
    refine (Importer.located_run loader entry (s := .new sources) hparsed).2.bind
      fun expanded hexpanded => ?_
    refine ((Lowering.locates_runPasses _ hexpanded).result trivial).bind fun lowered hlowered => ?_
    exact .map ((Markup.locates_ofProgram options hlowered).result trivial)

theorem Reported.contains {span : Span} (h : Reported options loader name sources file entry span) :
    (CompiledUnit.compile options loader name sources file entry).sources.Contains span := by
  have hparsed := locatedResult_parse_of_unit hunit
  -- once the script has been read, the sources in the end are those of the importer
  have hend {program : Program} (hparse : Program.parse (sources.text file) file = .ok program) :
      (CompiledUnit.compile options loader name sources file entry).sources =
        (outcome (Importer.run loader entry program.body) (.new sources)).2.sources :=
    (CompiledUnit.settles_compile (Compilation.settles_compile_of_ok hparse)).2
  cases h with
  | parsed hparse hspan =>
    rw [hparse] at hparsed
    rw [hend hparse]
    exact (hparsed span hspan).mono
      (Importer.located_run loader entry (s := .new sources) hparsed).1
  | expanded hparse himports hspan =>
    rw [hparse] at hparsed
    have hexpanded := (Importer.located_run loader entry (s := .new sources) hparsed).2
    rw [hend hparse]
    rw [himports] at hexpanded ⊢
    exact hexpanded span hspan
  | lowered hparse himports hlowers hspan =>
    rw [hparse] at hparsed
    have hexpanded := (Importer.located_run loader entry (s := .new sources) hparsed).2
    rw [hend hparse]
    rw [himports] at hexpanded ⊢
    exact Stmt.LocatedAll.lowers hexpanded hlowers span hspan
  | refused hresult hspan =>
    have herror := CompiledUnit.locatedResult_compile hunit options loader name entry
    rw [hresult] at herror
    exact herror span hspan

end Units

/-- **Every place that a compilation reports exists.**  A unit is added to any source map and
compiled, with a loader of finitely many identities.  Whatever span stands in the script, in the
script with its imports expanded, in the lowered script or in the error, lies in the text of a unit
that has been loaded in the end, from one character to a later one or to the end of the text; and
its location is that of the text in front of it, with the name of that unit.  An error that has no
place is one of access to a file, and every other one is shown with its location in front. -/
theorem reported_places_exist (options : Options) (loader : Loader) (earlier : SourceMap)
    (name : String) (path : Option Path) (text : String) (entry : Option Path) : let sources :=
  (earlier.add name path text).1
    let file := (earlier.add name path text).2
    let unit := CompiledUnit.compile options loader name sources file entry
    (∀ span, Reported options loader name sources file entry span →
      unit.sources.Contains span ∧ unit.sources.Shows span (unit.sources.locate span)) ∧
    ∀ e, unit.result = .error e → (∃ reason, e = .io reason) ∨
      ∃ span location, e.span? = some span ∧ unit.sources.Contains span ∧
      unit.sources.Shows span location ∧
        unit.renderError? = some (location.text ++ ": " ++ e.kind.label ++ ": " ++ e.message) := by
  intro sources file unit
  have hunit := earlier.getElem?_files_add name path text
  refine ⟨fun span hspan => ?_, fun e he => ?_⟩
  · have hcontains := hspan.contains hunit
    exact ⟨hcontains, hcontains.shows⟩
  · cases hspan : e.span? with
    | none =>
      cases e with
      | io reason => exact .inl ⟨reason, rfl⟩
      | _ => cases hspan
    | some span =>
      have hcontains : unit.sources.Contains span := (Reported.refused he hspan).contains hunit
      refine .inr ⟨span, _, rfl, hcontains, hcontains.shows, ?_⟩
      rw [CompiledUnit.renderError?, he]
      simp only [Error.render, hspan]

/-- Columns count characters, not bytes. -/
example :
    (CompiledUnit.ofSource {} (UnitTable.loader []) "main" "größe = 1;\nmaß = @;").renderError? =
      some "main:2:7: lex error: unrecognized character '@'" := by
  decide +kernel

end EdgeScript
