import EdgeScript.Proofs.Import.Once
import EdgeScript.Proofs.Import.Splice

/-!
# Imports that fail

A unit is marked as imported as soon as its text has been read, and nothing takes the mark back.  So
the mark says that the unit has been read, not that it has been expanded: `Loads` describes the
marks that a script leaves behind by the texts that have been read for it, whether the script fails
or not.

`Breaks` follows the way to a failure and lists the units on it: each of them has been read, and
either is no script or has a request that fails.  They all stay marked (`Serves.loads`), so that the
next request of such a unit is skipped and the failure is not seen again.
-/

set_option autoImplicit false

namespace EdgeScript

open Pass

theorem Registry.contains_register_iff {r : Registry} {path p : Path} :
    (r.register path).contains p = true ↔ r.contains p = true ∨ p.same path = true := by
  constructor
  · intro h
    rw [register] at h
    split at h
    · exact .inl h
    · rw [contains, List.any_append, Bool.or_eq_true] at h
      exact h.imp id (by simp)
  · rintro (h | h)
    · exact contains_register_of_contains h
    · rw [contains_congr _ h]
      exact contains_register_self r path

namespace Importer

/-! ## What has been read -/

/-- Between two importers the texts of the units at the paths have been read, and these are the
units that have been marked as imported. -/
structure Loads (s : Importer) (paths : List Path) (t : Importer) : Prop where
  files : t.sources.files.toList.map SourceFile.path =
    s.sources.files.toList.map SourceFile.path ++ paths.map some
  contains_iff : ∀ p, t.registry.contains p = true ↔
    s.registry.contains p = true ∨ ∃ q ∈ paths, p.same q = true

variable {loader : Loader} {origin : Option Path} {requests : List Request} {s t u : Importer}
  {paths paths' : List Path} {trace : List Passed} {result : Except Error (List (List Stmt))}

theorem Loads.nil (s : Importer) : Loads s [] s :=
  ⟨by simp, by simp⟩

theorem Loads.append (h : Loads s paths t) (h' : Loads t paths' u) :
    Loads s (paths ++ paths') u where
  files := by rw [h'.files, h.files, List.map_append, List.append_assoc]
  contains_iff p := by
    rw [h'.contains_iff, h.contains_iff, or_assoc]
    simp only [List.mem_append, or_and_right, exists_or]

/-- Marks of units being expanded do not count. -/
theorem Loads.inside {path : Path} (h : Loads (t.entering path) paths u) :
    Loads t paths u.leaving :=
  ⟨h.files, h.contains_iff⟩

theorem loads_loading (s : Importer) (path : Path) (text : String) :
    Loads s [path] (s.loading path text) where
  files := by simp [loading, SourceMap.add]
  contains_iff p := by simp [loading, Registry.contains_register_iff]

theorem loads_of_skipped {r : Request} (h : answer loader origin r s = (.skipped, t)) :
    Loads s [] t := by
  cases answered_of_answer h with
  | skipped n => exact ⟨by simp [skipping], by simp [skipping]⟩

theorem loads_of_opened {r : Request} {path : Path} {body : List Stmt}
    (h : answer loader origin r s = (.opened path body, t)) : Loads s [path] t := by
  cases answered_of_answer h with
  | opened =>
    have hloading := loads_loading s path ‹_›
    exact ⟨hloading.files, hloading.contains_iff⟩

/-- A request is refused before the text of a unit has been read, or because the text is no
script. -/
theorem answer_eq_refused {r : Request} {e : Error}
    (h : answer loader origin r s = (.refused e, t)) :
    t = s ∨ ∃ path text, loader.resolve origin r.path = some path ∧ loader.read path = .ok text ∧
      Program.parse text s.sources.files.size = .error e ∧ t = s.loading path text := by
  rw [answer] at h
  cases hresolve : loader.resolve origin r.path with
  | none =>
    rw [hresolve] at h
    cases h
    exact .inl rfl
  | some path =>
    rw [hresolve] at h
    simp only at h
    split at h
    · split at h
      · cases h
        exact .inl rfl
      · cases h
    · split at h
      · cases h
      · cases hread : loader.read path with
        | error reason =>
          rw [hread] at h
          cases h
          exact .inl rfl
        | ok text =>
          rw [hread] at h
          simp only at h
          cases hparse : Program.parse text s.sources.files.size with
          | ok program =>
            rw [hparse] at h
            cases h
          | error e' =>
            rw [hparse] at h
            cases h
            exact .inr ⟨path, text, rfl, hread, hparse, rfl⟩

/-! ## The way to a failure -/

/-- `Breaks loader origin requests s units e t`: the requests of the unit at `origin`, answered one
after the other from the state `s`, fail with `e` in the state `t`.  `units` are the units on the
way to the failure, the outermost first: their texts have been read, but they have not been
expanded. -/
inductive Breaks (loader : Loader) : Option Path → List Request → Importer → List Path → Error →
    Importer → Prop
  | refused {origin : Option Path} {r : Request} {rest : List Request} {s : Importer} {e : Error}
      (h : answer loader origin r s = (.refused e, s)) : Breaks loader origin (r :: rest) s [] e s
  | unparsable {origin : Option Path} {r : Request} {rest : List Request} {s : Importer}
      {path : Path} {text : String} {e : Error}
      (h : answer loader origin r s = (.refused e, s.loading path text))
      (hresolve : loader.resolve origin r.path = some path) (hread : loader.read path = .ok text)
      (hparse : Program.parse text s.sources.files.size = .error e) :
      Breaks loader origin (r :: rest) s [path] e (s.loading path text)
  | skipped {origin : Option Path} {r : Request} {rest : List Request} {s t u : Importer}
      {units : List Path} {e : Error} (h : answer loader origin r s = (.skipped, t))
      (hrest : Breaks loader origin rest t units e u) : Breaks loader origin (r :: rest) s units e u
  | expanded {origin : Option Path} {r : Request} {rest : List Request} {s t u v : Importer}
      {path : Path} {body : List Stmt} {trace : List Passed} {parts : List (List Stmt)}
      {units : List Path} {e : Error} (h : answer loader origin r s = (.opened path body, t))
      (hinner : Serves loader (some path) (Stmt.requestsInAll .handlerFirst body) (t.entering path)
        trace (.ok parts) u)
      (hrest : Breaks loader origin rest u.leaving units e v) :
      Breaks loader origin (r :: rest) s units e v
  | inside {origin : Option Path} {r : Request} {rest : List Request} {s t u : Importer}
      {path : Path} {body : List Stmt} {units : List Path} {e : Error}
      (h : answer loader origin r s = (.opened path body, t))
      (hinner : Breaks loader (some path) (Stmt.requestsInAll .handlerFirst body)
        (t.entering path) units e u) :
      Breaks loader origin (r :: rest) s (path :: units) e u.leaving

theorem eq_error_of_map {α β : Type} {f : α → β} {result : Except Error α} {e : Error}
    (h : result.map f = .error e) : result = .error e := by
  cases result with
  | ok parts => cases h
  | error e' =>
    cases h
    rfl

/-- **What has been read is marked**, on every way through requests, and a failure comes on a way
through units that have been read. -/
theorem Serves.loads (h : Serves loader origin requests s trace result t) :
    ∃ paths, Loads s paths t ∧ ∀ e, result = .error e →
      ∃ units, Breaks loader origin requests s units e t ∧ units ⊆ paths := by
  induction h with
  | done => exact ⟨[], .nil _, fun e h => by cases h⟩
  | @refused _ r rest s t e h =>
    rcases answer_eq_refused h with rfl | ⟨path, text, hresolve, hread, hparse, rfl⟩
    · refine ⟨[], .nil _, fun e' he => ?_⟩
      cases he
      exact ⟨[], .refused h, List.Subset.refl _⟩
    · refine ⟨[path], loads_loading _ _ _, fun e' he => ?_⟩
      cases he
      exact ⟨[path], .unparsable h hresolve hread hparse, List.Subset.refl _⟩
  | skipped h _ ih =>
    obtain ⟨paths, hpaths, hbreaks⟩ := ih
    refine ⟨paths, (loads_of_skipped h).append hpaths, fun e he => ?_⟩
    obtain ⟨units, hunits, hsub⟩ := hbreaks e (eq_error_of_map he)
    exact ⟨units, .skipped h hunits, hsub⟩
  | @failed _ _ _ _ _ _ path _ _ e h _ ih =>
    obtain ⟨paths, hpaths, hbreaks⟩ := ih
    refine ⟨path :: paths, (loads_of_opened h).append hpaths.inside, fun e' he => ?_⟩
    cases he
    obtain ⟨units, hunits, hsub⟩ := hbreaks e rfl
    exact ⟨path :: units, .inside h hunits, List.cons_subset_cons _ hsub⟩
  | @expanded _ _ _ _ _ _ _ path _ _ _ _ _ h hinner _ ih ih' =>
    obtain ⟨paths, hpaths, -⟩ := ih
    obtain ⟨paths', hpaths', hbreaks⟩ := ih'
    refine ⟨path :: (paths ++ paths'), (loads_of_opened h).append (hpaths.inside.append hpaths'),
      fun e he => ?_⟩
    obtain ⟨units, hunits, hsub⟩ := hbreaks e (eq_error_of_map he)
    refine ⟨units, .expanded h hinner hunits, fun p hp => ?_⟩
    exact List.mem_cons_of_mem _ (List.mem_append_right _ (hsub hp))

/-- `Interrupted loader entry stmts s units e t`: the expansion of a script that is the unit at
`entry` fails with `e` and leads from the state `s` to `t`.  `units` are the units on the way to the
failure, the script itself included if it is one. -/
inductive Interrupted (loader : Loader) : Option Path → List Stmt → Importer → List Path → Error →
    Importer → Prop
  | nowhere {stmts : List Stmt} {s t : Importer} {units : List Path} {e : Error}
      (h : Breaks loader none (Stmt.requestsInAll .handlerFirst stmts) s units e t) :
      Interrupted loader none stmts s units e t
  | unit {path : Path} {stmts : List Stmt} {s t : Importer} {units : List Path} {e : Error}
      (h : Breaks loader (some path) (Stmt.requestsInAll .handlerFirst stmts)
        ((s.registering path).entering path) units e t) :
      Interrupted loader (some path) stmts s (path :: units) e t.leaving

theorem Resolves.interrupted {entry : Option Path} {stmts : List Stmt}
    {result : Except Error (List Stmt)} {e : Error}
    (h : Resolves loader entry stmts s trace result t) (hresult : result = .error e) :
    ∃ units paths, Interrupted loader entry stmts s units e t ∧ units ⊆ entry.toList ++ paths ∧
      t.sources.files.toList.map SourceFile.path =
        s.sources.files.toList.map SourceFile.path ++ paths.map some ∧
      ∀ p, t.registry.contains p = true ↔
        s.registry.contains p = true ∨ ∃ q ∈ entry.toList ++ paths, p.same q = true := by
  cases h with
  | nowhere h =>
    obtain ⟨paths, hpaths, hbreaks⟩ := h.loads
    obtain ⟨units, hunits, hsub⟩ := hbreaks e (eq_error_of_map hresult)
    exact ⟨units, paths, .nowhere hunits, hsub, hpaths.files, hpaths.contains_iff⟩
  | @unit path _ _ _ _ _ h =>
    obtain ⟨paths, hpaths, hbreaks⟩ := h.loads
    obtain ⟨units, hunits, hsub⟩ := hbreaks e (eq_error_of_map hresult)
    refine ⟨path :: units, paths, .unit hunits, List.cons_subset_cons _ hsub, hpaths.inside.files,
      fun p => ?_⟩
    rw [hpaths.inside.contains_iff, registering, Registry.contains_register_iff]
    simp [or_assoc]

theorem contains_afterAll (loader : Loader) (scripts : List (Option Path × List Stmt)) {p : Path}
    (h : s.registry.contains p = true) :
    (afterAll loader scripts s).registry.contains p = true := by
  obtain ⟨logs, hsession⟩ := exists_session loader scripts s
  exact hsession.once.kept p h

/-- **A unit that has been read stays marked when its import fails.**  When the expansion of a
script fails, the units that are marked as imported are those that were marked before, the script
itself and all units whose text has been read; the units on the way to the failure are among them,
though none of them has been expanded.  From then on a request without force of such a unit is
skipped, whatever scripts come in between.  So a failure leaves no new unit marked only if there is
no new unit on the way to it.  The loader is any that has finitely many identities to give, so that
failing is told apart from going on without end. -/
theorem failed_imports_stay_marked {loader : Loader} {entry : Option Path} {stmts : List Stmt}
    {s t : Importer} {e : Error} (h : Fails (run loader entry stmts) s e t) :
    ∃ units paths, Interrupted loader entry stmts s units e t ∧ units ⊆ entry.toList ++ paths ∧
      t.sources.files.toList.map SourceFile.path =
        s.sources.files.toList.map SourceFile.path ++ paths.map some ∧
      (∀ p, t.registry.contains p = true ↔
        s.registry.contains p = true ∨ ∃ q ∈ entry.toList ++ paths, p.same q = true) ∧
      (∀ p ∈ units, ∀ later origin request span path, loader.resolve origin request = some path →
        path.same p = true →
        ∃ n, ∀ inner, outcome (requireUnit loader inner origin request false span)
          (afterAll loader later t) = (.ok [], (afterAll loader later t).skipping n)) ∧
      ((∀ p ∈ units, s.registry.contains p = false → t.registry.contains p = false) ↔
        ∀ p ∈ units, s.registry.contains p = true) := by
  obtain ⟨trace, hresolves⟩ := exists_resolves loader entry stmts s
  rw [h] at hresolves
  obtain ⟨units, paths, hinterrupted, hsub, hfiles, hcontains⟩ := hresolves.interrupted rfl
  have hmarked : ∀ p ∈ units, t.registry.contains p = true := fun p hp =>
    (hcontains p).2 (.inr ⟨p, hsub hp, Path.same_iff.2 rfl⟩)
  refine ⟨units, paths, hinterrupted, hsub, hfiles, hcontains, ?_, ?_⟩
  · intro p hp later origin request span path hresolve hsame
    have hseen : (afterAll loader later t).registry.contains path = true := by
      rw [Registry.contains_congr _ hsame]
      exact contains_afterAll loader later (hmarked p hp)
    have hskipped : ∃ n, answer loader origin ⟨request, false, span⟩ (afterAll loader later t) =
        (.skipped, (afterAll loader later t).skipping n) := answer_eq_skipped hresolve rfl hseen
    obtain ⟨n, hn⟩ := hskipped
    refine ⟨n, fun inner => ?_⟩
    have houtcome :=
      outcome_requireUnit loader inner origin ⟨request, false, span⟩ (afterAll loader later t)
    rwa [hn] at houtcome
  · constructor
    · intro hforgotten p hp
      by_contra hnew
      rw [Bool.not_eq_true] at hnew
      cases (hmarked p hp).symm.trans (hforgotten p hp hnew)
    · intro hold p hp hnew
      cases (hold p hp).symm.trans hnew

/-- The failure is in a unit that a unit requires; both have been read. -/
theorem failed_imports_stay_marked_nested :
    let loader := UnitTable.loader [(⟨"a.js"⟩, "require('b.js');"), (⟨"b.js"⟩, "x = ;")]
    let script : List Stmt := [.require "a.js" false ⟨0, 16, 0⟩]
    ∃ e t, Fails (run loader (some ⟨"main.js"⟩) script) (Importer.new .empty) e t ∧
      t.sources.names = ["a.js", "b.js"] ∧
      ∃ units paths, Interrupted loader (some ⟨"main.js"⟩) script (Importer.new .empty) units e t ∧
        units ⊆ ⟨"main.js"⟩ :: paths ∧
        t.sources.files.toList.map SourceFile.path = paths.map some := by
  intro loader script
  have hfailed : (outcome (run loader (some ⟨"main.js"⟩) script) (Importer.new .empty)).1.isOk =
      false := by
    decide +kernel
  have hnames :
      (outcome (run loader (some ⟨"main.js"⟩) script) (Importer.new .empty)).2.sources.names =
      ["a.js", "b.js"] := by
    decide +kernel
  rcases hrun : outcome (run loader (some ⟨"main.js"⟩) script)
    (Importer.new .empty) with ⟨e | out, t⟩
  · rw [hrun] at hnames
    obtain ⟨units, paths, hinterrupted, hsub, hfiles, -⟩ := failed_imports_stay_marked hrun
    exact ⟨e, t, hrun, hnames, units, paths, hinterrupted, hsub, hfiles⟩
  · rw [hrun] at hfailed
    cases hfailed

/-- A unit that is no script is marked all the same, and when it is required once more, nothing is
missed. -/
theorem failed_import_is_skipped_afterwards :
    let loader := UnitTable.loader [(⟨"b.js"⟩, "x = ;")]
    let script : List Stmt := [.require "b.js" false ⟨0, 16, 0⟩]
    let start := Importer.new .empty
    let after := (outcome (run loader none script) start).2
    (outcome (run loader none script) start).1.isOk = false ∧
      start.registry.contains ⟨"b.js"⟩ = false ∧ after.registry.contains ⟨"b.js"⟩ = true ∧
      succeeds (outcome (run loader none script) after).1 List.isEmpty = true := by
  decide +kernel

end Importer

end EdgeScript
