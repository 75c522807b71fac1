import EdgeScript.Proofs.Import.Serving

/-!
# The marks of units being expanded

While a unit is expanded it is marked in the registry.  The marks are what ends the expansion of
units that require each other with force, so they have to be right at every moment
(`Registry.Exact`): no unit is marked twice, and only imported units are marked.  They are, on every
way through a script (`Serves.exact`), and whoever sets a mark takes it back, also after a failure.
-/

set_option autoImplicit false

namespace EdgeScript

open Pass

namespace Registry

/-- No unit is marked as being expanded twice, and only imported units are marked. -/
structure Exact (r : Registry) : Prop where
  distinct : r.inProgress.Pairwise fun p q => p.same q = false
  imported : ∀ p ∈ r.inProgress, r.contains p = true

variable {r : Registry} {path : Path}

/-- A mark stays when another unit is marked. -/
theorem contains_register_of_contains {p : Path} (h : r.contains p = true) :
    (r.register path).contains p = true := by
  rw [register]
  split
  · exact h
  · rw [contains] at h ⊢
    rw [List.any_append, h, Bool.true_or]

theorem contains_register_self (r : Registry) (path : Path) :
    (r.register path).contains path = true := by
  rw [register]
  split
  · assumption
  · simp [contains, Path.same_iff]

theorem Exact.of_inProgress_eq_nil (h : r.inProgress = []) : r.Exact :=
  ⟨by rw [h]; exact .nil, by simp [h]⟩

/-- Marking a unit as imported keeps the marks right. -/
theorem Exact.register (h : r.Exact) (path : Path) : (r.register path).Exact where
  distinct := by
    rw [inProgress_register]
    exact h.distinct
  imported p hp := by
    rw [inProgress_register] at hp
    exact contains_register_of_contains (h.imported p hp)

/-- So does marking it as in progress, if it is imported and not in progress. -/
theorem Exact.enter (h : r.Exact) (hidle : r.isInProgress path = false)
    (himported : r.contains path = true) : (r.enter path).Exact where
  distinct := by
    rw [inProgress_enter, List.pairwise_append]
    refine ⟨h.distinct, List.pairwise_singleton .., fun p hp q hq => ?_⟩
    rw [isInProgress, List.any_eq_false] at hidle
    rw [List.mem_singleton.1 hq, Path.same_comm]
    exact Bool.eq_false_iff.2 (hidle p hp)
  imported p hp := by
    rw [inProgress_enter, List.mem_append, List.mem_singleton] at hp
    rcases hp with hp | rfl
    · exact h.imported p hp
    · exact himported

/-- So does taking the innermost mark back. -/
theorem Exact.leave (h : r.Exact) : r.leave.Exact where
  distinct := h.distinct.sublist (List.dropLast_sublist _)
  imported p hp := h.imported p ((List.dropLast_sublist _).subset hp)

end Registry

namespace Importer

variable {loader : Loader} {origin : Option Path} {requests : List Request} {s t : Importer}
  {trace : List Passed} {result : Except Error (List (List Stmt))}

/-- The marks are right after a request if they were before, -/
theorem exact_of_answer {r : Request} {a : Answer} (h : answer loader origin r s = (a, t))
    (hs : s.registry.Exact) : t.registry.Exact := by
  cases answered_of_answer h with
  | refused => exact hs
  | skipped => exact hs
  | unparsable => exact hs.register _
  | opened => exact hs.register _

/-- and also in the unit that is opened. -/
theorem exact_of_opened {r : Request} {path : Path} {body : List Stmt}
    (h : answer loader origin r s = (.opened path body, t)) (hs : s.registry.Exact) :
    (t.entering path).registry.Exact := by
  have ht := exact_of_answer h hs
  cases answered_of_answer h with
  | opened hresolve hidle =>
    refine ht.enter ?_ (Registry.contains_register_self ..)
    simpa [opening, loading, Registry.isInProgress] using hidle

/-- **The marks are right at every moment**, if they are at the start. -/
theorem Serves.exact (h : Serves loader origin requests s trace result t) (hs : s.registry.Exact) :
    t.registry.Exact ∧ ∀ p ∈ trace, p.registry.Exact := by
  induction h with
  | done => exact ⟨hs, by simp⟩
  | refused h =>
    have ht := exact_of_answer h hs
    exact ⟨ht, List.forall_mem_singleton.2 ht⟩
  | skipped h _ ih =>
    have ht := exact_of_answer h hs
    obtain ⟨hu, htrace⟩ := ih ht
    exact ⟨hu, List.forall_mem_cons.2 ⟨ht, htrace⟩⟩
  | failed h _ ih =>
    have hentered := exact_of_opened h hs
    obtain ⟨hu, htrace⟩ := ih hentered
    refine ⟨hu.leave, List.forall_mem_cons.2 ⟨exact_of_answer h hs, ?_⟩⟩
    exact forall_mem_whileIn.2 ⟨hentered, htrace, hu.leave⟩
  | expanded h _ _ ih ih' =>
    have hentered := exact_of_opened h hs
    obtain ⟨hu, htrace⟩ := ih hentered
    obtain ⟨hv, htrace'⟩ := ih' hu.leave
    refine ⟨hv,
      List.forall_mem_cons.2 ⟨exact_of_answer h hs, List.forall_mem_append.2 ⟨?_, htrace'⟩⟩⟩
    exact forall_mem_whileIn.2 ⟨hentered, htrace, hu.leave⟩

/-- So they are right in every state of the expansion. -/
theorem Resolves.exact {entry : Option Path} {stmts : List Stmt} {result : Except Error (List Stmt)}
    (h : Resolves loader entry stmts s trace result t) (hs : s.registry.inProgress = []) :
    ∀ p ∈ trace, p.registry.Exact := by
  have hexact := Registry.Exact.of_inProgress_eq_nil hs
  cases h with
  | nowhere h => exact (h.exact hexact).2
  | @unit path _ _ t trace _ h =>
    have hregistered := hexact.register path
    have hentered : ((s.registering path).entering path).registry.Exact := by
      refine hregistered.enter ?_ (Registry.contains_register_self ..)
      simp [Registry.isInProgress, hs]
    obtain ⟨ht, htrace⟩ := h.exact hentered
    refine List.forall_mem_cons.2 ⟨hregistered, ?_⟩
    exact forall_mem_whileIn.2 ⟨hentered, htrace, ht.leave⟩

/-! ## Taking marks back -/

/-- A pass that leaves the marks as it found them, whether it fails or not. -/
def Restores {α : Type} (x : Pass Importer α) : Prop :=
  ∀ s, (outcome x s).2.registry.inProgress = s.registry.inProgress

/-- A request gives back the marks of units in progress, whether it fails or not. -/
theorem restores_requireUnit {inner : Inner}
    (hinner : ∀ origin stmts, Restores (inner origin stmts)) (origin : Option Path) (r : Request) :
    Restores (requireUnit loader inner origin r.path r.force r.span) := by
  intro s
  rw [outcome_requireUnit]
  rcases h : answer loader origin r s with ⟨e | _ | ⟨path, body⟩, t⟩
  · exact inProgress_of_answer h
  · exact inProgress_of_answer h
  · exact (inProgress_leaving (hinner (some path) body _)).trans (inProgress_of_answer h)

/-- So do requests one after the other. -/
theorem restores_serve {inner : Inner} (hinner : ∀ origin stmts, Restores (inner origin stmts))
    (origin : Option Path) (requests : List Request) :
    Restores (serve (requireUnit loader inner origin) requests) := by
  induction requests with
  | nil => exact fun s => rfl
  | cons r rest ih =>
    intro s
    have hr :
        (outcome (requireUnit loader inner origin r.path r.force r.span) s).2.registry.inProgress =
        s.registry.inProgress := restores_requireUnit hinner origin r s
    rw [outcome_serve_cons]
    rcases h : outcome (requireUnit loader inner origin r.path r.force r.span) s with ⟨_ | part, t⟩
    · rwa [h] at hr
    · rw [h] at hr
      exact (ih t).trans hr

/-- So does the expansion of a unit, by induction on the depth. -/
theorem restores_expandAt (loader : Loader) (depth : Nat) (origin : Option Path)
    (stmts : List Stmt) : Restores (expandAt loader depth origin stmts) := by
  induction depth generalizing origin stmts with
  | zero => exact fun s => rfl
  | succ depth ih =>
    intro s
    rw [expandAt, expandStmts_eq, outcome_map]
    exact restores_serve ih origin _ s

theorem restores_run (loader : Loader) (entry : Option Path) (stmts : List Stmt) :
    Restores (run loader entry stmts) := by
  intro s
  cases entry with
  | none => exact restores_expandAt loader _ none stmts s
  | some path =>
    rw [run, outcome_bind]
    show (outcome (whileExpanding path _) (s.registering path)).2.registry.inProgress = _
    rw [outcome_whileExpanding]
    exact (inProgress_leaving (restores_expandAt loader _ (some path) stmts _)).trans
      (Registry.inProgress_register ..)

/-- The importer after scripts, each the unit at its path if it has one, whether they could be
expanded or not. -/
def afterAll (loader : Loader) (scripts : List (Option Path × List Stmt)) (s : Importer) :
    Importer :=
  scripts.foldl (fun s script => (outcome (run loader script.1 script.2) s).2) s

/-- Between scripts there is no unit in progress that was not before. -/
theorem inProgress_afterAll (loader : Loader) (scripts : List (Option Path × List Stmt))
    (s : Importer) : (afterAll loader scripts s).registry.inProgress = s.registry.inProgress := by
  induction scripts generalizing s with
  | nil => rfl
  | cons script scripts ih => exact (ih _).trans (restores_run loader script.1 script.2 s)

/-- **The expansion of imports ends, with the right marks at every moment and none left behind.**
With a loader that has only finitely many identities to give, as every `Loader` here does, it has a
finite description whatever the units require of each other.  No registry that it passes marks a
unit twice or one that is not imported, and it leaves the marks as it found them; so does every
`require` on the way, whether it fails or not. -/
theorem expansion_ends_with_exact_marks (loader : Loader) (sources : SourceMap)
    (earlier : List (Option Path × List Stmt)) (entry : Option Path) (stmts : List Stmt) :
    let s := afterAll loader earlier (Importer.new sources)
    (∃ trace, Resolves loader entry stmts s trace (outcome (run loader entry stmts) s).1
        (outcome (run loader entry stmts) s).2 ∧
      ∀ r ∈ s.registry :: trace.map Passed.registry, r.Exact) ∧
    Restores (run loader entry stmts) ∧
    ∀ depth origin request force span,
      Restores (requireUnit loader (expandAt loader depth) origin request force span) := by
  intro s
  have hs : s.registry.inProgress = [] := inProgress_afterAll loader earlier (Importer.new sources)
  obtain ⟨trace, hresolves⟩ := exists_resolves loader entry stmts s
  refine ⟨⟨trace, hresolves, ?_⟩, restores_run loader entry stmts, ?_⟩
  · exact List.forall_mem_cons.2
      ⟨.of_inProgress_eq_nil hs, List.forall_mem_map.2 (hresolves.exact hs)⟩
  · intro depth origin request force span
    exact restores_requireUnit (restores_expandAt loader depth) origin ⟨request, force, span⟩

end Importer

end EdgeScript
