import Mathlib.Algebra.GroupWithZero.Nat
import Mathlib.Data.Finset.Card
import Mathlib.Data.List.Dedup
import EdgeScript.Proofs.Import.Marks

/-!
# Units are imported once

An importer expands a unit at the first request without force that names it, and never again without
force: neither later in the script nor in the scripts that follow.  A log tells which requests are
met on the way and how they are answered, and `Session` lists the logs of scripts that share an
importer.

* `Serves.once`: what is opened without force was not registered before, and what is opened is
  registered then.  Registered units stay registered, so nothing is opened twice without force.
* `Serves.counted`: where no request is refused, the counters count the answers, every unit that is
  opened is loaded, and no request of a script or of an opened unit is passed over.

The main statement puts both together, for every sequence of scripts.
-/

set_option autoImplicit false

namespace EdgeScript

open Pass

namespace Stmt

mutual

theorem length_requestsIn (order : WalkOrder) :
    ∀ s, (requestsIn order s).length = (requests s).length
  | .require .. => by rw [requestsIn, requests]; rfl
  | .function _ _ _ body _ => by rw [requestsIn, requests, length_requestsInAll order body]
  | .ifChain branches (some body) _ => by
    rw [requestsIn, requests, List.length_append, List.length_append,
      length_requestsInBranches order branches, length_requestsInAll order body]
  | .ifChain branches none _ => by
    rw [requestsIn, requests, length_requestsInBranches order branches]
  | .forLoop _ _ body _ => by rw [requestsIn, requests, length_requestsInAll order body]
  | .attempt body (some handler) _ => by
    have hbody := length_requestsInAll order body
    have hhandler := length_requestsInAll order handler
    rw [requestsIn, requests, List.length_append]
    cases order <;> simp only [WalkOrder.join, List.length_append] <;> omega
  | .attempt body none _ => by rw [requestsIn, requests, length_requestsInAll order body]
  | .block body _ => by rw [requestsIn, requests, length_requestsInAll order body]
  | .atom _ => by rw [requestsIn, requests]; rfl
  | .breakLoop _ => by rw [requestsIn, requests]; rfl

/-- There are as many requests in every order. -/
theorem length_requestsInAll (order : WalkOrder) :
    ∀ stmts, (requestsInAll order stmts).length = (requestsAll stmts).length
  | [] => by rw [requestsInAll, requestsAll]; rfl
  | s :: rest => by
    rw [requestsInAll, requestsAll, List.length_append, List.length_append,
      length_requestsIn order s, length_requestsInAll order rest]

theorem length_requestsInBranches (order : WalkOrder) :
    ∀ branches, (requestsInBranches order branches).length = (requestsBranches branches).length
  | [] => by rw [requestsInBranches, requestsBranches]; rfl
  | ⟨_, body, _⟩ :: rest => by
    rw [requestsInBranches, requestsBranches, List.length_append, List.length_append,
      length_requestsInAll order body, length_requestsInBranches order rest]

end

end Stmt

namespace Registry

theorem contains_congr (r : Registry) {p q : Path} (h : p.same q = true) :
    r.contains p = r.contains q := by
  have hsame : p.same = q.same := by
    funext x
    rw [Bool.eq_iff_iff, Path.same_iff, Path.same_iff, Path.same_iff.1 h]
  rw [contains, contains, hsame]

end Registry

namespace Importer

/-! ## Logs -/

/-- The unit that is expanded at a request. -/
def openedUnit? : Request × Answer → Option Path
  | (_, .opened path _) => some path
  | _ => none

/-- The units that are expanded, each as often as that happens. -/
def opened (log : Log) : List Path :=
  log.filterMap openedUnit?

/-- The units that are expanded at requests without force. -/
def openedUnforced (log : Log) : List Path :=
  opened (log.filter fun met => !met.1.force)

/-- How many requests are skipped. -/
def skippedCount (log : Log) : Nat :=
  log.countP fun met => met.2 matches .skipped

/-- How many requests the unit has that is expanded at a request. -/
def requestsInside : Request × Answer → Nat
  | (_, .opened _ body) => (Stmt.requestsAll body).length
  | _ => 0

/-- How many requests the expanded units have. -/
def requestsInsideAll (log : Log) : Nat :=
  (log.map requestsInside).sum

theorem opened_append (log log' : Log) : opened (log ++ log') = opened log ++ opened log' :=
  List.filterMap_append

theorem openedUnforced_append (log log' : Log) :
    openedUnforced (log ++ log') = openedUnforced log ++ openedUnforced log' := by
  rw [openedUnforced, List.filter_append, opened_append]
  rfl

theorem opened_of_mem_openedUnforced {log : Log} {p : Path} (h : p ∈ openedUnforced log) :
    p ∈ opened log :=
  (List.filter_sublist.filterMap _).subset h

variable {loader : Loader} {origin : Option Path} {requests : List Request} {s t u : Importer}
  {log log' : Log} {trace : List Passed} {result : Except Error (List (List Stmt))}

/-! ## What is opened without force -/

/-- Between two importers the units of a log are expanded, and without force each only once and only
where it was not registered. -/
structure Once (s : Importer) (log : Log) (t : Importer) : Prop where
  kept : ∀ p, s.registry.contains p = true → t.registry.contains p = true
  registered : ∀ p ∈ opened log, t.registry.contains p = true
  new : ∀ p ∈ openedUnforced log, s.registry.contains p = false
  distinct : (openedUnforced log).Pairwise fun p q => p.same q = false

theorem Once.nil (s : Importer) : Once s [] s where
  kept _ h := h
  registered _ h := absurd h List.not_mem_nil
  new _ h := absurd h List.not_mem_nil
  distinct := .nil

theorem Once.append (h : Once s log t) (h' : Once t log' u) : Once s (log ++ log') u where
  kept p hp := h'.kept p (h.kept p hp)
  registered p hp := by
    rw [opened_append, List.mem_append] at hp
    exact hp.elim (fun hp => h'.kept p (h.registered p hp)) (h'.registered p)
  new p hp := by
    rw [openedUnforced_append, List.mem_append] at hp
    rcases hp with hp | hp
    · exact h.new p hp
    · rw [Bool.eq_false_iff]
      exact fun hs => Bool.eq_false_iff.1 (h'.new p hp) (h.kept p hs)
  distinct := by
    rw [openedUnforced_append, List.pairwise_append]
    refine ⟨h.distinct, h'.distinct, fun p hp q hq => ?_⟩
    -- the first is registered when the second is opened
    have hregistered := h.registered p (opened_of_mem_openedUnforced hp)
    rw [Bool.eq_false_iff]
    intro hsame
    rw [t.registry.contains_congr hsame, h'.new q hq] at hregistered
    cases hregistered

/-- Marks of units being expanded do not count. -/
theorem Once.whileIn {path : Path} (h : Once (t.entering path) (logOf trace) u) :
    Once t (logOf (whileIn path t trace u)) u.leaving := by
  rw [logOf_whileIn]
  exact ⟨h.kept, h.registered, h.new, h.distinct⟩

theorem once_of_unopened {met : Request × Answer} (hmet : openedUnit? met = none)
    (hkept : ∀ p, s.registry.contains p = true → t.registry.contains p = true) :
    Once s [met] t := by
  have hopened : opened [met] = [] := by
    rw [opened, List.filterMap_cons_none hmet, List.filterMap_nil]
  have hunforced : openedUnforced [met] = [] := by
    rw [List.eq_nil_iff_forall_not_mem]
    intro p hp
    have hp := opened_of_mem_openedUnforced hp
    rw [hopened] at hp
    cases hp
  exact ⟨hkept, by simp [hopened], by simp [hunforced], by simp [hunforced]⟩

/-- What one answer does. -/
theorem once_of_answer {r : Request} {a : Answer} (h : answer loader origin r s = (a, t)) :
    Once s [(r, a)] t := by
  cases answered_of_answer h with
  | refused e => exact once_of_unopened rfl fun _ hp => hp
  | skipped n => exact once_of_unopened rfl fun _ hp => hp
  | unparsable e =>
    exact once_of_unopened rfl fun _ hp => Registry.contains_register_of_contains hp
  | @opened path _ _ hresolve hidle hwanted =>
    refine ⟨fun _ hp => Registry.contains_register_of_contains hp, fun p hp => ?_,
      fun p hp => ?_, ?_⟩
    · obtain rfl : p = path := by simpa [opened, openedUnit?] using hp
      exact Registry.contains_register_self ..
    · cases hforce : r.force with
      | true => simp [openedUnforced, opened, hforce] at hp
      | false =>
        obtain rfl : p = path := by simpa [openedUnforced, opened, openedUnit?, hforce] using hp
        exact hwanted hforce
    · cases hforce : r.force <;> simp [openedUnforced, opened, openedUnit?, hforce]

/-- **A unit is opened at most once without force.** -/
theorem Serves.once (h : Serves loader origin requests s trace result t) :
    Once s (logOf trace) t := by
  induction h with
  | done => exact .nil _
  | refused h => exact once_of_answer h
  | skipped h _ ih => exact (once_of_answer h).append ih
  | failed h _ ih => exact (once_of_answer h).append ih.whileIn
  | expanded h _ _ ih ih' =>
    have hrest := ih.whileIn.append ih'
    rw [← logOf_append] at hrest
    exact (once_of_answer h).append hrest

/-! ## Counting -/

/-- Between two importers each request of a log is skipped or its unit expanded; the counters count
both, and the expanded units are loaded. -/
structure Counted (s : Importer) (log : Log) (t : Importer) : Prop where
  answered : log.length = (opened log).length + skippedCount log
  expanded : t.counters.expanded = s.counters.expanded + (opened log).length
  skipped : t.counters.skipped = s.counters.skipped + skippedCount log
  loaded : t.sources.files.toList.map SourceFile.path =
    s.sources.files.toList.map SourceFile.path ++ (opened log).map some

theorem Counted.nil (s : Importer) : Counted s [] s :=
  ⟨rfl, rfl, rfl, (List.append_nil _).symm⟩

theorem skippedCount_append (log log' : Log) :
    skippedCount (log ++ log') = skippedCount log + skippedCount log' :=
  List.countP_append

theorem Counted.append (h : Counted s log t) (h' : Counted t log' u) :
    Counted s (log ++ log') u where
  answered := by
    rw [opened_append, skippedCount_append, List.length_append, List.length_append, h.answered,
      h'.answered]
    omega
  expanded := by rw [h'.expanded, h.expanded, opened_append, List.length_append, Nat.add_assoc]
  skipped := by rw [h'.skipped, h.skipped, skippedCount_append, Nat.add_assoc]
  loaded := by rw [h'.loaded, h.loaded, opened_append, List.map_append, List.append_assoc]

theorem Counted.whileIn {path : Path} (h : Counted (t.entering path) (logOf trace) u) :
    Counted t (logOf (whileIn path t trace u)) u.leaving := by
  rw [logOf_whileIn]
  exact ⟨h.answered, h.expanded, h.skipped, h.loaded⟩

theorem counted_of_answer {r : Request} {a : Answer} (h : answer loader origin r s = (a, t))
    (ha : ∀ e, a ≠ .refused e) : Counted s [(r, a)] t := by
  cases answered_of_answer h with
  | refused e => exact absurd rfl (ha e)
  | skipped n => exact ⟨rfl, rfl, rfl, (List.append_nil _).symm⟩
  | unparsable e => exact absurd rfl (ha e)
  | opened =>
    refine ⟨rfl, rfl, rfl, ?_⟩
    simp [opening, loading, SourceMap.add, opened, openedUnit?]

/-- **Where no request is refused, the counters count the requests.** -/
theorem Serves.counted (h : Serves loader origin requests s trace result t)
    (hresult : result.isOk = true) : Counted s (logOf trace) t := by
  induction h with
  | done => exact .nil _
  | refused h => cases hresult
  | @skipped _ _ _ _ _ _ _ result h _ ih =>
    have hrest := ih (by cases result <;> exact hresult)
    exact (counted_of_answer h (by simp)).append hrest
  | failed h _ ih => cases hresult
  | @expanded _ _ _ _ _ _ _ _ _ _ _ _ result h _ _ ih ih' =>
    have hrest := ih' (by cases result <;> exact hresult)
    have hinside := (ih rfl).whileIn.append hrest
    rw [← logOf_append] at hinside
    exact (counted_of_answer h (by simp)).append hinside

theorem requestsInsideAll_cons (met : Request × Answer) (log : Log) :
    requestsInsideAll (met :: log) = requestsInside met + requestsInsideAll log := by
  rw [requestsInsideAll, List.map_cons, List.sum_cons]
  rfl

theorem requestsInsideAll_append (log log' : Log) :
    requestsInsideAll (log ++ log') = requestsInsideAll log + requestsInsideAll log' := by
  rw [requestsInsideAll, List.map_append, List.sum_append]
  rfl

/-- **Where no request is refused, none is passed over**, neither of the script nor of an expanded
unit. -/
theorem Serves.length_log (h : Serves loader origin requests s trace result t)
    (hresult : result.isOk = true) :
    (logOf trace).length = requests.length + requestsInsideAll (logOf trace) := by
  induction h with
  | done => rfl
  | refused h => cases hresult
  | @skipped _ r _ _ t _ trace result h _ ih =>
    have hrest := ih (by cases result <;> exact hresult)
    have hlog : logOf (answering r .skipped t :: trace) = (r, .skipped) :: logOf trace := rfl
    have hinside : requestsInside (r, .skipped) = 0 := rfl
    rw [hlog, requestsInsideAll_cons, hinside, List.length_cons, List.length_cons]
    omega
  | failed h _ ih => cases hresult
  | @expanded _ r _ _ t u _ path body trace trace' _ result h _ _ ih ih' =>
    have hinner := ih rfl
    have hrest := ih' (by cases result <;> exact hresult)
    have hlog : logOf (answering r (.opened path body) t :: (whileIn path t trace u ++ trace')) =
        (r, .opened path body) :: (logOf trace ++ logOf trace') := by
      rw [← logOf_whileIn path t trace u, ← logOf_append]
      rfl
    rw [Stmt.length_requestsInAll] at hinner
    rw [hlog, requestsInsideAll_cons, requestsInsideAll_append, requestsInside, List.length_cons,
      List.length_cons, List.length_append]
    omega

/-! ## Scripts one after the other -/

/-- `Session loader scripts s logs results t`: an importer in the state `s` is given scripts one
after the other, each the unit at its path if it has one; each script has a log and a result of its
own. -/
inductive Session (loader : Loader) : List (Option Path × List Stmt) → Importer → List Log →
    List (Except Error (List Stmt)) → Importer → Prop
  | nil {s : Importer} : Session loader [] s [] [] s
  | cons {script : Option Path × List Stmt} {scripts : List (Option Path × List Stmt)}
      {s t u : Importer} {trace : List Passed} {logs : List Log} {result : Except Error (List Stmt)}
      {results : List (Except Error (List Stmt))}
      (h : Resolves loader script.1 script.2 s trace result t)
      (hrest : Session loader scripts t logs results u) :
      Session loader (script :: scripts) s (logOf trace :: logs) (result :: results) u

/-- What scripts come to that are expanded one after the other by one importer. -/
def resultsAll (loader : Loader) :
    List (Option Path × List Stmt) → Importer → List (Except Error (List Stmt))
  | [], _ => []
  | script :: scripts, s =>
    (outcome (run loader script.1 script.2) s).1 ::
      resultsAll loader scripts (outcome (run loader script.1 script.2) s).2

/-- **Every sequence of scripts is a session.** -/
theorem exists_session (loader : Loader) (scripts : List (Option Path × List Stmt)) (s : Importer) :
    ∃ logs, Session loader scripts s logs (resultsAll loader scripts s)
      (afterAll loader scripts s) := by
  induction scripts generalizing s with
  | nil => exact ⟨[], .nil⟩
  | cons script scripts ih =>
    obtain ⟨trace, hresolves⟩ := exists_resolves loader script.1 script.2 s
    obtain ⟨logs, hrest⟩ := ih (outcome (run loader script.1 script.2) s).2
    exact ⟨logOf trace :: logs, .cons hresolves hrest⟩

/-- A script is registered before its requests are answered. -/
theorem once_registering (s : Importer) (path : Path) : Once s [] (s.registering path) :=
  ⟨fun _ => Registry.contains_register_of_contains, by simp [opened],
    by simp [openedUnforced, opened], by simp [openedUnforced, opened]⟩

section Session

variable {scripts : List (Option Path × List Stmt)} {logs : List Log}
  {results : List (Except Error (List Stmt))}

theorem Resolves.once {entry : Option Path} {stmts : List Stmt} {result : Except Error (List Stmt)}
    (h : Resolves loader entry stmts s trace result t) : Once s (logOf trace) t := by
  cases h with
  | nowhere h => exact h.once
  | unit h => exact (once_registering ..).append h.once.whileIn

theorem Session.once (h : Session loader scripts s logs results t) : Once s logs.flatten t := by
  induction h with
  | nil => exact .nil _
  | cons h _ ih => exact h.once.append ih

/-- From its own script on, a unit is not opened without force. -/
theorem Session.once_of_entry {entry : Path} {stmts : List Stmt}
    (h : Session loader ((some entry, stmts) :: scripts) s logs results t) :
    Once (s.registering entry) logs.flatten t := by
  cases h with
  | cons h hrest =>
    cases h with
    | unit h => exact h.once.whileIn.append hrest.once

theorem Session.drop {before : List (Option Path × List Stmt)}
    (h : Session loader (before ++ scripts) s logs results t) :
    ∃ u, Session loader scripts u (logs.drop before.length) (results.drop before.length) t := by
  induction before generalizing s logs results with
  | nil => exact ⟨s, h⟩
  | cons script before ih =>
    cases h with
    | cons _ hrest => exact ih hrest

theorem Resolves.counted {entry : Option Path} {stmts : List Stmt}
    {result : Except Error (List Stmt)} (h : Resolves loader entry stmts s trace result t)
    (hresult : result.isOk = true) :
    Counted s (logOf trace) t ∧
      (logOf trace).length = (Stmt.requestsAll stmts).length + requestsInsideAll (logOf trace) := by
  cases h with
  | @nowhere _ _ _ _ result h =>
    have hok : result.isOk = true := by cases result <;> exact hresult
    have hlength := h.length_log hok
    rw [Stmt.length_requestsInAll] at hlength
    exact ⟨h.counted hok, hlength⟩
  | @unit path _ _ t trace result h =>
    have hok : result.isOk = true := by cases result <;> exact hresult
    have hlength := h.length_log hok
    rw [Stmt.length_requestsInAll, ← logOf_whileIn path (s.registering path) trace t] at hlength
    have hinner := (h.counted hok).whileIn
    exact ⟨⟨hinner.answered, hinner.expanded, hinner.skipped, hinner.loaded⟩, hlength⟩

theorem Session.counted (h : Session loader scripts s logs results t)
    (hresults : ∀ r ∈ results, r.isOk = true) :
    Counted s logs.flatten t ∧
      logs.flatten.length = (scripts.map fun script => (Stmt.requestsAll script.2).length).sum +
        requestsInsideAll logs.flatten := by
  induction h with
  | nil => exact ⟨.nil _, rfl⟩
  | @cons script scripts _ _ _ _ logs _ _ h _ ih =>
    obtain ⟨hcounted, hlength⟩ := h.counted (hresults _ (List.mem_cons_self ..))
    obtain ⟨hcounted', hlength'⟩ := ih fun r hr => hresults r (List.mem_cons_of_mem _ hr)
    refine ⟨hcounted.append hcounted', ?_⟩
    rw [List.flatten_cons, List.length_append, requestsInsideAll_append, List.map_cons,
      List.sum_cons]
    omega

end Session

/-- Without force, no identity is expanded twice. -/
theorem Once.card_opened (h : Once s log t) (hforce : ∀ met ∈ log, met.1.force = false) :
    ((opened log).map Path.components).toFinset.card = (opened log).length := by
  have hunforced : openedUnforced log = opened log := by
    rw [openedUnforced, List.filter_eq_self.2 fun met hmet => by rw [hforce met hmet]; rfl]
  have hdistinct := h.distinct
  rw [hunforced] at hdistinct
  have hnodup : ((opened log).map Path.components).Nodup := by
    refine List.pairwise_map.2 (hdistinct.imp fun hsame heq => ?_)
    rw [Path.same_iff.2 heq] at hsame
    cases hsame
  rw [List.toFinset_card_of_nodup hnodup, List.length_map]

/-- **Without force a unit is imported at most once.**  Whatever scripts an importer is given one
after the other, by a loader of finitely many identities, and whether they can be expanded or not,
no identity is expanded at two requests without force, and none that is the path of a script from
that script on.  If all scripts can be expanded, the counters are right: as many requests are
expanded as units are loaded, as many are expanded or skipped as there are in the scripts and in the
expanded units, and if none is forced, as many are expanded as there are different identities among
the expanded units. -/
theorem unforced_imports_happen_once (loader : Loader) (sources : SourceMap)
    (scripts : List (Option Path × List Stmt)) :
    let start := Importer.new sources
    let finish := afterAll loader scripts start
    ∃ logs, Session loader scripts start logs (resultsAll loader scripts start) finish ∧
      (openedUnforced logs.flatten).Pairwise (fun p q => p.same q = false) ∧
      (∀ before entry stmts after, scripts = before ++ (some entry, stmts) :: after →
        ∀ p ∈ openedUnforced (logs.drop before.length).flatten, p.same entry = false) ∧
      ((∀ r ∈ resultsAll loader scripts start, r.isOk = true) →
        finish.sources.files.toList.map SourceFile.path =
          sources.files.toList.map SourceFile.path ++ (opened logs.flatten).map some ∧
        finish.sources.files.size = sources.files.size + finish.counters.expanded ∧
        finish.counters.expanded + finish.counters.skipped = logs.flatten.length ∧
        logs.flatten.length = (scripts.map fun script => (Stmt.requestsAll script.2).length).sum +
          requestsInsideAll logs.flatten ∧
        ((∀ met ∈ logs.flatten, met.1.force = false) →
          finish.counters.expanded =
            ((opened logs.flatten).map Path.components).toFinset.card)) := by
  intro start finish
  obtain ⟨logs, hsession⟩ := exists_session loader scripts start
  refine ⟨logs, hsession, hsession.once.distinct, ?_, fun hresults => ?_⟩
  · rintro before entry stmts after rfl p hp
    obtain ⟨u, hentry⟩ := hsession.drop
    have hnew := hentry.once_of_entry.new p hp
    rw [Bool.eq_false_iff]
    intro hsame
    have hregistered : (u.registering entry).registry.contains entry = true :=
      Registry.contains_register_self ..
    rw [Registry.contains_congr _ hsame, hregistered] at hnew
    cases hnew
  · obtain ⟨hcounted, hlength⟩ := hsession.counted hresults
    have hexpanded : finish.counters.expanded = (opened logs.flatten).length :=
      hcounted.expanded.trans (Nat.zero_add _)
    have hskipped : finish.counters.skipped = skippedCount logs.flatten :=
      hcounted.skipped.trans (Nat.zero_add _)
    refine ⟨hcounted.loaded, ?_, ?_, hlength, fun hforce => ?_⟩
    · have hloaded := congrArg List.length hcounted.loaded
      rw [List.length_map, List.length_append, List.length_map, List.length_map,
        Array.length_toList, Array.length_toList] at hloaded
      rw [hexpanded]
      exact hloaded
    · rw [hexpanded, hskipped, hcounted.answered]
    · rw [hexpanded, hsession.once.card_opened hforce]

/-- Two units that require a third one, a request of it with force, and a script that is this unit
itself: four of the six requests are expanded, three of them without force. -/
theorem unforced_imports_happen_once_diamond :
    let loader := UnitTable.loader
      [(⟨"a.js"⟩, "require('c.js');"), (⟨"b.js"⟩, "require('c.js');"), (⟨"c.js"⟩, "//### c")]
    let scripts : List (Option Path × List Stmt) :=
      [(some ⟨"main.js"⟩, [.require "a.js" false ⟨0, 16, 0⟩, .require "b.js" false ⟨16, 32, 0⟩,
        .require "c.js" true ⟨32, 60, 0⟩]),
       (some ⟨"c.js"⟩, [.require "c.js" false ⟨0, 16, 0⟩])]
    let finish := afterAll loader scripts (Importer.new .empty)
    finish.counters = ⟨4, 2⟩ ∧ finish.sources.names = ["a.js", "c.js", "b.js", "c.js"] ∧
      ∃ logs, Session loader scripts (Importer.new .empty) logs
          (resultsAll loader scripts (Importer.new .empty)) finish ∧
        logs.flatten.length = 6 ∧ requestsInsideAll logs.flatten = 2 ∧
        (openedUnforced logs.flatten).Pairwise fun p q => p.same q = false := by
  intro loader scripts finish
  have hresults : ∀ r ∈ resultsAll loader scripts (Importer.new .empty), r.isOk = true := by
    decide +kernel
  have hcounters : finish.counters = ⟨4, 2⟩ := by decide +kernel
  obtain ⟨logs, hsession, hdistinct, -, hcounted⟩ :=
    unforced_imports_happen_once loader .empty scripts
  obtain ⟨-, -, hanswered, hmet, -⟩ := hcounted hresults
  have hlength : logs.flatten.length = 6 := by
    rw [← hanswered]
    exact (congrArg (fun c : ImportCounters => c.expanded + c.skipped) hcounters)
  have hscripts : (scripts.map fun script => (Stmt.requestsAll script.2).length).sum = 4 := by
    decide +kernel
  exact ⟨hcounters, by decide +kernel, logs, hsession, hlength, by omega, hdistinct⟩

end Importer

end EdgeScript
