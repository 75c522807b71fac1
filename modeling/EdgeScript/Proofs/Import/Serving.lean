import Mathlib.Data.List.Count
import EdgeScript.Proofs.Import.Walk

/-!
# Answering requests

What an importer does at a request is told by `Importer.answer`: it refuses the request, skips it,
or opens the unit that the request names and goes on with the requests of that unit.  `Serves`
describes how a list of requests is answered, units within units, and what is passed on the way: the
requests that are met, and the registries behind them.  Neither knows of a bound on the depth of
units.

* `described_expandAt`, `exists_resolves`: the expansion of a script is described by `Serves`.  Such
  a description is finite, so the expansion ends: a unit that is opened is not in progress, and
  there are only finitely many (`Loader.unopened`).  This is the only place where the condition on
  loaders is needed: what is shown of `Serves` itself rests on `resolve` and `read` alone.
* `Serves.unique`: it has one description only.
-/

set_option autoImplicit false

namespace EdgeScript

open Pass

/-! ## One request -/

namespace Importer

/-- The importer after a request that is skipped. -/
def skipping (s : Importer) (n : Note) : Importer :=
  { s with
    notes := s.notes.push n
    counters := { s.counters with skipped := s.counters.skipped + 1 } }

/-- The importer after the text of a unit has been read. -/
def loading (s : Importer) (path : Path) (text : String) : Importer :=
  { s with
    sources := (s.sources.add path.text (some path) text).1
    registry := s.registry.register path }

/-- The importer after a request whose unit is to be expanded. -/
def opening (s : Importer) (n : Note) : Importer :=
  { s with
    notes := s.notes.push n
    counters := { s.counters with expanded := s.counters.expanded + 1 } }

/-- The importer with a unit marked as being expanded. -/
def entering (s : Importer) (path : Path) : Importer :=
  { s with registry := s.registry.enter path }

/-- The importer with the innermost mark taken back. -/
def leaving (s : Importer) : Importer :=
  { s with registry := s.registry.leave }

/-- What becomes of a request. -/
inductive Answer where
  | refused (e : Error)
  | skipped
  /-- The unit of the path is expanded in the place of the request. -/
  | opened (path : Path) (body : List Stmt)
deriving Repr

/-- What becomes of a request in the unit at `origin`, and the importer after that. -/
def answer (loader : Loader) (origin : Option Path) (r : Request) (s : Importer) :
    Answer × Importer :=
  match loader.resolve origin r.path with
  | none => (.refused (.unresolvedImport r.path r.span), s)
  | some path =>
    if s.registry.isInProgress path then
      if r.force then (.refused (.importCycle r.path r.span), s)
      else (.skipped, s.skipping (.requireInProgress r.path))
    else if s.registry.contains path && !r.force then
      (.skipped, s.skipping (.requireRepeated r.path))
    else
      match loader.read path with
      | .error reason => (.refused (.io ("reading " ++ path.text ++ ": " ++ reason)), s)
      | .ok text =>
        match Program.parse text s.sources.files.size with
        | .error e => (.refused e, s.loading path text)
        | .ok program =>
          (.opened path program.body,
            (s.loading path text).opening (.requireExpanded r.path r.force path.text))

theorem outcome_whileExpanding {α : Type} (path : Path) (act : Pass Importer α) (s : Importer) :
    outcome (whileExpanding path act) s =
      ((outcome act (s.entering path)).1, (outcome act (s.entering path)).2.leaving) :=
  rfl

theorem outcome_loadUnit (loader : Loader) (path : Path) (s : Importer) :
    outcome (loadUnit loader path) s =
      match loader.read path with
      | .error reason => (.error (.io ("reading " ++ path.text ++ ": " ++ reason)), s)
      | .ok text => (Program.parse text s.sources.files.size, s.loading path text) := by
  rw [loadUnit]
  cases loader.read path with
  | error reason => rfl
  | ok text => rfl

/-- **A request is answered as `answer` says**, and a unit that is opened is expanded while it is
marked. -/
theorem outcome_requireUnit (loader : Loader) (inner : Inner) (origin : Option Path) (r : Request)
    (s : Importer) :
    outcome (requireUnit loader inner origin r.path r.force r.span) s =
      match answer loader origin r s with
      | (.refused e, t) => (.error e, t)
      | (.skipped, t) => (.ok [], t)
      | (.opened path body, t) =>
        ((outcome (inner (some path) body) (t.entering path)).1,
          (outcome (inner (some path) body) (t.entering path)).2.leaving) := by
  rw [requireUnit, answer]
  cases loader.resolve origin r.path with
  | none => rfl
  | some path =>
    show outcome (if s.registry.isInProgress path then _ else _) s = _
    cases hprogress : s.registry.isInProgress path with
    | true =>
      cases hforce : r.force <;>
        simp only [hprogress, if_true, if_false, Bool.false_eq_true] <;> rfl
    | false =>
      cases hrepeated : s.registry.contains path && !r.force with
      | true => simp only [hprogress, hrepeated, if_true, if_false, Bool.false_eq_true]; rfl
      | false =>
        simp only [hprogress, hrepeated, if_false, Bool.false_eq_true]
        rw [outcome_bind, outcome_loadUnit]
        cases loader.read path with
        | error reason => rfl
        | ok text =>
          simp only
          cases Program.parse text s.sources.files.size with
          | error e => rfl
          | ok program => rfl

/-- What is known of a request by its answer. -/
inductive Answered (loader : Loader) (origin : Option Path) (r : Request) (s : Importer) :
    Answer → Importer → Prop
  | refused (e : Error) : Answered loader origin r s (.refused e) s
  | skipped {path : Path} (n : Note) (hresolve : loader.resolve origin r.path = some path)
      (hforce : r.force = false)
      (hmet : s.registry.isInProgress path = true ∨ s.registry.contains path = true) :
      Answered loader origin r s .skipped (s.skipping n)
  | unparsable {path : Path} {text : String} (e : Error)
      (hresolve : loader.resolve origin r.path = some path)
      (hidle : s.registry.isInProgress path = false) :
      Answered loader origin r s (.refused e) (s.loading path text)
  | opened {path : Path} {text : String} {program : Program}
      (hresolve : loader.resolve origin r.path = some path)
      (hidle : s.registry.isInProgress path = false)
      (hwanted : r.force = false → s.registry.contains path = false)
      (hread : loader.read path = .ok text)
      (hparse : Program.parse text s.sources.files.size = .ok program) :
      Answered loader origin r s (.opened path program.body)
        ((s.loading path text).opening (.requireExpanded r.path r.force path.text))

theorem answered_answer (loader : Loader) (origin : Option Path) (r : Request) (s : Importer) :
    Answered loader origin r s (answer loader origin r s).1 (answer loader origin r s).2 := by
  rw [answer]
  cases hresolve : loader.resolve origin r.path with
  | none => exact .refused _
  | some path =>
    simp only
    split
    · rename_i hprogress
      split
      · exact .refused _
      · rename_i hforce
        exact .skipped _ hresolve (by simpa using hforce) (.inl hprogress)
    · rename_i hidle
      split
      · rename_i hrepeated
        rw [Bool.and_eq_true, Bool.not_eq_true'] at hrepeated
        exact .skipped _ hresolve hrepeated.2 (.inr hrepeated.1)
      · rename_i hwanted
        cases hread : loader.read path with
        | error reason => exact .refused _
        | ok text =>
          simp only
          cases hparse : Program.parse text s.sources.files.size with
          | error e => exact .unparsable e hresolve (by simpa using hidle)
          | ok program =>
            refine .opened hresolve (by simpa using hidle) (fun hforce => ?_) hread hparse
            simpa [hforce] using hwanted

theorem answered_of_answer {loader : Loader} {origin : Option Path} {r : Request} {s t : Importer}
    {a : Answer} (h : answer loader origin r s = (a, t)) : Answered loader origin r s a t := by
  have hanswer := answered_answer loader origin r s
  rwa [h] at hanswer

end Importer

/-! ## Marks -/

theorem Path.same_iff {p q : Path} : p.same q = true ↔ p.components = q.components := by
  rw [same, beq_iff_eq]

theorem Path.same_comm (p q : Path) : p.same q = q.same p := by
  rw [Bool.eq_iff_iff, same_iff, same_iff, eq_comm]

namespace Registry

@[simp]
theorem inProgress_register (r : Registry) (path : Path) :
    (r.register path).inProgress = r.inProgress := by
  rw [register]
  split <;> rfl

@[simp]
theorem inProgress_enter (r : Registry) (path : Path) :
    (r.enter path).inProgress = r.inProgress ++ [path] := rfl

@[simp]
theorem inProgress_leave (r : Registry) : r.leave.inProgress = r.inProgress.dropLast := rfl

end Registry

/-- How many identities are not in progress. -/
def Loader.unopened (loader : Loader) (inProgress : List Path) : Nat :=
  loader.identities.countP fun p => !inProgress.any p.same

theorem Loader.unopened_le (loader : Loader) (inProgress : List Path) :
    loader.unopened inProgress ≤ loader.identities.length :=
  List.countP_le_length

/-- A unit that is opened takes an identity that was not in progress before. -/
theorem Loader.unopened_lt {loader : Loader} {origin : Option Path} {request : String} {path : Path}
    (hresolve : loader.resolve origin request = some path) {inProgress : List Path}
    (hidle : inProgress.any path.same = false) :
    loader.unopened (inProgress ++ [path]) < loader.unopened inProgress := by
  obtain ⟨p, hp, hsame⟩ := loader.resolve_mem hresolve
  obtain ⟨before, after, hids⟩ := List.append_of_mem hp
  have hmono (ps : List Path) :
      ps.countP (fun q => !(inProgress ++ [path]).any q.same) ≤
        ps.countP fun q => !inProgress.any q.same := by
    refine List.countP_mono_left fun q _ hq => ?_
    simp only [List.any_append, Bool.not_or, Bool.and_eq_true] at hq
    exact hq.1
  have hidle' : (!inProgress.any p.same) = true := by
    have hcongr : p.same = path.same := by
      funext q
      rw [Bool.eq_iff_iff, Path.same_iff, Path.same_iff, Path.same_iff.1 hsame]
    rw [hcongr, hidle]
    rfl
  have hopened : ¬ (!(inProgress ++ [path]).any p.same) = true := by simp [hsame]
  have hbefore := hmono before
  have hafter := hmono after
  rw [unopened, unopened, hids, List.countP_append, List.countP_append, List.countP_cons,
    List.countP_cons, if_pos hidle', if_neg hopened]
  omega

namespace Importer

/-- Requests with their answers, in the order in which they are met. -/
abbrev Log := List (Request × Answer)

/-- A registry that is passed on the way, and the request that was answered to come to it; none if a
unit was entered or left. -/
structure Passed where
  registry : Registry
  met? : Option (Request × Answer)

/-- The requests that are met on a way. -/
def logOf (trace : List Passed) : Log := trace.filterMap Passed.met?

/-- What is passed when a request is answered. -/
def answering (r : Request) (a : Answer) (t : Importer) : Passed := ⟨t.registry, some (r, a)⟩

/-- What is passed from the mark of a unit on until it is taken back. -/
def whileIn (path : Path) (t : Importer) (trace : List Passed) (u : Importer) : List Passed :=
  ⟨(t.entering path).registry, none⟩ :: (trace ++ [⟨u.leaving.registry, none⟩])

/-- `Serves loader origin requests s trace result t`: the requests of the unit at `origin`, answered
one after the other from the state `s`, come to `result` and end in `t`; `trace` is what is passed
behind `s`. -/
inductive Serves (loader : Loader) : Option Path → List Request → Importer → List Passed →
    Except Error (List (List Stmt)) → Importer → Prop
  | done {origin : Option Path} {s : Importer} : Serves loader origin [] s [] (.ok []) s
  | refused {origin : Option Path} {r : Request} {rest : List Request} {s t : Importer} {e : Error}
      (h : answer loader origin r s = (.refused e, t)) :
      Serves loader origin (r :: rest) s [answering r (.refused e) t] (.error e) t
  | skipped {origin : Option Path} {r : Request} {rest : List Request} {s t u : Importer}
      {trace : List Passed} {result : Except Error (List (List Stmt))}
      (h : answer loader origin r s = (.skipped, t))
      (hrest : Serves loader origin rest t trace result u) :
      Serves loader origin (r :: rest) s (answering r .skipped t :: trace) (result.map ([] :: ·)) u
  | failed {origin : Option Path} {r : Request} {rest : List Request} {s t u : Importer}
      {path : Path} {body : List Stmt} {trace : List Passed} {e : Error}
      (h : answer loader origin r s = (.opened path body, t))
      (hinner : Serves loader (some path) (Stmt.requestsInAll .handlerFirst body) (t.entering path)
        trace (.error e) u) :
      Serves loader origin (r :: rest) s
        (answering r (.opened path body) t :: whileIn path t trace u) (.error e) u.leaving
  | expanded {origin : Option Path} {r : Request} {rest : List Request} {s t u v : Importer}
      {path : Path} {body : List Stmt} {trace trace' : List Passed} {parts : List (List Stmt)}
      {result : Except Error (List (List Stmt))}
      (h : answer loader origin r s = (.opened path body, t))
      (hinner : Serves loader (some path) (Stmt.requestsInAll .handlerFirst body) (t.entering path)
        trace (.ok parts) u)
      (hrest : Serves loader origin rest u.leaving trace' result v) :
      Serves loader origin (r :: rest) s
        (answering r (.opened path body) t :: (whileIn path t trace u ++ trace'))
        (result.map (Stmt.fillAll .handlerFirst body parts :: ·)) v

variable {loader : Loader} {origin : Option Path} {requests : List Request} {s t u : Importer}
  {trace : List Passed} {result : Except Error (List (List Stmt))}

theorem logOf_append (trace trace' : List Passed) :
    logOf (trace ++ trace') = logOf trace ++ logOf trace' :=
  List.filterMap_append

@[simp]
theorem logOf_whileIn (path : Path) (t : Importer) (trace : List Passed) (u : Importer) :
    logOf (whileIn path t trace u) = logOf trace := by
  rw [whileIn, logOf, List.filterMap_cons_none rfl, List.filterMap_append]
  exact List.append_nil _

theorem forall_mem_whileIn {path : Path} {P : Passed → Prop} :
    (∀ p ∈ whileIn path t trace u, P p) ↔
      P ⟨(t.entering path).registry, none⟩ ∧ (∀ p ∈ trace, P p) ∧ P ⟨u.leaving.registry, none⟩ := by
  rw [whileIn, List.forall_mem_cons, List.forall_mem_append, List.forall_mem_singleton]

theorem inProgress_of_answer {r : Request} {a : Answer} (h : answer loader origin r s = (a, t)) :
    t.registry.inProgress = s.registry.inProgress := by
  cases answered_of_answer h <;> simp [skipping, loading, opening]

/-- A unit that left the marks as it found them is left with the marks from before it. -/
theorem inProgress_leaving {path : Path}
    (h : t.registry.inProgress = (s.entering path).registry.inProgress) :
    t.leaving.registry.inProgress = s.registry.inProgress := by
  rw [leaving, Registry.inProgress_leave, h, entering, Registry.inProgress_enter,
    List.dropLast_concat]

/-- Marks are taken back. -/
theorem Serves.inProgress_eq (h : Serves loader origin requests s trace result t) :
    t.registry.inProgress = s.registry.inProgress := by
  induction h with
  | done => rfl
  | refused h => exact inProgress_of_answer h
  | skipped h _ ih => exact ih.trans (inProgress_of_answer h)
  | failed h _ ih => rw [inProgress_leaving ih, inProgress_of_answer h]
  | expanded h _ _ ih ih' => rw [ih', inProgress_leaving ih, inProgress_of_answer h]

/-- Requests are answered in one way only. -/
theorem Serves.unique (h : Serves loader origin requests s trace result t) {trace' : List Passed}
    {result' : Except Error (List (List Stmt))} {t' : Importer}
    (h' : Serves loader origin requests s trace' result' t') :
    trace = trace' ∧ result = result' ∧ t = t' := by
  induction h generalizing trace' result' t' with
  | done => cases h'; exact ⟨rfl, rfl, rfl⟩
  | refused h =>
    cases h' with
    | refused h' => cases h.symm.trans h'; exact ⟨rfl, rfl, rfl⟩
    | skipped h' | failed h' | expanded h' => cases h.symm.trans h'
  | skipped h _ ih =>
    cases h' with
    | skipped h' hrest =>
      cases h.symm.trans h'
      obtain ⟨rfl, rfl, rfl⟩ := ih hrest
      exact ⟨rfl, rfl, rfl⟩
    | refused h' | failed h' | expanded h' => cases h.symm.trans h'
  | failed h _ ih =>
    cases h' with
    | failed h' hinner =>
      cases h.symm.trans h'
      obtain ⟨rfl, he, rfl⟩ := ih hinner
      cases he
      exact ⟨rfl, rfl, rfl⟩
    | expanded h' hinner =>
      cases h.symm.trans h'
      obtain ⟨-, he, -⟩ := ih hinner
      cases he
    | refused h' | skipped h' => cases h.symm.trans h'
  | expanded h _ _ ih ih' =>
    cases h' with
    | expanded h' hinner hrest =>
      cases h.symm.trans h'
      obtain ⟨rfl, he, rfl⟩ := ih hinner
      cases he
      obtain ⟨rfl, rfl, rfl⟩ := ih' hrest
      exact ⟨rfl, rfl, rfl⟩
    | failed h' hinner =>
      cases h.symm.trans h'
      obtain ⟨-, he, -⟩ := ih hinner
      cases he
    | refused h' | skipped h' => cases h.symm.trans h'

/-! ## The expansion ends -/

theorem outcome_serve_cons (require : String → Bool → Span → Pass Importer (List Stmt))
    (r : Request) (rest : List Request) (s : Importer) :
    outcome (serve require (r :: rest)) s =
      match outcome (require r.path r.force r.span) s with
      | (.ok part, t) =>
        ((outcome (serve require rest) t).1.map (part :: ·), (outcome (serve require rest) t).2)
      | (.error e, t) => (.error e, t) := by
  rw [serve_cons, outcome_bind]
  rcases outcome (require r.path r.force r.span) s with ⟨_ | part, t⟩
  · rfl
  · simp only [outcome_map]

/-- The expansion of units by `inner` is described by `Serves`, as long as fewer than `bound`
identities are not in progress. -/
def Inner.Described (loader : Loader) (inner : Inner) (bound : Nat) : Prop :=
  ∀ origin stmts s, loader.unopened s.registry.inProgress < bound →
    ∃ trace result t,
      outcome (inner origin stmts) s = (result.map (Stmt.fillAll .handlerFirst stmts), t) ∧
      Serves loader origin (Stmt.requestsInAll .handlerFirst stmts) s trace result t

theorem exists_serves_of_inner {inner : Inner} {bound : Nat} (hinner : inner.Described loader bound)
    (origin : Option Path) (requests : List Request) (s : Importer)
    (hs : loader.unopened s.registry.inProgress < bound + 1) :
    ∃ trace result t, outcome (serve (requireUnit loader inner origin) requests) s = (result, t) ∧
      Serves loader origin requests s trace result t := by
  induction requests generalizing s with
  | nil => exact ⟨[], .ok [], s, rfl, .done⟩
  | cons r rest ih =>
    rw [outcome_serve_cons, outcome_requireUnit]
    rcases h : answer loader origin r s with ⟨e | _ | ⟨path, body⟩, t⟩
    · exact ⟨_, _, _, rfl, .refused h⟩
    · obtain ⟨trace, result, u, hrest, hserves⟩ := ih t (by rwa [inProgress_of_answer h])
      simp only [hrest]
      exact ⟨_, _, _, rfl, .skipped h hserves⟩
    · have hopened : loader.unopened (t.entering path).registry.inProgress < bound := by
        cases answered_of_answer h with
        | opened hresolve hidle =>
          have hlt := Loader.unopened_lt hresolve hidle
          simp only [entering, opening, loading, Registry.inProgress_enter,
            Registry.inProgress_register]
          omega
      obtain ⟨trace, result, u, hbody, hserves⟩ := hinner (some path) body (t.entering path) hopened
      simp only [hbody]
      cases result with
      | error e => exact ⟨_, _, _, rfl, .failed h hserves⟩
      | ok parts =>
        have hleft : u.leaving.registry.inProgress = s.registry.inProgress := by
          rw [inProgress_leaving hserves.inProgress_eq, inProgress_of_answer h]
        obtain ⟨trace', result', v, hrest, hserves'⟩ := ih u.leaving (by rwa [hleft])
        simp only [Except.map, hrest]
        exact ⟨_, _, _, rfl, .expanded h hserves hserves'⟩

/-- **The expansion of units is described by `Serves`**: the depth never runs out. -/
theorem described_expandAt (loader : Loader) (depth : Nat) :
    (expandAt loader depth).Described loader depth := by
  induction depth with
  | zero => exact fun _ _ _ h => absurd h (Nat.not_lt_zero _)
  | succ depth ih =>
    intro origin stmts s hs
    obtain ⟨trace, result, t, hserve, hserves⟩ :=
      exists_serves_of_inner ih origin (Stmt.requestsInAll .handlerFirst stmts) s hs
    rw [expandAt, expandStmts_eq, outcome_map, hserve]
    exact ⟨trace, result, t, rfl, hserves⟩

/-- The importer with a unit marked as imported. -/
def registering (s : Importer) (path : Path) : Importer :=
  { s with registry := s.registry.register path }

/-- `Resolves loader entry stmts s trace result t`: the expansion of a script that is the unit at
`entry`, from the state `s`, comes to `result` and ends in `t`; `trace` is what is passed behind
`s`. -/
inductive Resolves (loader : Loader) : Option Path → List Stmt → Importer → List Passed →
    Except Error (List Stmt) → Importer → Prop
  | nowhere {stmts : List Stmt} {s t : Importer} {trace : List Passed}
      {result : Except Error (List (List Stmt))}
      (h : Serves loader none (Stmt.requestsInAll .handlerFirst stmts) s trace result t) :
      Resolves loader none stmts s trace (result.map (Stmt.fillAll .handlerFirst stmts)) t
  | unit {path : Path} {stmts : List Stmt} {s t : Importer} {trace : List Passed}
      {result : Except Error (List (List Stmt))}
      (h : Serves loader (some path) (Stmt.requestsInAll .handlerFirst stmts)
        ((s.registering path).entering path) trace result t) :
      Resolves loader (some path) stmts s
        (⟨(s.registering path).registry, none⟩ :: whileIn path (s.registering path) trace t)
        (result.map (Stmt.fillAll .handlerFirst stmts)) t.leaving

/-- **The expansion of a script ends**, and does what `Resolves` describes. -/
theorem exists_resolves (loader : Loader) (entry : Option Path) (stmts : List Stmt) (s : Importer) :
    ∃ trace, Resolves loader entry stmts s trace (outcome (run loader entry stmts) s).1
      (outcome (run loader entry stmts) s).2 := by
  have hdescribed := described_expandAt loader (loader.identities.length + 1)
  cases entry with
  | none =>
    obtain ⟨trace, result, t, hexpand, hserves⟩ :=
      hdescribed none stmts s (Nat.lt_succ_of_le (loader.unopened_le _))
    rw [run, hexpand]
    exact ⟨trace, .nowhere hserves⟩
  | some path =>
    obtain ⟨trace, result, t, hexpand, hserves⟩ :=
      hdescribed (some path) stmts ((s.registering path).entering path)
        (Nat.lt_succ_of_le (loader.unopened_le _))
    have hrun : outcome (run loader (some path) stmts) s =
        (result.map (Stmt.fillAll .handlerFirst stmts), t.leaving) := by
      rw [run, outcome_bind]
      show outcome (whileExpanding path _) (s.registering path) = _
      rw [outcome_whileExpanding, hexpand]
    rw [hrun]
    exact ⟨_, .unit hserves⟩

end Importer

end EdgeScript
