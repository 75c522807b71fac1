import EdgeScript.Proofs.Import.Marks

/-!
# Where the units of a script are put

In a script without forced requests a unit is put in the place of the first request that names it,
and every later request of the unit is removed.  `Spliced` says so for a walk through the requests,
in either order, and knows nothing of an importer: only of the units that have been met.

* `Spliced.paths_eq`: the units are loaded in the order in which the walk first meets them.
* `units_are_put_at_their_first_request`: the expansion of a script puts the units where the walk
  through the handlers first puts them, and where the walk in the order of the text puts them if no
  attempt of the script or of a unit has requests on both sides.
* `handler_takes_unit_of_attempt`: the condition is needed.  A unit that is required in the body and
  in the handler of an attempt is put into the handler.
-/

set_option autoImplicit false

namespace EdgeScript

open Pass

/-! ## Requests without force -/

namespace Stmt

mutual

theorem mem_requestsIn {order : WalkOrder} {r : Request} :
    ∀ s, r ∈ requestsIn order s ↔ r ∈ requestsIn .textual s
  | .require .. => by rw [requestsIn, requestsIn]
  | .function _ _ _ body _ => by rw [requestsIn, requestsIn, mem_requestsInAll body]
  | .ifChain branches (some body) _ => by
    rw [requestsIn, requestsIn, List.mem_append, List.mem_append, mem_requestsInBranches branches,
      mem_requestsInAll body]
  | .ifChain branches none _ => by
    rw [requestsIn, requestsIn, mem_requestsInBranches branches]
  | .forLoop _ _ body _ => by rw [requestsIn, requestsIn, mem_requestsInAll body]
  | .attempt body (some handler) _ => by
    rw [requestsIn, requestsIn, WalkOrder.mem_join, WalkOrder.mem_join, mem_requestsInAll body,
      mem_requestsInAll handler]
  | .attempt body none _ => by rw [requestsIn, requestsIn, mem_requestsInAll body]
  | .block body _ => by rw [requestsIn, requestsIn, mem_requestsInAll body]
  | .atom _ => by rw [requestsIn, requestsIn]
  | .breakLoop _ => by rw [requestsIn, requestsIn]

/-- The requests are the same in every order. -/
theorem mem_requestsInAll {order : WalkOrder} {r : Request} :
    ∀ stmts, r ∈ requestsInAll order stmts ↔ r ∈ requestsInAll .textual stmts
  | [] => by rw [requestsInAll, requestsInAll]
  | s :: rest => by
    rw [requestsInAll, requestsInAll, List.mem_append, List.mem_append, mem_requestsIn s,
      mem_requestsInAll rest]

theorem mem_requestsInBranches {order : WalkOrder} {r : Request} :
    ∀ branches, r ∈ requestsInBranches order branches ↔ r ∈ requestsInBranches .textual branches
  | [] => by rw [requestsInBranches, requestsInBranches]
  | ⟨_, body, _⟩ :: rest => by
    rw [requestsInBranches, requestsInBranches, List.mem_append, List.mem_append,
      mem_requestsInAll body, mem_requestsInBranches rest]

end

/-- No request of the statements is forced. -/
def Unforced (stmts : List Stmt) : Prop :=
  ∀ r ∈ requestsInAll .textual stmts, r.force = false

instance (stmts : List Stmt) : Decidable (Unforced stmts) :=
  inferInstanceAs (Decidable (∀ r ∈ requestsInAll .textual stmts, r.force = false))

theorem Unforced.force_eq {stmts : List Stmt} (h : Unforced stmts) {order : WalkOrder} {r : Request}
    (hr : r ∈ requestsInAll order stmts) : r.force = false :=
  h r ((mem_requestsInAll stmts).1 hr)

end Stmt

/-- The statements of every unit that can be read are as `P` says. -/
def Loader.AllUnits (loader : Loader) (P : List Stmt → Prop) : Prop :=
  ∀ path text file program, loader.read path = .ok text → Program.parse text file = .ok program →
    P program.body

/-- Only the units of a table can be read from it. -/
theorem UnitTable.allUnits {units : UnitTable} {P : List Stmt → Prop}
    (h : ∀ entry ∈ units, ∀ file program, Program.parse entry.2 file = .ok program →
      P program.body) : units.loader.AllUnits P := by
  intro path text file program hread hparse
  change units.read path = .ok text at hread
  rw [read] at hread
  cases hget : units.get? path with
  | none =>
    rw [hget] at hread
    cases hread
  | some text' =>
    rw [hget] at hread
    cases hread
    obtain ⟨entry, hfind, rfl⟩ := Option.map_eq_some_iff.1 hget
    exact h entry (List.mem_of_find?_eq_some hfind) file program hparse

/-! ## Walks that put units in their places -/

/-- A unit as it stands in the source map. -/
def SourceFile.ofUnit (unit : Path × String) : SourceFile :=
  ⟨unit.1.text, some unit.1, unit.2⟩

/-- The paths of a list at their first places, without those of units that have been seen before. -/
def firstMet (seen : List Path) : List Path → List Path
  | [] => []
  | p :: rest => if seen.any p.same then firstMet seen rest else p :: firstMet (seen ++ [p]) rest

theorem firstMet_append (seen first second : List Path) :
    firstMet seen (first ++ second) =
      firstMet seen first ++ firstMet (seen ++ firstMet seen first) second := by
  induction first generalizing seen with
  | nil => rw [List.nil_append, firstMet, List.nil_append, List.append_nil]
  | cons p rest ih =>
    rw [List.cons_append, firstMet, firstMet]
    split
    · exact ih seen
    · rw [ih, List.append_assoc, List.singleton_append, List.cons_append]

/-- `Spliced loader order origin seen file requests parts units met`: in a walk through the requests
of the unit at `origin`, and through those of every unit in the place of the request that it is put
at, the requests name the units `met`; those named first, `units`, are put there and numbered from
`file`, and all later requests are removed.  `seen` are the units met before, `parts` what the
requests are replaced by. -/
inductive Spliced (loader : Loader) (order : WalkOrder) : Option Path → List Path → Nat →
    List Request → List (List Stmt) → List (Path × String) → List Path → Prop
  | done {origin : Option Path} {seen : List Path} {file : Nat} :
      Spliced loader order origin seen file [] [] [] []
  | first {origin : Option Path} {seen : List Path} {file : Nat} {r : Request} {rest : List Request}
      {path : Path} {text : String} {program : Program} {parts parts' : List (List Stmt)}
      {units units' : List (Path × String)} {met met' : List Path}
      (hresolve : loader.resolve origin r.path = some path)
      (hnew : seen.any path.same = false)
      (hread : loader.read path = .ok text)
      (hparse : Program.parse text file = .ok program)
      (hinner : Spliced loader order (some path) (seen ++ [path]) (file + 1)
        (Stmt.requestsInAll order program.body) parts units met)
      (hrest : Spliced loader order origin (seen ++ path :: units.map Prod.fst)
        (file + 1 + units.length) rest parts' units' met') :
      Spliced loader order origin seen file (r :: rest)
        (Stmt.fillAll order program.body parts :: parts') ((path, text) :: (units ++ units'))
        (path :: (met ++ met'))
  | later {origin : Option Path} {seen : List Path} {file : Nat} {r : Request} {rest : List Request}
      {path : Path} {parts : List (List Stmt)} {units : List (Path × String)} {met : List Path}
      (hresolve : loader.resolve origin r.path = some path)
      (hseen : seen.any path.same = true)
      (hrest : Spliced loader order origin seen file rest parts units met) :
      Spliced loader order origin seen file (r :: rest) ([] :: parts) units (path :: met)

namespace Spliced

variable {loader : Loader} {order : WalkOrder} {origin : Option Path} {seen : List Path}
  {file : Nat}
  {requests : List Request} {parts : List (List Stmt)} {units : List (Path × String)}
  {met : List Path}

/-- Units are loaded in the order in which they are first met. -/
theorem paths_eq (h : Spliced loader order origin seen file requests parts units met) :
    units.map Prod.fst = firstMet seen met := by
  induction h with
  | done => rfl
  | first hresolve hnew hread hparse hinner hrest ih ih' =>
    rw [firstMet, hnew, if_neg Bool.false_ne_true, firstMet_append, ← ih, List.append_assoc,
      List.singleton_append, ← ih', List.map_cons, List.map_append]
  | later hresolve hseen hrest ih => rw [firstMet, hseen, if_pos rfl, ih]

theorem length_parts (h : Spliced loader order origin seen file requests parts units met) :
    parts.length = requests.length := by
  induction h with
  | done => rfl
  | first _ _ _ _ _ _ _ ih | later _ _ _ ih => rw [List.length_cons, List.length_cons, ih]

/-- The order of a walk does not count where no attempt has requests on both sides. -/
theorem reorder (hunits : loader.AllUnits Stmt.OneSidedAll) {order' : WalkOrder}
    (h : Spliced loader order origin seen file requests parts units met) :
    Spliced loader order' origin seen file requests parts units met := by
  induction h with
  | done => exact .done
  | @first _ _ file _ _ path text program _ _ _ _ _ _ hresolve hnew hread hparse hinner _ ih ih' =>
    have hsided := hunits path text file program hread hparse
    have hlength := hinner.length_parts
    rw [hsided.requestsIn_congr order order'] at ih
    rw [hsided.fill_congr order order' hlength]
    exact .first hresolve hnew hread hparse ih ih'
  | later hresolve hseen _ ih => exact .later hresolve hseen ih

end Spliced

/-! ## Importers walk -/

theorem Registry.Exact.contains_of_isInProgress {r : Registry} (h : r.Exact) {path : Path}
    (hprogress : r.isInProgress path = true) : r.contains path = true := by
  obtain ⟨p, hp, hsame⟩ := List.any_eq_true.1 hprogress
  obtain ⟨q, hq, hsame'⟩ := List.any_eq_true.1 (h.imported p hp)
  refine List.any_eq_true.2 ⟨q, hq, ?_⟩
  rw [Path.same_iff] at hsame hsame' ⊢
  exact hsame.trans hsame'

namespace Importer

variable {loader : Loader} {origin : Option Path} {requests : List Request} {s t : Importer}
  {parts : List (List Stmt)} {units : List (Path × String)} {met : List Path}

/-- The units have been loaded between two importers, and nothing else. -/
structure Loaded (s t : Importer) (units : List (Path × String)) : Prop where
  files : t.sources.files.toList = s.sources.files.toList ++ units.map SourceFile.ofUnit
  imported : t.registry.imported = s.registry.imported ++ units.map Prod.fst

theorem Loaded.size_eq (h : Loaded s t units) :
    t.sources.files.size = s.sources.files.size + units.length := by
  rw [← Array.length_toList, h.files, List.length_append, List.length_map, Array.length_toList]

theorem Loaded.refl (s : Importer) : Loaded s s [] :=
  ⟨(List.append_nil _).symm, (List.append_nil _).symm⟩

theorem Loaded.trans {u : Importer} {units' : List (Path × String)} (h : Loaded s t units)
    (h' : Loaded t u units') : Loaded s u (units ++ units') where
  files := by rw [h'.files, h.files, List.append_assoc, List.map_append]
  imported := by rw [h'.imported, h.imported, List.append_assoc, List.map_append]

theorem loaded_opening {path : Path} (hnew : s.registry.contains path = false) (text : String)
    (n : Note) : Loaded s (((s.loading path text).opening n).entering path) [(path, text)] where
  files := Array.toList_push
  imported := by simp [entering, opening, loading, Registry.enter, Registry.register, hnew]

theorem Loaded.leaving (h : Loaded s t units) : Loaded s t.leaving units :=
  ⟨h.files, h.imported⟩

theorem answer_eq_skipped {r : Request} {path : Path}
    (hresolve : loader.resolve origin r.path = some path) (hforce : r.force = false)
    (hseen : s.registry.contains path = true) :
    ∃ n, answer loader origin r s = (.skipped, s.skipping n) := by
  rw [answer, hresolve]
  cases hprogress : s.registry.isInProgress path with
  | true => exact ⟨.requireInProgress r.path, by simp [hprogress, hforce]⟩
  | false => exact ⟨.requireRepeated r.path, by simp [hprogress, hforce, hseen]⟩

theorem answer_eq_opened {r : Request} {path : Path} {text : String} {program : Program}
    (hresolve : loader.resolve origin r.path = some path)
    (hidle : s.registry.isInProgress path = false) (hnew : s.registry.contains path = false)
    (hread : loader.read path = .ok text)
    (hparse : Program.parse text s.sources.files.size = .ok program) :
    answer loader origin r s = (.opened path program.body,
      (s.loading path text).opening (.requireExpanded r.path r.force path.text)) := by
  simp [answer, hresolve, hidle, hnew, hread, hparse]

/-- **Requests that are served have been walked through**, the handlers of attempts first. -/
theorem Serves.spliced (hunits : loader.AllUnits Stmt.Unforced) {trace : List Passed}
    {result : Except Error (List (List Stmt))} (h : Serves loader origin requests s trace result t)
    (hresult : result = .ok parts) (hs : s.registry.Exact)
    (hforce : ∀ r ∈ requests, r.force = false) :
    ∃ units met, Loaded s t units ∧
      Spliced loader .handlerFirst origin s.registry.imported s.sources.files.size requests parts
        units met := by
  induction h generalizing parts with
  | done =>
    cases hresult
    exact ⟨[], [], .refl _, .done⟩
  | refused => cases hresult
  | failed => cases hresult
  | @skipped origin r rest s t u trace result h hserves ih =>
    obtain ⟨parts, rfl, rfl⟩ : ∃ parts', result = .ok parts' ∧ parts = [] :: parts' := by
      cases result with
      | error e => cases hresult
      | ok parts' => exact ⟨parts', rfl, (Except.ok.inj hresult).symm⟩
    have hrest := ih rfl (exact_of_answer h hs) fun r hr => hforce r (List.mem_cons_of_mem _ hr)
    cases answered_of_answer h with
    | skipped n hresolve _ hmet =>
      obtain ⟨units, met, hloaded, hspliced⟩ := hrest
      exact ⟨units, _, ⟨hloaded.files, hloaded.imported⟩,
        .later hresolve (hmet.elim hs.contains_of_isInProgress id) hspliced⟩
  | @expanded origin r rest s t u v path body trace trace' inner result h hinner hserves ih ih' =>
    obtain ⟨parts, rfl, rfl⟩ : ∃ parts', result = .ok parts' ∧
        parts = Stmt.fillAll .handlerFirst body inner :: parts' := by
      cases result with
      | error e => cases hresult
      | ok parts' => exact ⟨parts', rfl, (Except.ok.inj hresult).symm⟩
    have hentered := exact_of_opened h hs
    have hleft := (hinner.exact hentered).1.leave
    cases answered_of_answer h with
    | @opened _ text program hresolve hidle hwanted hread hparse =>
      have hnew := hwanted (hforce r (List.mem_cons_self ..))
      have hopened := loaded_opening hnew text (.requireExpanded r.path r.force path.text)
      have hbody := hunits path text _ program hread hparse
      obtain ⟨units, met, hloaded, hspliced⟩ := ih rfl hentered fun _ => hbody.force_eq
      obtain ⟨units', met', hloaded', hspliced'⟩ :=
        ih' rfl hleft fun r hr => hforce r (List.mem_cons_of_mem _ hr)
      have hthere := (hopened.trans hloaded).leaving
      refine ⟨(path, text) :: (units ++ units'), path :: (met ++ met'), hthere.trans hloaded',
        .first hresolve hnew hread hparse ?_ ?_⟩
      · have hsize := hopened.size_eq
        have himported := hopened.imported
        rwa [hsize, himported] at hspliced
      · have hsize := hthere.size_eq
        have himported := hthere.imported
        rw [hsize, himported] at hspliced'
        simpa [Nat.add_assoc, Nat.add_comm 1] using hspliced'

/-- **Requests that can be walked through are served.** -/
theorem exists_serves_of_spliced (hunits : loader.AllUnits Stmt.Unforced) {seen : List Path}
    {file : Nat}
    (h : Spliced loader .handlerFirst origin seen file requests parts units met)
    (hs : s.registry.Exact) (hseen : s.registry.imported = seen)
    (hfile : s.sources.files.size = file) (hforce : ∀ r ∈ requests, r.force = false) :
    ∃ trace t, Serves loader origin requests s trace (.ok parts) t ∧ Loaded s t units := by
  induction h generalizing s with
  | done => exact ⟨[], s, .done, .refl s⟩
  | @later _ _ _ r _ _ _ _ _ hresolve hseen' _ ih =>
    subst hseen hfile
    obtain ⟨n, hanswer⟩ := answer_eq_skipped hresolve (hforce r (List.mem_cons_self ..)) hseen'
    obtain ⟨trace, t, hserves, hloaded⟩ := ih (s := s.skipping n) hs rfl rfl
      fun r hr => hforce r (List.mem_cons_of_mem _ hr)
    exact ⟨_, t, .skipped hanswer hserves, hloaded.files, hloaded.imported⟩
  | @first _ _ _ r _ path text program _ _ units units' _ _ hresolve hnew hread hparse _ _ ih ih' =>
    subst hseen hfile
    have hidle : s.registry.isInProgress path = false := by
      rw [Bool.eq_false_iff]
      intro hprogress
      exact Bool.eq_false_iff.1 hnew (hs.contains_of_isInProgress hprogress)
    have hanswer := answer_eq_opened hresolve hidle hnew hread hparse
    have hentered := exact_of_opened hanswer hs
    have hopened := loaded_opening hnew text (.requireExpanded r.path r.force path.text)
    have hbody := hunits path text _ program hread hparse
    obtain ⟨trace, t, hserves, hloaded⟩ :=
      ih hentered hopened.imported hopened.size_eq fun _ => hbody.force_eq
    have hleft := (hserves.exact hentered).1.leave
    have hthere := (hopened.trans hloaded).leaving
    obtain ⟨trace', t', hserves', hloaded'⟩ := ih' (s := t.leaving) hleft
      hthere.imported (by rw [hthere.size_eq, List.length_append]; simp +arith)
      fun r hr => hforce r (List.mem_cons_of_mem _ hr)
    exact ⟨_, t', .expanded hanswer hserves hserves', hthere.trans hloaded'⟩

/-- The importer in which the requests of a script are served: the script itself has been imported
and is being expanded, if it has a path. -/
def starting (sources : SourceMap) : Option Path → Importer
  | none => Importer.new sources
  | some path => ((Importer.new sources).registering path).entering path

theorem exact_starting (sources : SourceMap) (entry : Option Path) :
    (starting sources entry).registry.Exact := by
  cases entry with
  | none => exact .of_inProgress_eq_nil rfl
  | some path =>
    exact (Registry.Exact.of_inProgress_eq_nil rfl).register path |>.enter rfl
      (Registry.contains_register_self ..)

theorem imported_starting (sources : SourceMap) (entry : Option Path) :
    (starting sources entry).registry.imported = entry.toList := by
  cases entry <;> rfl

theorem sources_starting (sources : SourceMap) (entry : Option Path) :
    (starting sources entry).sources = sources := by
  cases entry <;> rfl

/-- A script is expanded by serving its requests. -/
theorem gives_run_iff {sources : SourceMap} {entry : Option Path} {stmts result : List Stmt}
    {files : List SourceFile} :
    (∃ t, Gives (run loader entry stmts) (Importer.new sources) result t ∧
      t.sources.files.toList = files) ↔
    ∃ trace parts t, Serves loader entry (Stmt.requestsInAll .handlerFirst stmts)
        (starting sources entry) trace (.ok parts) t ∧
      result = Stmt.fillAll .handlerFirst stmts parts ∧ t.sources.files.toList = files := by
  obtain ⟨trace, hresolves⟩ := exists_resolves loader entry stmts (Importer.new sources)
  rcases hrun : outcome (run loader entry stmts) (Importer.new sources) with ⟨result', t'⟩
  rw [hrun] at hresolves
  simp only [Gives, hrun, Prod.mk.injEq]
  -- the outcome comes from one list of parts, or from one error
  obtain ⟨trace, parts', u, hserves, hresult, hfiles⟩ : ∃ trace parts u,
      Serves loader entry (Stmt.requestsInAll .handlerFirst stmts) (starting sources entry) trace
        parts u ∧ result' = parts.map (Stmt.fillAll .handlerFirst stmts) ∧
      u.sources.files = t'.sources.files := by
    cases hresolves with
    | nowhere h => exact ⟨_, _, _, h, rfl, rfl⟩
    | unit h => exact ⟨_, _, _, h, rfl, rfl⟩
  constructor
  · rintro ⟨t, ⟨hok, rfl⟩, rfl⟩
    cases parts' with
    | error e =>
      rw [hresult] at hok
      cases hok
    | ok parts =>
      rw [hresult] at hok
      exact ⟨trace, parts, u, hserves, (Except.ok.inj hok).symm, by rw [hfiles]⟩
  · rintro ⟨trace', parts, t, hserves', rfl, rfl⟩
    obtain ⟨-, rfl, rfl⟩ := hserves.unique hserves'
    exact ⟨t', ⟨hresult, rfl⟩, by rw [hfiles]⟩

/-- The expansion of a script puts the units where a walk through the requests puts them, and loads
them in the order in which the walk first meets them. -/
def SplicesAlong (order : WalkOrder) (loader : Loader) (sources : SourceMap) (entry : Option Path)
    (stmts : List Stmt) : Prop :=
  ∀ result files,
    (∃ t, Gives (run loader entry stmts) (Importer.new sources) result t ∧
      t.sources.files.toList = files) ↔
    ∃ parts units met, Spliced loader order entry entry.toList sources.files.size
        (Stmt.requestsInAll order stmts) parts units met ∧
      result = Stmt.fillAll order stmts parts ∧
      files = sources.files.toList ++ units.map SourceFile.ofUnit ∧
      units.map Prod.fst = firstMet entry.toList met

theorem splicesAlong_handlerFirst (hunits : loader.AllUnits Stmt.Unforced) (sources : SourceMap)
    (entry : Option Path) {stmts : List Stmt} (hstmts : Stmt.Unforced stmts) :
    SplicesAlong .handlerFirst loader sources entry stmts := by
  intro result files
  have hexact := exact_starting sources entry
  rw [gives_run_iff]
  constructor
  · rintro ⟨trace, parts, t, hserves, rfl, rfl⟩
    obtain ⟨units, met, hloaded, hspliced⟩ :=
      hserves.spliced hunits rfl hexact fun _ => hstmts.force_eq
    have hfiles := hloaded.files
    rw [imported_starting, sources_starting] at hspliced
    rw [sources_starting] at hfiles
    exact ⟨parts, units, met, hspliced, rfl, hfiles, hspliced.paths_eq⟩
  · rintro ⟨parts, units, met, hspliced, rfl, rfl, -⟩
    obtain ⟨trace, t, hserves, hloaded⟩ := exists_serves_of_spliced hunits hspliced hexact
      (imported_starting sources entry) (by rw [sources_starting]) fun _ => hstmts.force_eq
    have hfiles := hloaded.files
    rw [sources_starting] at hfiles
    exact ⟨trace, parts, t, hserves, rfl, hfiles⟩

theorem SplicesAlong.reorder {order : WalkOrder} {sources : SourceMap} {entry : Option Path}
    {stmts : List Stmt} (h : SplicesAlong order loader sources entry stmts)
    (hstmts : Stmt.OneSidedAll stmts) (hunits : loader.AllUnits Stmt.OneSidedAll)
    (order' : WalkOrder) : SplicesAlong order' loader sources entry stmts := by
  intro result files
  rw [h result files]
  constructor
  · rintro ⟨parts, units, met, hspliced, rfl, hrest⟩
    have hfill := hstmts.fill_congr order order' hspliced.length_parts
    rw [hstmts.requestsIn_congr order order'] at hspliced
    exact ⟨parts, units, met, hspliced.reorder hunits, hfill, hrest⟩
  · rintro ⟨parts, units, met, hspliced, rfl, hrest⟩
    have hfill := hstmts.fill_congr order' order hspliced.length_parts
    rw [hstmts.requestsIn_congr order' order] at hspliced
    exact ⟨parts, units, met, hspliced.reorder hunits, hfill, hrest⟩

/-- The script of a comment, whatever its number. -/
theorem parse_comment (file : Nat) :
    Program.parse "//### b" file = .ok ⟨[.atom (.comment "b" ⟨0, 7, file⟩)]⟩ := by
  have htokens : tokenize "//### b" file =
      .ok [⟨.comment "b", ⟨0, 7, file⟩⟩, ⟨.eof, ⟨7, 7, file⟩⟩] := by
    with_unfolding_all rfl
  rw [Program.parse, htokens]
  rfl

/-- The script of a request, whatever its number. -/
theorem parse_require (file : Nat) :
    Program.parse "require('b.js');" file = .ok ⟨[.require "b.js" false ⟨0, 16, file⟩]⟩ := by
  have htokens : tokenize "require('b.js');" file =
      .ok [⟨.keyword .require_, ⟨0, 7, file⟩⟩, ⟨.symbol .openParen, ⟨7, 8, file⟩⟩,
        ⟨.str "b.js", ⟨8, 14, file⟩⟩, ⟨.symbol .closeParen, ⟨14, 15, file⟩⟩,
        ⟨.symbol .semicolon, ⟨15, 16, file⟩⟩, ⟨.eof, ⟨16, 16, file⟩⟩] := by
    with_unfolding_all rfl
  rw [Program.parse, htokens]
  rfl

/-- **A unit is put in the place of the first request that names it**, and later requests of it are
removed, if nothing is required with force.  The first request is meant in the order in which the
handler of an attempt comes before its body; it is the first in the order of the text if no attempt
has requests on both sides.  The identities that the loader can give are finitely many. -/
theorem units_are_put_at_their_first_request (loader : Loader) (sources : SourceMap)
    (entry : Option Path) (stmts : List Stmt) (hstmts : Stmt.Unforced stmts)
    (hunits : loader.AllUnits Stmt.Unforced) :
    SplicesAlong .handlerFirst loader sources entry stmts ∧
      (Stmt.OneSidedAll stmts → loader.AllUnits Stmt.OneSidedAll →
        SplicesAlong .textual loader sources entry stmts) := by
  have hsplices := splicesAlong_handlerFirst hunits sources entry hstmts
  exact ⟨hsplices, fun hsided hsided' => hsplices.reorder hsided hsided' .textual⟩

/-- In a script whose `else` requires a unit that the unit of its first branch requires too, the
unit is put into the first branch. -/
theorem units_are_put_at_their_first_request_elseBranch :
    let units : UnitTable := [(⟨"a.js"⟩, "require('b.js');"), (⟨"b.js"⟩, "//### b")]
    let script : List Stmt := [.ifChain
      [⟨.ident ⟨"c", ⟨4, 5, 0⟩⟩, [.require "a.js" false ⟨9, 25, 0⟩], ⟨0, 27, 0⟩⟩]
      (some [.require "b.js" false ⟨35, 51, 0⟩]) ⟨0, 53, 0⟩]
    Stmt.Unforced script ∧ units.loader.AllUnits Stmt.Unforced ∧
      SplicesAlong .textual units.loader .empty (some ⟨"main.js"⟩) script := by
  intro units script
  have hunits {P : List Stmt → Prop} (h : ∀ file, P [.require "b.js" false ⟨0, 16, file⟩])
      (h' : ∀ file, P [.atom (.comment "b" ⟨0, 7, file⟩)]) : units.loader.AllUnits P := by
    refine UnitTable.allUnits fun entry hentry file program hprogram => ?_
    simp only [units, List.mem_cons, List.not_mem_nil, or_false] at hentry
    rcases hentry with rfl | rfl
    · cases (parse_require file).symm.trans hprogram
      exact h file
    · cases (parse_comment file).symm.trans hprogram
      exact h' file
  have hunforced : units.loader.AllUnits Stmt.Unforced :=
    hunits (by simp [Stmt.Unforced, Stmt.requestsInAll, Stmt.requestsIn])
      (by simp [Stmt.Unforced, Stmt.requestsInAll, Stmt.requestsIn])
  have hsided : units.loader.AllUnits Stmt.OneSidedAll :=
    hunits (by simp [Stmt.OneSidedAll, Stmt.OneSided]) (by simp [Stmt.OneSidedAll, Stmt.OneSided])
  have hscript : Stmt.OneSidedAll script := by
    simp [script, Stmt.OneSidedAll, Stmt.OneSided, Stmt.OneSidedBranches]
  have hforce : Stmt.Unforced script := by decide
  exact ⟨hforce, hunforced,
    (units_are_put_at_their_first_request _ _ _ _ hforce hunforced).2 hscript hsided⟩

/-- **A handler takes the unit of its attempt**: the order of the text is not the order of the walk
when a unit is required on both sides. -/
theorem handler_takes_unit_of_attempt :
    let units : UnitTable := [(⟨"b.js"⟩, "//### b")]
    let text := "try \x7brequire('b.js')\x7d catch \x7brequire('b.js')\x7d"
    ∃ program, Program.parse text 0 = .ok program ∧ Stmt.Unforced program.body ∧
      units.loader.AllUnits Stmt.Unforced ∧
      ¬ SplicesAlong .textual units.loader ⟨#[⟨"main.js", none, text⟩]⟩ (some ⟨"main.js"⟩)
        program.body := by
  intro units text
  have hunforced : units.loader.AllUnits Stmt.Unforced := by
    refine UnitTable.allUnits fun entry hentry file program hprogram => ?_
    cases List.mem_singleton.1 hentry
    cases (parse_comment file).symm.trans hprogram
    simp [Stmt.Unforced, Stmt.requestsInAll, Stmt.requestsIn]
  -- in either order the first of the two requests takes the unit
  have hspliced (order : WalkOrder) (span span' : Span) :
      Spliced units.loader order (some ⟨"main.js"⟩) [⟨"main.js"⟩] 1
        [⟨"b.js", false, span⟩, ⟨"b.js", false, span'⟩]
        [[.atom (.comment "b" ⟨0, 7, 1⟩)], []]
        [(⟨"b.js"⟩, "//### b")] [⟨"b.js"⟩, ⟨"b.js"⟩] := by
    have hresolve : units.loader.resolve (some ⟨"main.js"⟩) "b.js" = some ⟨"b.js"⟩ := by
      decide +kernel
    have hread : units.loader.read ⟨"b.js"⟩ = .ok "//### b" := by decide +kernel
    have hnew : [Path.mk "main.js"].any (Path.mk "b.js").same = false := by decide +kernel
    have hseen : [Path.mk "main.js", ⟨"b.js"⟩].any (Path.mk "b.js").same = true := by decide +kernel
    exact .first hresolve hnew hread (parse_comment 1) .done (.later hresolve hseen .done)
  have hscript : Program.parse text 0 = .ok ⟨[.attempt [.require "b.js" false ⟨5, 20, 0⟩]
      (some [.require "b.js" false ⟨29, 44, 0⟩]) ⟨0, 45, 0⟩]⟩ := by
    have htokens : tokenize text 0 =
        .ok [⟨.keyword .try_, ⟨0, 3, 0⟩⟩, ⟨.symbol .openBrace, ⟨4, 5, 0⟩⟩,
          ⟨.keyword .require_, ⟨5, 12, 0⟩⟩, ⟨.symbol .openParen, ⟨12, 13, 0⟩⟩,
          ⟨.str "b.js", ⟨13, 19, 0⟩⟩, ⟨.symbol .closeParen, ⟨19, 20, 0⟩⟩,
          ⟨.symbol .closeBrace, ⟨20, 21, 0⟩⟩, ⟨.keyword .catch_, ⟨22, 27, 0⟩⟩,
          ⟨.symbol .openBrace, ⟨28, 29, 0⟩⟩, ⟨.keyword .require_, ⟨29, 36, 0⟩⟩,
          ⟨.symbol .openParen, ⟨36, 37, 0⟩⟩, ⟨.str "b.js", ⟨37, 43, 0⟩⟩,
          ⟨.symbol .closeParen, ⟨43, 44, 0⟩⟩, ⟨.symbol .closeBrace, ⟨44, 45, 0⟩⟩,
          ⟨.eof, ⟨45, 45, 0⟩⟩] := by
      decide +kernel
    rw [Program.parse, htokens]
    rfl
  refine ⟨_, hscript, by decide, hunforced, fun htextual => ?_⟩
  have hwalk : SplicesAlong .handlerFirst units.loader ⟨#[⟨"main.js", none, text⟩]⟩
      (some ⟨"main.js"⟩) [.attempt [.require "b.js" false ⟨5, 20, 0⟩]
        (some [.require "b.js" false ⟨29, 44, 0⟩]) ⟨0, 45, 0⟩] :=
    splicesAlong_handlerFirst hunforced _ _ (by decide)
  obtain ⟨t, hgives, -⟩ :=
    (htextual _ _).2 ⟨_, _, _, hspliced .textual ⟨5, 20, 0⟩ ⟨29, 44, 0⟩, rfl,
      rfl, by decide +kernel⟩
  obtain ⟨t', hgives', -⟩ :=
    (hwalk _ _).2 ⟨_, _, _, hspliced .handlerFirst ⟨29, 44, 0⟩ ⟨5, 20, 0⟩, rfl,
      rfl, by decide +kernel⟩
  cases (hgives.unique hgives').1

end Importer

end EdgeScript
