import EdgeScript.Import.Loader
import EdgeScript.Import.Registry
import EdgeScript.Grammar.Stmt
import EdgeScript.Note

/-!
# Expanding imports

An `Importer` replaces every `require` by the statements of the unit it names.  A unit that has been
imported before, or is being expanded around the `require`, is skipped; a forced `require` imports
it again, but not within itself.  The handler of an attempt is expanded before its body.

Registry, counters and source map are kept when an expansion fails, and serve the scripts that
follow.
-/

set_option autoImplicit false

namespace EdgeScript

/-- How many `require`s were expanded and skipped. -/
structure ImportCounters where
  expanded : Nat := 0
  skipped : Nat := 0
deriving DecidableEq, Repr

/-- The state of the expansion of imports. -/
structure Importer where
  sources : SourceMap
  registry : Registry := {}
  counters : ImportCounters := {}
  notes : Array Note := #[]
deriving Repr

namespace Importer

/-- An importer that adds to the given sources. -/
def new (sources : SourceMap) : Importer := { sources }

/-- Leaves a note. -/
def note (n : Note) : Pass Importer Unit :=
  modify fun s => { s with notes := s.notes.push n }

/-- Does something while a unit is marked as being expanded; the mark goes whatever happens. -/
def whileExpanding {α : Type} (path : Path) (act : Pass Importer α) : Pass Importer α :=
  ExceptT.mk do
    modify fun s => { s with registry := s.registry.enter path }
    let result ← act.run
    modify fun s => { s with registry := s.registry.leave }
    return result

/-- Counts a `require` that is not expanded. -/
def skip (n : Note) : Pass Importer (List Stmt) := do
  note n
  modify fun s => { s with counters := { s.counters with skipped := s.counters.skipped + 1 } }
  return []

/-- The expansion of the statements of a unit, given its path. -/
abbrev Inner := Option Path → List Stmt → Pass Importer (List Stmt)

/-- The statements of the unit at a path. -/
def loadUnit (loader : Loader) (path : Path) : Pass Importer Program := do
  match loader.read path with
  | .error reason => throw (.io ("reading " ++ path.text ++ ": " ++ reason))
  | .ok text =>
    let s ← get
    let (sources, file) := s.sources.add path.text (some path) text
    set { s with sources, registry := s.registry.register path }
    Program.parse text file

/-- What a `require` in the unit at `origin` is replaced by. -/
def requireUnit (loader : Loader) (inner : Inner) (origin : Option Path) (request : String)
    (force : Bool) (span : Span) : Pass Importer (List Stmt) := do
  match loader.resolve origin request with
  | none => throw (.unresolvedImport request span)
  | some path =>
    let registry := (← get).registry
    if registry.isInProgress path then
      if force then throw (.importCycle request span)
      else skip (.requireInProgress request)
    else if registry.contains path && !force then skip (.requireRepeated request)
    else
      let program ← loadUnit loader path
      note (.requireExpanded request force path.text)
      modify fun s => { s with counters := { s.counters with expanded := s.counters.expanded + 1 } }
      whileExpanding path (inner (some path) program.body)

mutual

/-- A statement with its `require`s replaced. -/
def expandStmt (require : String → Bool → Span → Pass Importer (List Stmt)) :
    Stmt → Pass Importer (List Stmt)
  | .require path force span => require path force span
  | .block body span => do
    let body ← expandStmts require body
    return [.block body span]
  | .ifChain branches (some body) span => do
    let branches ← expandBranches require branches
    let body ← expandStmts require body
    return [.ifChain branches (some body) span]
  | .ifChain branches none span => do
    let branches ← expandBranches require branches
    return [.ifChain branches none span]
  | .attempt body (some handler) span => do
    let handler ← expandStmts require handler
    let body ← expandStmts require body
    return [.attempt body (some handler) span]
  | .attempt body none span => do
    let body ← expandStmts require body
    return [.attempt body none span]
  | .forLoop var collection body span => do
    let body ← expandStmts require body
    return [.forLoop var collection body span]
  | .function name params isInline body span => do
    let body ← expandStmts require body
    return [.function name params isInline body span]
  | .atom a => return [.atom a]
  | .breakLoop span => return [.breakLoop span]

/-- The statements of a sequence with their `require`s replaced. -/
def expandStmts (require : String → Bool → Span → Pass Importer (List Stmt)) :
    List Stmt → Pass Importer (List Stmt)
  | [] => return []
  | s :: rest => do
    let first ← expandStmt require s
    let rest ← expandStmts require rest
    return first ++ rest

/-- The branches of a chain with the `require`s in their bodies replaced. -/
def expandBranches (require : String → Bool → Span → Pass Importer (List Stmt)) :
    List (Branch Stmt) → Pass Importer (List (Branch Stmt))
  | [] => return []
  | ⟨cond, body, span⟩ :: rest => do
    let body ← expandStmts require body
    let rest ← expandBranches require rest
    return ⟨cond, body, span⟩ :: rest

end

/-- The statements of the unit at a path with their `require`s replaced, to the given depth of units
within units. -/
def expandAt (loader : Loader) : Nat → Inner
  | 0, _, stmts => return stmts
  | depth + 1, origin, stmts =>
    expandStmts (requireUnit loader (expandAt loader depth) origin) stmts

/-- A script with its `require`s replaced.  No unit is expanded within itself, so units nest at most
as deep as there are identities.  The script itself is the unit at `entry`, if that is given. -/
def run (loader : Loader) (entry : Option Path) (stmts : List Stmt) :
    Pass Importer (List Stmt) := do
  let expand := expandAt loader (loader.identities.length + 1) entry stmts
  match entry with
  | none => expand
  | some path =>
    modify fun s => { s with registry := s.registry.register path }
    whileExpanding path expand

end Importer

end EdgeScript
