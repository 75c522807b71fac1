import EdgeScript.Import.Expand
import EdgeScript.Lowering
import EdgeScript.Markup.Generate

/-!
# Compiling a unit

A unit is read, its imports are expanded, the passes that the options ask for are run, and what they
leave is written as markup.  A `CompiledUnit` holds the markup or the error together with all that
was met and counted on the way; a unit that fails keeps the counters of the stages it got through.
-/

set_option autoImplicit false

namespace EdgeScript

/-- What the compilation of a unit has done. -/
structure UnitCounters where
  imports : ImportCounters := {}
  passes : PassCounters := {}
  /-- The size of the markup. -/
  bytes : Nat := 0
  /-- The time spent, for who has a clock. -/
  milliseconds : Nat := 0
deriving DecidableEq, Repr

/-- The state of a compilation. -/
structure Compilation where
  sources : SourceMap
  counters : UnitCounters := {}
  notes : Array Note := #[]
deriving Repr

/-- The outcome of the compilation of a unit. -/
structure CompiledUnit where
  name : String
  /-- The unit and all units it imported. -/
  sources : SourceMap
  result : Except Error String
  counters : UnitCounters
  notes : Array Note
deriving Repr

namespace Compilation

/-- Leaves notes. -/
def addNotes (notes : Array Note) : Pass Compilation Unit :=
  modify fun s => { s with notes := s.notes ++ notes }

/-- Expands the imports of a script. -/
def expandImports (loader : Loader) (entry : Option Path) (stmts : List Stmt) :
    Pass Compilation (List Stmt) := do
  let s ← get
  let (result, importer) := (Importer.run loader entry stmts).run.run (Importer.new s.sources)
  set { s with sources := importer.sources, notes := s.notes ++ importer.notes }
  let stmts ← result
  modify fun s => { s with counters := { s.counters with imports := importer.counters } }
  addNotes #[.imports importer.counters.expanded importer.counters.skipped]
  return stmts

/-- Runs the passes that the options ask for. -/
def runPasses (options : Options) (stmts : List Stmt) : Pass Compilation (List Stmt) := do
  let (result, lowering) := (Lowering.runPasses options.passes stmts).run.run {}
  addNotes lowering.notes
  let stmts ← result
  modify fun s => { s with counters := { s.counters with passes := lowering.counters } }
  return stmts

/-- The lowered statements of a unit of the source map, which is known to its imports as `entry`. -/
def lower (options : Options) (loader : Loader) (file : Nat) (entry : Option Path) :
    Pass Compilation (List Stmt) := do
  let program ← Program.parse ((← get).sources.text file) file
  let stmts ← expandImports loader entry program.body
  runPasses options stmts

/-- The markup of lowered statements, as text. -/
def generate (options : Options) (stmts : List Stmt) : Pass Compilation String := do
  let (result, notes) := (Markup.ofProgram options stmts).run.run #[]
  addNotes notes
  let markup ← result
  return Markup.textAll markup

/-- The markup of a unit of the source map. -/
def compile (options : Options) (loader : Loader) (file : Nat) (entry : Option Path) :
    Pass Compilation String := do
  let stmts ← lower options loader file entry
  generate options stmts

end Compilation

namespace CompiledUnit

/-- The outcome of a finished compilation, with the size of its markup and a last note. -/
def ofResult (name : String) (result : Except Error String) (c : Compilation) : CompiledUnit :=
  match result with
  | .ok markup =>
    let bytes := markup.utf8ByteSize
    ⟨name, c.sources, result, { c.counters with bytes }, c.notes.push (.written name bytes)⟩
  | .error e => ⟨name, c.sources, result, c.counters, c.notes.push (.failed name e.kind)⟩

/-- Compiles a unit that is already in a source map. -/
def compile (options : Options) (loader : Loader) (name : String) (sources : SourceMap) (file : Nat)
    (entry : Option Path) : CompiledUnit :=
  let start : Compilation := { sources, notes := #[.compiling name] }
  let (result, c) := (Compilation.compile options loader file entry).run.run start
  ofResult name result c

/-- Compiles a text that has no file of its own. -/
def ofSource (options : Options) (loader : Loader) (name text : String) : CompiledUnit :=
  let (sources, file) := SourceMap.empty.add name none text
  compile options loader name sources file none

/-- Whether there is markup. -/
def isOk (unit : CompiledUnit) : Bool := unit.result.isOk

/-- The error in one line, if there is one. -/
def renderError? (unit : CompiledUnit) : Option String :=
  match unit.result with
  | .ok _ => none
  | .error e => some (e.render unit.sources)

end CompiledUnit

end EdgeScript
