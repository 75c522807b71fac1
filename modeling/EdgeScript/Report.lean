import EdgeScript.Compiler
import EdgeScript.Json

/-!
# Reports

The outcome of a compilation as JSON, for programs that read it: whether there is markup, what is
wrong and where, and the counters.
-/

set_option autoImplicit false

namespace EdgeScript

/-- A location as JSON. -/
def Location.toJson (l : Location) : Json :=
  .object [("file", .string l.file), ("line", .ofNat l.line), ("column", .ofNat l.column)]

/-- An error as JSON. -/
def Error.toJson (sources : SourceMap) (e : Error) : Json :=
  .object [
    ("code", .string e.kind.code),
    ("kind", .string e.kind.name),
    ("message", .string e.message),
    ("location", match e.span? with
      | some span => (sources.locate span).toJson
      | none => .null),
    ("help", .ofOption e.help?)]

/-- Counters as JSON. -/
def UnitCounters.toJson (c : UnitCounters) : Json :=
  .object [
    ("imports", .object [
      ("expanded", .ofNat c.imports.expanded), ("skipped", .ofNat c.imports.skipped)]),
    ("functions_inlined", .ofNat c.passes.functionsInlined),
    ("calls_inlined", .ofNat c.passes.callsInlined),
    ("loops_unrolled", .ofNat c.passes.loopsUnrolled),
    ("iterations_emitted", .ofNat c.passes.iterations),
    ("bytes_emitted", .ofNat c.bytes),
    ("total_time_ms", .ofNat c.milliseconds)]

/-- The report on a unit. -/
def CompiledUnit.report (unit : CompiledUnit) : Json :=
  let errors :=
    match unit.result with
    | .ok _ => []
    | .error e => [e.toJson unit.sources]
  .object [
    ("success", .bool unit.isOk),
    ("source_file", .string unit.name),
    ("diagnostics", .array errors),
    ("stats", unit.counters.toJson)]

end EdgeScript
