import EdgeScript.Error

/-!
# Notes on a compilation

What a compilation tells about its progress, one `Note` per step worth telling, and `Pass`, the kind
of computation that leaves notes and counters behind whether it succeeds or not.
-/

set_option autoImplicit false

namespace EdgeScript

/-- How much a note matters. -/
inductive NoteLevel where
  | warn | info | debug
deriving DecidableEq, Repr

def NoteLevel.text : NoteLevel → String
  | .warn => "WARN"
  | .info => "INFO"
  | .debug => "DEBUG"

/-- A step of a compilation. -/
inductive Note where
  | compilingUnits (count : Nat)
  | compiling (unit : String)
  | written (unit : String) (bytes : Nat)
  | failed (unit : String) (kind : ErrorKind)
  | imports (expanded skipped : Nat)
  | requireInProgress (request : String)
  | requireRepeated (request : String)
  | requireExpanded (request : String) (force : Bool) (unit : String)
  | runningPass (name : String)
  | functionRedefined (name : String)
  | callInlined (name : String)
  | loopBroken (var : String) (iteration : Nat)
  | loopUnrolled (var : String) (iterations : Nat)
  | functionWithoutMarkup (name : String)
  | expressionDropped (text : String)
deriving DecidableEq, Repr

namespace Note

def level : Note → NoteLevel
  | .compilingUnits _ | .compiling _ | .written .. => .info
  | .functionWithoutMarkup _ => .warn
  | _ => .debug

def text : Note → String
  | .compilingUnits count => s!"compiling {count} units"
  | .compiling unit => s!"compiling {unit}"
  | .written unit bytes => s!"{unit}: {bytes} bytes of ESI"
  | .failed unit kind => s!"{unit}: failed with " ++ kind.label
  | .imports expanded skipped => s!"imports: {expanded} expanded, {skipped} skipped"
  | .requireInProgress request => s!"require('{request}'): already being expanded, skipped"
  | .requireRepeated request => s!"require('{request}'): already imported, skipped"
  | .requireExpanded request force unit =>
    let mark := if force then " forced" else ""
    s!"require('{request}'){mark}: expanding {unit}"
  | .runningPass name => s!"running pass {name}"
  | .functionRedefined name => s!"inline function {name}() redefined"
  | .callInlined name => s!"inlined call to {name}()"
  | .loopBroken var iteration => s!"loop over `{var}` breaks at iteration {iteration}"
  | .loopUnrolled var iterations => s!"unrolled loop over `{var}` into {iterations} iterations"
  | .functionWithoutMarkup name => s!"function {name}() is not inline and produces no markup"
  | .expressionDropped text => s!"dropped expression statement `{text}`"

end Note

/-- A computation that may fail and whose state, notes included, outlives the failure. -/
abbrev Pass (σ : Type) := ExceptT Error (StateM σ)

end EdgeScript
