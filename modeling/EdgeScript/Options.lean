import EdgeScript.Json.Parse
import EdgeScript.Error
import EdgeScript.Path

/-!
# Options of a compilation

Options are read from JSON, as an object of any of the fields or as an array of the fields' values
in their order, and every field has a default.  A field that is not known, or given twice, is
refused, and so is a number that is not written as an integer in range.
-/

set_option autoImplicit false

namespace EdgeScript

/-- The options of a compilation. -/
structure Options where
  /-- How many copies of loop bodies one unit may have, and how long a written list may be. -/
  maxLoopIterations : Nat := 1024
  /-- Where required units are looked for first. -/
  libraryPaths : List Path := []
  optLevel : Nat := 7
  /-- Whether the markup starts with a comment that says that it is generated. -/
  warningBanner : Bool := false
deriving DecidableEq, Repr, Inhabited

/-- What is wrong with the text of options. -/
inductive OptionsFault where
  | notJson
  | notOptions
  | unknownField (name : String)
  | repeatedField (name : String)
  | badValue (name : String)
  | tooManyValues
deriving DecidableEq, Repr

def OptionsFault.message : OptionsFault → String
  | .notJson => "not a JSON value"
  | .notOptions => "neither an object nor an array"
  | .unknownField name => s!"unknown field `{name}`"
  | .repeatedField name => s!"repeated field `{name}`"
  | .badValue name => s!"unusable value of field `{name}`"
  | .tooManyValues => "more values than fields"

namespace Options

/-- The options of the command line, which marks its output as generated. -/
def commandLine : Options := { warningBanner := true }

/-- The least level with constant folding. -/
def foldLevel : Nat := 3

/-- The least level with function inlining. -/
def inlineLevel : Nat := 5

/-- Whether literal expressions are folded. -/
def folding (o : Options) : Bool := foldLevel ≤ o.optLevel

/-- Whether calls of inline functions are expanded. -/
def inlining (o : Options) : Bool := inlineLevel ≤ o.optLevel

/-- Adds a directory to the library, unless it is there. -/
def addLibraryPath (o : Options) (path : Path) : Options :=
  if o.libraryPaths.any path.same then o
  else { o with libraryPaths := o.libraryPaths ++ [path] }

/-- Adds directories from a list with colons between them. -/
def extendLibraryPaths (o : Options) (list : String) : Options :=
  let entries := (Text.splitOn ':' list.toList).filter (!·.isEmpty)
  (entries.map fun entry => Path.mk (String.ofList entry)).foldl addLibraryPath o

/-! ## Reading -/

/-- An integer from zero to below a bound, written without a sign, a point or an exponent. -/
def natBelow? (bound : Nat) : Json → Option Nat
  | .number text =>
    match text.toList with
    | [] => none
    | digits =>
      if digits.all Char.isDigit then
        let n := digits.foldl (fun n c => n * 10 + (c.toNat - '0'.toNat)) 0
        if n < bound then some n else none
      else none
  | _ => none

/-- A string. -/
def string? : Json → Option String
  | .string s => some s
  | _ => none

/-- A list of paths. -/
def paths? : Json → Option (List Path)
  | .array vs => (vs.mapM string?).map (·.map Path.mk)
  | _ => none

/-- A truth value. -/
def bool? : Json → Option Bool
  | .bool b => some b
  | _ => none

/-- The names of the fields in their order. -/
def fieldNames : List String :=
  ["max_loop_iterations", "library_paths", "opt_level", "warning_banner"]

/-- The options with one field set. -/
def set (o : Options) (name : String) (v : Json) : Except OptionsFault Options :=
  if name = "max_loop_iterations" then
    match natBelow? UInt64.size v with
    | some n => .ok { o with maxLoopIterations := n }
    | none => .error (.badValue name)
  else if name = "library_paths" then
    match paths? v with
    | some paths => .ok { o with libraryPaths := paths }
    | none => .error (.badValue name)
  else if name = "opt_level" then
    match natBelow? 256 v with
    | some n => .ok { o with optLevel := n }
    | none => .error (.badValue name)
  else if name = "warning_banner" then
    match bool? v with
    | some b => .ok { o with warningBanner := b }
    | none => .error (.badValue name)
  else .error (.unknownField name)

/-- The options with the members of an object set, none of them twice. -/
def setAll (o : Options) : List (String × Json) → List String → Except OptionsFault Options
  | [], _ => .ok o
  | (name, v) :: rest, seen =>
    if name ∈ seen then .error (.repeatedField name)
    else
      match o.set name v with
      | .ok o => setAll o rest (name :: seen)
      | .error fault => .error fault

/-- The options that a JSON value stands for. -/
def ofJson : Json → Except OptionsFault Options
  | .object members => setAll {} members []
  | .array vs =>
    if fieldNames.length < vs.length then .error .tooManyValues
    else setAll {} (fieldNames.zip vs) []
  | _ => .error .notOptions

/-- The options that a text stands for. -/
def parse (text : String) : Except Error Options :=
  match Json.parse? text with
  | none => .error (.io ("invalid options: " ++ OptionsFault.notJson.message))
  | some v =>
    match ofJson v with
    | .ok o => .ok o
    | .error fault => .error (.io ("invalid options: " ++ fault.message))

end Options

end EdgeScript
