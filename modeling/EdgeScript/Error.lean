import EdgeScript.Token
import EdgeScript.Text.Search

/-!
# Errors

Everything that can be wrong with a script, each with its cause and, apart from failed file access,
its place.  `Error.message` holds the wording of all of them, `Error.kind` sorts them into the kinds
that reports name by a stable code, and `Error.render` is the line that people read.
-/

set_option autoImplicit false

namespace EdgeScript

/-- What can be wrong with the characters of a script. -/
inductive LexFault where
  | unexpectedChar (c : Char)
  | unterminatedString
  | unterminatedComment
  | invalidNumber (text : String)
  | floatLiteral (text : String)
deriving DecidableEq, Repr

def LexFault.message : LexFault → String
  | .unexpectedChar c => s!"unrecognized character '{c}'"
  | .unterminatedString => "unterminated string literal"
  | .unterminatedComment => "unterminated block comment"
  | .invalidNumber text => s!"invalid number literal '{text}'"
  | .floatLiteral text =>
    s!"float literal '{text}' is not supported; ESI arithmetic is integer-only"

/-- Constructs that stand where they may not. -/
inductive Misplacement where
  | breakOutsideLoop
  | returnOutsideFunction
  /-- A parameter without a default after one that has a default. -/
  | requiredAfterDefault (parameter : String)
  | duplicateOption (option : String)
  | assignmentTarget
  | rawOutputArgument
  | callee
  | captureOperator
  | captureOutsideCondition
  | secondCapture
  | captureOutOfScope (name : String)
  | captureWithoutIndex (name : String)
  | captureIndex (name : String)
deriving DecidableEq, Repr

def Misplacement.message : Misplacement → String
  | .breakOutsideLoop => "`break` outside of a loop"
  | .returnOutsideFunction => "`return` outside of a function"
  | .requiredAfterDefault parameter =>
    s!"parameter `{parameter}` without a default follows a defaulted one"
  | .duplicateOption option => s!"duplicate `{option}` option"
  | .assignmentTarget => "invalid assignment target"
  | .rawOutputArgument => "printraw() only accepts literal values"
  | .callee => "only named functions can be called"
  | .captureOperator => "`as` capture requires `matches` or `matches_i`"
  | .captureOutsideCondition => "`as` capture is only allowed in an if condition"
  | .secondCapture => "only one capture per condition is supported"
  | .captureOutOfScope name =>
    s!"capture `{name}` is only visible inside the branch whose condition binds it"
  | .captureWithoutIndex name =>
    s!"capture `{name}` can only be read by integer index, as in `{name}[1]`"
  | .captureIndex name =>
    s!"capture `{name}` must be indexed by a non-negative integer literal"

/-- The variable of the request's arguments, which an inline function may not read. -/
def argumentsVariable : String := "ARGS"

/-- Why an inline function cannot be expanded. -/
inductive InlineFault where
  /-- The body is not one `return` of an expression. -/
  | bodyShape
  | readsArguments
  /-- The function calls itself; the names from it back to it. -/
  | recursive (cycle : List String)
  | tooManyArguments (most given : Nat)
  | missingArgument (parameter : String)
deriving DecidableEq, Repr

def InlineFault.message : InlineFault → String
  | .bodyShape =>
    "an inline function body must be a single `return <expression>` statement"
  | .readsArguments => s!"inline functions cannot reference `{argumentsVariable}`"
  | .recursive cycle => "recursive inline expansion (" ++ Text.joinWith " -> " cycle ++ ")"
  | .tooManyArguments most given =>
    let plural := if most = 1 then "" else "s"
    s!"takes at most {most} argument{plural} ({given} given)"
  | .missingArgument parameter => s!"missing argument for parameter `{parameter}`"

/-- Constructs that the markup cannot express. -/
inductive Unsupported where
  | missingSource
  | unknownOption (name : String) (meant : Option String)
  | undecidedBreak
  | breakInTry
  | loopLeft
  | breakLeft
  | returnLeft
  | requireLeft (path : String)
  | rawOutputArgument
  | indexTarget
  | userCall (function : String)
  | rangeBounds
deriving DecidableEq, Repr

def Unsupported.message : Unsupported → String
  | .missingSource => "include/eval requires a `src` option"
  | .unknownOption name none => s!"unknown include/eval option `{name}`"
  | .unknownOption name (some meant) =>
    s!"unknown include/eval option `{name}` (did you mean `{meant}`?)"
  | .undecidedBreak => "`break` under a condition that cannot be decided at compile time"
  | .breakInTry => "`break` inside `try` cannot be unrolled"
  | .loopLeft => "loop survived unrolling"
  | .breakLeft => "`break` outside of an unrolled loop"
  | .returnLeft => "`return` outside of an inline function"
  | .requireLeft path => s!"require('{path}') was not resolved"
  | .rawOutputArgument => "printraw() only accepts literal values"
  | .indexTarget => "only a named variable can be indexed"
  | .userCall function =>
    s!"call to {function}() which is not an inline function; ESI has no user-defined functions"
  | .rangeBounds => "range bounds must be integer literals"

/-- Bounds on the size of what is written. -/
inductive Limit where
  | iterations (variable_ : String) (most : Nat)
  | rangeLength (first last : Int64) (most : Nat)
deriving DecidableEq, Repr

def Limit.message : Limit → String
  | .iterations name most => s!"unrolling `{name}` exceeds {most} loop iterations in total"
  | .rangeLength first last most =>
    let low := toString first.toInt
    let high := toString last.toInt
    s!"range [{low}..{high}] expands to more than {most} elements"

/-- An error of a compilation. -/
inductive Error where
  | lex (fault : LexFault) (span : Span)
  | unexpectedToken (expected : String) (got : TokenKind) (span : Span)
  | expectedExpr (got : TokenKind) (span : Span)
  | expectedIdent (got : TokenKind) (span : Span)
  | misplaced (what : Misplacement) (span : Span)
  | unresolvedImport (path : String) (span : Span)
  | importCycle (path : String) (span : Span)
  | inline (function : String) (fault : InlineFault) (span : Span)
  | unboundedLoop (variable_ : String) (span : Span)
  | unsupported (what : Unsupported) (span : Span)
  | limitExceeded (limit : Limit) (span : Span)
  | io (text : String)
deriving DecidableEq, Repr

/-- The kinds of errors that a report tells apart. -/
inductive ErrorKind where
  | lex | parse | unresolvedImport | importCycle | inline | unboundedLoop | unsupported
  | limitExceeded | io
deriving DecidableEq, Repr

/-- The stable code of a kind. -/
def ErrorKind.code : ErrorKind → String
  | .lex => "E0001"
  | .parse => "E0002"
  | .unresolvedImport => "E0003"
  | .importCycle => "E0004"
  | .inline => "E0005"
  | .unboundedLoop => "E0006"
  | .unsupported => "E0007"
  | .limitExceeded => "E0008"
  | .io => "E0009"

/-- The name of a kind in reports. -/
def ErrorKind.name : ErrorKind → String
  | .lex => "LexError"
  | .parse => "ParseError"
  | .unresolvedImport => "UnresolvedImportError"
  | .importCycle => "ImportCycle"
  | .inline => "InlineError"
  | .unboundedLoop => "UnboundedLoopError"
  | .unsupported => "UnsupportedConstruct"
  | .limitExceeded => "CompileLimitExceeded"
  | .io => "Io"

/-- The words for a kind in front of a message. -/
def ErrorKind.label : ErrorKind → String
  | .lex => "lex error"
  | .parse => "parse error"
  | .unresolvedImport => "unresolved import"
  | .importCycle => "import cycle"
  | .inline => "inline error"
  | .unboundedLoop => "unbounded loop"
  | .unsupported => "unsupported construct"
  | .limitExceeded => "compile limit exceeded"
  | .io => "io error"

namespace Error

def kind : Error → ErrorKind
  | .lex .. => .lex
  | .unexpectedToken .. | .expectedExpr .. | .expectedIdent .. | .misplaced .. => .parse
  | .unresolvedImport .. => .unresolvedImport
  | .importCycle .. => .importCycle
  | .inline .. => .inline
  | .unboundedLoop .. => .unboundedLoop
  | .unsupported .. => .unsupported
  | .limitExceeded .. => .limitExceeded
  | .io .. => .io

/-- The place of an error; failed file access has none. -/
def span? : Error → Option Span
  | .lex _ span | .unexpectedToken _ _ span | .expectedExpr _ span | .expectedIdent _ span
  | .misplaced _ span | .unresolvedImport _ span | .importCycle _ span | .inline _ _ span
  | .unboundedLoop _ span | .unsupported _ span | .limitExceeded _ span => some span
  | .io _ => none

/-- The wording of an error. -/
def message : Error → String
  | .lex fault _ => fault.message
  | .unexpectedToken expected got _ =>
    "unexpected token: expected " ++ expected ++ ", got " ++ got.describe
  | .expectedExpr got _ => "expected expression, got " ++ got.describe
  | .expectedIdent got _ => "expected identifier, got " ++ got.describe
  | .misplaced what _ => what.message
  | .unresolvedImport path _ => s!"could not resolve require('{path}')"
  | .importCycle path _ =>
    s!"forced require('{path}') re-enters a unit that is still being expanded"
  | .inline function fault _ => s!"cannot inline {function}(): " ++ fault.message
  | .unboundedLoop name _ =>
    s!"loop collection is not statically enumerable: `for ({name} of ...)` needs a range with " ++
      "literal bounds, an array of literals, or a variable assigned one"
  | .unsupported what _ => "unsupported construct: " ++ what.message
  | .limitExceeded limit _ => "compile limit exceeded: " ++ limit.message
  | .io text => "IO error: " ++ text

/-- The error in one line, with its place in front. -/
def render (sources : SourceMap) (e : Error) : String :=
  match e.span? with
  | some span => (sources.locate span).text ++ ": " ++ e.kind.label ++ ": " ++ e.message
  | none => e.kind.label ++ ": " ++ e.message

/-- Advice on how to change the script, chosen by the words of the message. -/
def help? : Error → Option String
  | .inline _ fault _ =>
    if Text.contains fault.message "recursive" then
      some "inline functions are expanded at compile time and cannot recurse"
    else if Text.contains fault.message "single" then
      some "reduce the body to one `return <expr>;` statement"
    else none
  | .unboundedLoop .. =>
    some "iterate over `[a..b]` with literal bounds or an array of literals"
  | .unsupported what _ =>
    if Text.contains what.message "not an inline function" then
      some "mark the function with a leading \"inline\"; statement"
    else if Text.contains what.message "break" then
      some "make the `break` condition depend only on the loop variable and literals"
    else none
  | .limitExceeded .. => some "raise `max_loop_iterations` or narrow the collection"
  | .unresolvedImport .. => some "add the directory containing the unit with `-L`"
  | _ => none

end Error

end EdgeScript
