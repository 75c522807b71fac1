import EdgeScript.CommandLine.Args
import EdgeScript.Compiler.Batch
import EdgeScript.Outline.Program
import EdgeScript.Report

/-!
# What a command does

A command reads files and is then settled: its `Plan` says what is printed and written in which
order, and how it ends.  Only writing can still fail, and then the command ends there.  A command
ends with 0 if all went well, with 1 if a script is faulty, and with 2 if the command could not do
its work.
-/

set_option autoImplicit false

namespace EdgeScript.CommandLine

/-- One thing that a command does. -/
inductive Action where
  /-- Prints to the standard output. -/
  | print (text : String)
  /-- Prints to the standard error output. -/
  | tell (text : String)
  | write (path : Path) (text : String)
deriving DecidableEq, Repr

/-- All that a command does. -/
structure Plan where
  actions : List Action
  code : Nat
  /-- What the compilations note on their progress. -/
  notes : List Note := []
deriving Repr

namespace Plan

/-- The text of a failure that has several causes, the outermost first. -/
def failureText (causes : List String) : String :=
  "error: " ++ Text.joinWith ": " causes ++ "\n"

/-- The end of a command that cannot do its work. -/
def failure (causes : List String) : Plan :=
  ⟨[.tell (failureText causes)], 2, []⟩

/-- The text of a failure to write a file. -/
def writeFailure (path : Path) (fault : FileFault) : String :=
  failureText ["writing " ++ path.text, fault.message]

/-! ## Commands -/

/-- What is told about a unit. -/
def diagnostics (format : MessageFormat) (unit : CompiledUnit) : List Action :=
  match format with
  | .json => [.tell (unit.report.compact ++ "\n")]
  | .human => (unit.renderError?.map fun message => Action.tell (message ++ "\n")).toList

/-- The end of a command over units, and its notes. -/
def ofUnits (units : List CompiledUnit) (actions : List Action) : Plan where
  actions := actions
  code := if units.all CompiledUnit.isOk then 0 else 1
  notes := .compilingUnits units.length :: units.flatMap fun unit => unit.notes.toList

/-- What is done with the markup of an input: a single one is printed or goes where it is told to,
and each of several goes to a file beside it. -/
def emit (single : Bool) (output : Option Path) (input : Path) (markup : String) : Action :=
  match single, output with
  | true, none => .print markup
  | true, some path => .write path markup
  | false, _ => .write (input.withExtension "esi") markup

/-- Compiles inputs to markup. -/
def build (options : Options) (format : MessageFormat) (files : Files) (inputs : List Path)
    (output : Option Path) : Plan :=
  if 1 < inputs.length && output.isSome then
    failure ["--output cannot be used with more than one input"]
  else
    let single := inputs.length == 1
    let units := CompiledUnit.ofFiles options files inputs
    ofUnits units <| (units.zip inputs).flatMap fun (unit, input) =>
      diagnostics format unit ++
        match unit.result with
        | .ok markup => [emit single output input markup]
        | .error _ => []

/-- Compiles inputs and tells only how it went. -/
def check (options : Options) (format : MessageFormat) (files : Files) (inputs : List Path) :
    Plan :=
  let units := CompiledUnit.ofFiles options files inputs
  ofUnits units <| units.flatMap fun unit =>
    diagnostics format unit ++
      if unit.isOk && format == .human then [.tell (unit.name ++ ": ok\n")] else []

/-- The end of a command over one text. -/
def ofText (sources : SourceMap) (result : Except Error String) : Plan :=
  match result with
  | .ok text => ⟨[.print text], 0, []⟩
  | .error e => ⟨[.tell (e.render sources ++ "\n")], 1, []⟩

/-- Does something with the text of a file and its identity. -/
def withText (files : Files) (input : Path) (act : Path → String → Plan) : Plan :=
  match files.find input with
  | .error fault => failure ["reading " ++ input.text, fault.message]
  | .ok ⟨_, .error fault⟩ => failure ["reading " ++ input.text, fault.message]
  | .ok ⟨identity, .ok text⟩ => act identity text

/-- Shows the tokens of a file, one a line. -/
def tokens (files : Files) (input : Path) : Plan :=
  withText files input fun _ text =>
    let (sources, file) := SourceMap.empty.add input.text (some input) text
    let line := fun (t : Token) => (sources.locate t.span).text ++ "\t" ++ t.kind.describe ++ "\n"
    ofText sources ((tokenize text file).map fun ts => String.join (ts.map line))

/-- Shows the lowered script of a file. -/
def ast (options : Options) (files : Files) (input : Path) : Plan :=
  withText files input fun identity text =>
    let (sources, file) := SourceMap.empty.add input.text (some identity) text
    let lowered :=
      Compilation.lower options (files.loader options.libraryPaths) file (some identity)
    let (result, c) := lowered.run.run { sources }
    { ofText c.sources (result.map fun stmts => (Program.mk stmts).outline.text ++ "\n") with
      notes := c.notes.toList }

/-- The name of the command and its version. -/
def versionText : String := "js2esi 0.1.0\n"

/-- Shows the version and what the command is for. -/
def version : Plan :=
  ⟨[.print (versionText ++ "JavaScript-like scripts to Edge Side Includes\n")], 0, []⟩

/-! ## Options -/

/-- The options to start from: those of a file, or the usual ones. -/
def baseOptions (files : Files) (config : Option Path) : Except (List String) Options :=
  match config with
  | none => .ok .commandLine
  | some path =>
    let read := match files.read path with
      | .ok text => Options.parse text
      | .error fault => .error (.io fault.message)
    match read with
    | .ok options => .ok options
    | .error e => .error ["loading options from " ++ path.text, e.message]

/-- The options with the settings of an invocation on top; `library` lists more directories. -/
def applySettings (options : Options) (settings : Settings) (library : Option String) : Options :=
  let options := settings.libraryPaths.foldl Options.addLibraryPath options
  let options := (library.map options.extendLibraryPaths).getD options
  { options with
    optLevel := settings.optLevel.getD options.optLevel
    maxLoopIterations := settings.maxLoopIterations.getD options.maxLoopIterations
    warningBanner := options.warningBanner && !settings.noWarning }

/-- The options of an invocation. -/
def optionsOf (settings : Settings) (library : Option String) (files : Files) :
    Except (List String) Options := do
  let options ← baseOptions files settings.config
  return applySettings options settings library

/-! ## Invocations -/

/-- What a command does with its options. -/
def ofCommand (options : Options) (format : MessageFormat) (files : Files) : Command → Plan
  | .build [] _ =>
    failure ["no input file specified (usage: js2esi <FILE>... or js2esi build <FILE>...)"]
  | .build inputs output => build options format files inputs output
  | .check inputs => check options format files inputs
  | .tokens input => tokens files input
  | .ast input => ast options files input
  | .version => version

/-- What an invocation does. -/
def ofInvocation (invocation : Invocation) (library : Option String) (files : Files) : Plan :=
  match optionsOf invocation.settings library files with
  | .error causes => failure causes
  | .ok options =>
    ofCommand options (invocation.settings.messageFormat.getD .human) files invocation.command

/-- How the command is used. -/
def usage : String :=
  "Usage: js2esi [OPTIONS] [FILE]...\n" ++
    "       js2esi build|check [OPTIONS] <FILE>...\n" ++
    "       js2esi tokens|ast [OPTIONS] <FILE>\n" ++
    "       js2esi version\n\n" ++
    "Options:\n" ++
    "  -o, --output <FILE>            where the markup of a single input goes\n" ++
    "  -L, --library-path <DIR>       a directory to look for required units in\n" ++
    "      --config <FILE>            a JSON file of options\n" ++
    "  -O, --opt-level <LEVEL>        folding from 3, inlining from 5\n" ++
    "      --max-loop-iterations <N>  bound on copies of loop bodies in a unit\n" ++
    "  -w, --no-warning               leave out the comment on generated markup\n" ++
    "      --message-format <FORMAT>  human or json\n" ++
    "  -v, --verbose                  tell more, also -vv\n" ++
    "  -h, --help\n" ++
    "  -V, --version\n"

/-- What is done when there is nothing to run. -/
def ofStop : Stop → Plan
  | .help => ⟨[.print usage], 0, []⟩
  | .version => ⟨[.print versionText], 0, []⟩
  | .misuse => ⟨[.tell usage], 2, []⟩

end Plan

end EdgeScript.CommandLine
