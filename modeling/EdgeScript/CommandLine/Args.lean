import EdgeScript.Path

/-!
# Arguments of the command

The arguments are read from left to right.  If the first one names a command, the rest belongs to
it; otherwise all of them belong to a build.  An option that takes a value takes it after an equals
sign, directly behind its letter, or from the next argument, which must not look like an option
itself; letters of options without a value can stand together.  After `--` everything is an input.
Most options may be given once only.

`Invocation.ofArgs` gives what is asked for, or why nothing can be run: a request for help or for
the version ends the reading at its place, and so does the first misuse.
-/

set_option autoImplicit false

namespace EdgeScript.CommandLine

/-! ## What can be asked for -/

/-- How diagnostics are written. -/
inductive MessageFormat where
  | human | json
deriving DecidableEq, Repr

/-- The settings that every command takes. -/
structure Settings where
  libraryPaths : List Path := []
  config : Option Path := none
  optLevel : Option Nat := none
  maxLoopIterations : Option Nat := none
  noWarning : Bool := false
  messageFormat : Option MessageFormat := none
  verbosity : Nat := 0
deriving DecidableEq, Repr

/-- What is to be done. -/
inductive Command where
  | build (inputs : List Path) (output : Option Path)
  | check (inputs : List Path)
  | tokens (input : Path)
  | ast (input : Path)
  | version
deriving DecidableEq, Repr

/-- A command and its settings. -/
structure Invocation where
  command : Command
  settings : Settings
deriving DecidableEq, Repr

/-- Why arguments give no invocation. -/
inductive Stop where
  | help | version | misuse
deriving DecidableEq, Repr

/-! ## Options and verbs -/

/-- The options. -/
inductive Flag where
  | output | libraryPath | config | optLevel | maxLoopIterations | messageFormat
  | noWarning | verbose | help | version
deriving DecidableEq, Repr

namespace Flag

def all : List Flag :=
  [.output, .libraryPath, .config, .optLevel, .maxLoopIterations, .messageFormat, .noWarning,
    .verbose, .help, .version]

/-- The name of an option after two dashes. -/
def long : Flag → String
  | .output => "output"
  | .libraryPath => "library-path"
  | .config => "config"
  | .optLevel => "opt-level"
  | .maxLoopIterations => "max-loop-iterations"
  | .messageFormat => "message-format"
  | .noWarning => "no-warning"
  | .verbose => "verbose"
  | .help => "help"
  | .version => "version"

/-- The letter of an option after one dash. -/
def short? : Flag → Option Char
  | .output => some 'o'
  | .libraryPath => some 'L'
  | .optLevel => some 'O'
  | .noWarning => some 'w'
  | .verbose => some 'v'
  | .help => some 'h'
  | .version => some 'V'
  | .config | .maxLoopIterations | .messageFormat => none

/-- Whether an option has a value. -/
def takesValue : Flag → Bool
  | .output | .libraryPath | .config | .optLevel | .maxLoopIterations | .messageFormat => true
  | .noWarning | .verbose | .help | .version => false

end Flag

/-- The word that a command line starts with, if it starts with one. -/
inductive Verb where
  | direct | build | check | tokens | ast | version
deriving DecidableEq, Repr

namespace Verb

/-- The command of a word. -/
def ofName? (name : String) : Option Verb :=
  [("build", .build), ("check", .check), ("tokens", .tokens), ("ast", .ast),
    ("version", .version)].lookup name

/-- Whether an option can be given with a command. -/
def accepts (verb : Verb) (flag : Flag) : Bool :=
  match flag with
  | .output => verb == .direct || verb == .build
  | .version => verb == .direct
  | _ => true

/-- Whether one more input can follow a number of inputs. -/
def acceptsInput (verb : Verb) (count : Nat) : Bool :=
  match verb with
  | .direct | .build | .check => true
  | .tokens | .ast => count == 0
  | .version => false

/-- The option of a name that can be given with a command. -/
def long? (verb : Verb) (name : String) : Option Flag :=
  Flag.all.find? fun flag => verb.accepts flag && flag.long == name

/-- The option of a letter that can be given with a command. -/
def short? (verb : Verb) (letter : Char) : Option Flag :=
  Flag.all.find? fun flag => verb.accepts flag && flag.short? == some letter

end Verb

/-! ## Values -/

/-- A number in decimal digits. -/
def digits? (cs : List Char) : Option Nat :=
  if !cs.isEmpty && cs.all Char.isDigit then
    some (cs.foldl (fun n c => n * 10 + (c.toNat - '0'.toNat)) 0)
  else none

/-- A number that may have a plus in front. -/
def unsigned? : List Char → Option Nat
  | '+' :: cs => digits? cs
  | cs => digits? cs

/-- An optimization level: at most 255, possibly with a sign in front. -/
def level? (value : String) : Option Nat :=
  let read := match value.toList with
    | '-' :: cs => (digits? cs).filter (· == 0)
    | cs => unsigned? cs
  read.filter (· < 256)

/-- A bound on loop iterations. -/
def bound? (value : String) : Option Nat :=
  (unsigned? value.toList).filter (· < UInt64.size)

def MessageFormat.ofName? (value : String) : Option MessageFormat :=
  if value == "human" then some .human
  else if value == "json" then some .json
  else none

/-- A path that is not empty. -/
def path? (value : String) : Option Path :=
  if value.isEmpty then none else some ⟨value⟩

/-- Sets what was not set before. -/
def once {α : Type} (before now : Option α) : Except Stop (Option α) :=
  match before, now with
  | none, some value => .ok (some value)
  | _, _ => .error .misuse

/-! ## Reading arguments -/

/-- What has been read. -/
structure Gathered where
  settings : Settings := {}
  output : Option Path := none
  inputs : List Path := []
deriving DecidableEq, Repr

namespace Gathered

/-- Takes an option without a value. -/
def switch (g : Gathered) : Flag → Except Stop Gathered
  | .help => .error .help
  | .version => .error .version
  | .verbose => .ok { g with settings := { g.settings with verbosity := g.settings.verbosity + 1 } }
  | .noWarning =>
    if g.settings.noWarning then .error .misuse
    else .ok { g with settings := { g.settings with noWarning := true } }
  | _ => .error .misuse

/-- Takes an option with its value. -/
def option (g : Gathered) (flag : Flag) (value : String) : Except Stop Gathered :=
  let s := g.settings
  match flag with
  | .output => do return { g with output := ← once g.output (path? value) }
  | .config => do return { g with settings := { s with config := ← once s.config (path? value) } }
  | .optLevel => do
    return { g with settings := { s with optLevel := ← once s.optLevel (level? value) } }
  | .maxLoopIterations => do
    return { g with settings :=
      { s with maxLoopIterations := ← once s.maxLoopIterations (bound? value) } }
  | .messageFormat => do
    return { g with settings :=
      { s with messageFormat := ← once s.messageFormat (MessageFormat.ofName? value) } }
  | .libraryPath =>
    match path? value with
    | some path => .ok { g with settings := { s with libraryPaths := s.libraryPaths ++ [path] } }
    | none => .error .misuse
  | _ => .error .misuse

/-- Takes an input. -/
def input (g : Gathered) (verb : Verb) (value : String) : Except Stop Gathered :=
  match path? value with
  | some path =>
    if verb.acceptsInput g.inputs.length then .ok { g with inputs := g.inputs ++ [path] }
    else .error .misuse
  | none => .error .misuse

/-- Takes several inputs. -/
def allInputs (g : Gathered) (verb : Verb) (values : List String) : Except Stop Gathered :=
  values.foldlM (fun g value => g.input verb value) g

/-- What an argument leaves to be done: nothing, or to find the value of an option. -/
abbrev Pending := Option Flag

/-- Takes the letters of an argument that starts with one dash. -/
def letters (g : Gathered) (verb : Verb) : List Char → Except Stop (Gathered × Pending)
  | [] => .ok (g, none)
  | c :: cs =>
    match verb.short? c with
    | none => .error .misuse
    | some flag =>
      if flag.takesValue then
        match cs with
        | [] => .ok (g, some flag)
        | '=' :: value => do return (← g.option flag (String.ofList value), none)
        | value => do return (← g.option flag (String.ofList value), none)
      else do
        let g ← g.switch flag
        letters g verb cs

/-- Takes the name of an option, and its value if there is an equals sign. -/
def word (g : Gathered) (verb : Verb) (cs : List Char) : Except Stop (Gathered × Pending) :=
  let name := cs.takeWhile (· != '=')
  match verb.long? (String.ofList name), cs.drop name.length with
  | none, _ => .error .misuse
  | some flag, [] =>
    if flag.takesValue then .ok (g, some flag)
    else do return (← g.switch flag, none)
  | some flag, _ :: value =>
    if flag.takesValue then do return (← g.option flag (String.ofList value), none)
    else .error .misuse

/-- Takes one argument that is not a value. -/
def argument (g : Gathered) (verb : Verb) (arg : String) : Except Stop (Gathered × Pending) :=
  match arg.toList with
  | '-' :: '-' :: cs => g.word verb cs
  | ['-'] => do return (← g.input verb arg, none)
  | '-' :: cs => g.letters verb cs
  | _ => do return (← g.input verb arg, none)

/-- Whether an argument cannot be the value of an option in front of it. -/
def looksLikeFlag (arg : String) : Bool :=
  match arg.toList with
  | '-' :: _ :: _ => true
  | _ => false

/-- Takes all arguments. -/
def arguments (verb : Verb) : Gathered → Pending → List String → Except Stop Gathered
  | g, none, [] => .ok g
  | _, some _, [] => .error .misuse
  | g, some flag, arg :: rest => do
    if looksLikeFlag arg then .error .misuse
    else
      let g ← g.option flag arg
      arguments verb g none rest
  | g, none, arg :: rest => do
    if arg == "--" then g.allInputs verb rest
    else
      let (g, pending) ← g.argument verb arg
      arguments verb g pending rest

/-- The command that was asked for. -/
def command (g : Gathered) : Verb → Except Stop Command
  | .direct => .ok (.build g.inputs g.output)
  | .build => if g.inputs.isEmpty then .error .misuse else .ok (.build g.inputs g.output)
  | .check => if g.inputs.isEmpty then .error .misuse else .ok (.check g.inputs)
  | .tokens =>
    match g.inputs with
    | [input] => .ok (.tokens input)
    | _ => .error .misuse
  | .ast =>
    match g.inputs with
    | [input] => .ok (.ast input)
    | _ => .error .misuse
  | .version => .ok .version

end Gathered

namespace Invocation

/-- The invocation of a command with arguments. -/
def ofVerb (verb : Verb) (args : List String) : Except Stop Invocation := do
  let g ← Gathered.arguments verb {} none args
  let command ← g.command verb
  return ⟨command, g.settings⟩

/-- A request for help, about one command at most. -/
def help (args : List String) : Except Stop Invocation :=
  match args with
  | [] | ["help"] => .error .help
  | [name] => if (Verb.ofName? name).isSome then .error .help else .error .misuse
  | _ => .error .misuse

/-- The invocation that arguments stand for. -/
def ofArgs (args : List String) : Except Stop Invocation :=
  match args with
  | [] => ofVerb .direct []
  | first :: rest =>
    if first == "help" then help rest
    else
      match Verb.ofName? first with
      | some verb => ofVerb verb rest
      | none => ofVerb .direct args

end Invocation

end EdgeScript.CommandLine
