import EdgeScript.CommandLine.Plan
import EdgeScript.Files.Table

/-!
# The command

Looks at the files that an invocation concerns, settles what is to be done, and does it.
-/

set_option autoImplicit false

namespace EdgeScript.Main

open EdgeScript.CommandLine

/-- Why an operation on a file failed. -/
def faultOf : IO.Error → FileFault
  | .noFileOrDirectory .. => .notFound
  | .inappropriateType _ 20 _ => .notDirectory
  | .inappropriateType _ 21 _ => .isDirectory
  | .invalidArgument _ 36 _ => .nameTooLong
  | e => .other (toString e)

/-- The file that a path leads to. -/
def look (path : Path) : IO (Except FileFault FoundFile) := do
  if let some fault := path.fault? then return .error fault
  try
    let handle ← IO.FS.Handle.mk path.text .read
    let content ← handle.readBinToEnd
    let real ← IO.FS.realPath path.text
    return .ok (.ofContent ⟨real.toString⟩ content)
  catch e => return .error (faultOf e)

/-- Looks at paths, and at all that the files found there may require. -/
partial def gather (libraryPaths : List Path) (table : FileTable) : List Path → IO FileTable
  | [] => return table
  | path :: rest => do
    if (table.get? path).isSome then gather libraryPaths table rest
    else
      let found ← look path
      let wanted := match found with
        | .ok file => FileTable.wanted libraryPaths file
        | .error _ => []
      gather libraryPaths ((path, found) :: table) (rest ++ wanted)

/-- The inputs of a command. -/
def inputs : Command → List Path
  | .build inputs _ => inputs
  | .check inputs => inputs
  | .tokens input => [input]
  | .ast input => [input]
  | .version => []

/-- The files that an invocation concerns. -/
def filesFor (invocation : Invocation) (library : Option String) : IO Files := do
  let config ← gather [] [] invocation.settings.config.toList
  match Plan.optionsOf invocation.settings library config.files with
  | .error _ => return config.files
  | .ok options => return (← gather options.libraryPaths config (inputs invocation.command)).files

/-- Does actions one after the other; what the command ends with is `code` unless a file cannot be
written. -/
def perform (code : Nat) : List Action → IO Nat
  | [] => return code
  | .print text :: rest => do
    IO.print text
    perform code rest
  | .tell text :: rest => do
    IO.eprint text
    perform code rest
  | .write path text :: rest => do
    let fault? ← try
        IO.FS.writeFile path.text text
        pure none
      catch e => pure (some (faultOf e))
    match fault? with
    | none => perform code rest
    | some fault =>
      IO.eprint (Plan.writeFailure path fault)
      return 2

/-- Whether a note is told at a verbosity. -/
def isTold (verbosity : Nat) (note : Note) : Bool :=
  match note.level with
  | .warn => true
  | .info => 1 ≤ verbosity
  | .debug => 2 ≤ verbosity

/-- Runs the command with arguments. -/
def run (args : List String) : IO Nat := do
  match Invocation.ofArgs args with
  | .error stop =>
    let plan := Plan.ofStop stop
    perform plan.code plan.actions
  | .ok invocation =>
    let library ← IO.getEnv "JSLIB"
    let files ← filesFor invocation library
    let plan := Plan.ofInvocation invocation library files
    for note in plan.notes do
      if isTold invocation.settings.verbosity note then
        IO.eprintln (note.level.text ++ " " ++ note.text)
    perform plan.code plan.actions

end EdgeScript.Main

/-- The command. -/
def main (args : List String) : IO UInt32 := do
  return UInt32.ofNat (← EdgeScript.Main.run args)
