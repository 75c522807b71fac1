import EdgeScript.Compiler
import EdgeScript.Files

/-!
# Compiling files

Units that are files find their imports among the files; each is compiled on its own, and one that
fails does not stop the others.
-/

set_option autoImplicit false

namespace EdgeScript

namespace CompiledUnit

/-- The outcome for a unit that cannot be read. -/
def unreadable (name : String) (fault : FileFault) : CompiledUnit :=
  ⟨name, SourceMap.empty, .error (.io fault.message), {}, #[]⟩

/-- Compiles the file that a path leads to. -/
def ofFile (options : Options) (files : Files) (path : Path) : CompiledUnit :=
  match files.find path with
  | .error fault => unreadable path.text fault
  | .ok ⟨_, .error fault⟩ => unreadable path.text fault
  | .ok ⟨identity, .ok text⟩ =>
    let (sources, file) := SourceMap.empty.add path.text (some identity) text
    compile options (files.loader options.libraryPaths) path.text sources file (some identity)

/-- Compiles the files that paths lead to. -/
def ofFiles (options : Options) (files : Files) (paths : List Path) : List CompiledUnit :=
  paths.map (ofFile options files)

end CompiledUnit

end EdgeScript
