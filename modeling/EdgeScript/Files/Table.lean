import EdgeScript.Files
import EdgeScript.Import.Requests

/-!
# A table of files

A `FileTable` holds what has been found under single paths, which is enough for a compilation once
it holds every path that the compilation looks at: the inputs, and with each file the paths that its
requests may mean.  `FileTable.wanted` lists the latter.
-/

set_option autoImplicit false

namespace EdgeScript

/-- What has been found under paths. -/
abbrev FileTable := List (Path × Except FileFault FoundFile)

namespace FileTable

/-- What has been found under a path. -/
def get? (table : FileTable) (path : Path) : Option (Except FileFault FoundFile) :=
  (table.find? fun entry => entry.1 == path).map Prod.snd

/-- The file under a path; a path that was not looked at has none. -/
def find (table : FileTable) (path : Path) : Except FileFault FoundFile :=
  (table.get? path).getD (.error .notFound)

/-- The identity of what was found, if that is a file. -/
def identityOf? : Except FileFault FoundFile → Option Path
  | .ok file => some file.identity
  | .error _ => none

theorem find_mem {table : FileTable} {path : Path} {file : FoundFile}
    (h : table.find path = .ok file) :
    file.identity ∈ table.filterMap fun entry => identityOf? entry.2 := by
  unfold find get? at h
  cases hfind : table.find? fun entry => entry.1 == path with
  | none => simp [hfind] at h
  | some entry =>
    simp only [hfind, Option.map_some, Option.getD_some] at h
    exact List.mem_filterMap.2 ⟨entry, List.mem_of_find?_eq_some hfind, by rw [h, identityOf?]⟩

/-- What a compilation sees of the table. -/
def files (table : FileTable) : Files where
  find := table.find
  identities := table.filterMap fun entry => identityOf? entry.2
  find_mem := find_mem

/-- The paths that the compilation of a file looks at: its identity, and what its requests may
mean. -/
def wanted (libraryPaths : List Path) (file : FoundFile) : List Path :=
  let requests := match file.text with
    | .ok text => Program.requestsOf text
    | .error _ => []
  file.identity :: requests.flatMap fun request =>
    (Files.searchPath libraryPaths (some file.identity)).map fun dir => dir.join ⟨request⟩

end FileTable

end EdgeScript
