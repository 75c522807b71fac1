import EdgeScript.Import.Loader

/-!
# Files

`Files` is what a compilation may know of a file system: which file a path leads to, and what it
holds.  The same file may be reached by many paths and has one identity, the path by which it is
known.

`Files.loader` finds units among files: in the library directories, and then beside the unit that
asks.
-/

set_option autoImplicit false

namespace EdgeScript

/-- Why a file cannot be reached, read or written. -/
inductive FileFault where
  | notFound
  | notDirectory
  | isDirectory
  /-- A name or a whole path is longer than any file system takes. -/
  | nameTooLong
  /-- A path holds the character that ends a path. -/
  | nulInName
  | notText
  | other (reason : String)
deriving DecidableEq, Repr

def FileFault.message : FileFault → String
  | .notFound => "No such file or directory (os error 2)"
  | .notDirectory => "Not a directory (os error 20)"
  | .isDirectory => "Is a directory (os error 21)"
  | .nameTooLong => "File name too long (os error 36)"
  | .nulInName => "file name contained an unexpected NUL byte"
  | .notText => "stream did not contain valid UTF-8"
  | .other reason => reason

/-- The most bytes that a name in a directory has. -/
def Path.nameLimit : Nat := 255

/-- The most bytes that a path has. -/
def Path.textLimit : Nat := 4095

/-- Why a path leads nowhere, whatever files there are. -/
def Path.fault? (path : Path) : Option FileFault :=
  if path.text.toList.contains '\x00' then some .nulInName
  else if path.text.isEmpty then some .notFound
  else if textLimit < path.text.utf8ByteSize then some .nameTooLong
  else none

/-- A file that a path leads to. -/
structure FoundFile where
  /-- The path by which the file is known. -/
  identity : Path
  text : Except FileFault String
deriving Repr

/-- The file of a content, which is text if it is well-formed UTF-8. -/
def FoundFile.ofContent (identity : Path) (content : ByteArray) : FoundFile where
  identity := identity
  text :=
    match String.fromUTF8? content with
    | some text => .ok text
    | none => .error .notText

/-- The files that a compilation can reach. -/
structure Files where
  /-- The file that a path leads to. -/
  find : Path → Except FileFault FoundFile
  /-- The identities of all files, which are finitely many. -/
  identities : List Path
  find_mem : ∀ {path file}, find path = .ok file → file.identity ∈ identities

namespace Files

/-- The identity of the file that a path leads to. -/
def identity? (files : Files) (path : Path) : Option Path :=
  match files.find path with
  | .ok file => some file.identity
  | .error _ => none

/-- The text of the file that a path leads to. -/
def read (files : Files) (path : Path) : Except FileFault String := do
  let file ← files.find path
  file.text

/-! ## Units among files -/

/-- The directories where a unit is looked for: those of the library, and that of the unit that asks
for it. -/
def searchPath (libraryPaths : List Path) (origin : Option Path) : List Path :=
  libraryPaths ++ [(origin.bind Path.parent?).getD ⟨"."⟩]

/-- The identity of the first file that a request may mean. -/
def resolve (files : Files) (libraryPaths : List Path) (origin : Option Path) (request : String) :
    Option Path :=
  (searchPath libraryPaths origin).findSome? fun dir => files.identity? (dir.join ⟨request⟩)

theorem identity?_mem {files : Files} {path identity : Path}
    (h : files.identity? path = some identity) : identity ∈ files.identities := by
  rw [identity?] at h
  split at h
  · next file hfile =>
    obtain rfl := Option.some.inj h
    exact files.find_mem hfile
  · simp at h

/-- A unit that is found is one of the files. -/
theorem resolve_mem {files : Files} {libraryPaths : List Path} {origin : Option Path}
    {request : String} {path : Path} (h : files.resolve libraryPaths origin request = some path) :
    ∃ p ∈ files.identities, p.same path = true := by
  obtain ⟨dir, -, hdir⟩ := List.exists_of_findSome?_eq_some h
  exact ⟨path, identity?_mem hdir, by simp [Path.same]⟩

/-- The loader of units among files. -/
def loader (files : Files) (libraryPaths : List Path) : Loader where
  resolve := files.resolve libraryPaths
  read path := (files.read path).mapError FileFault.message
  identities := files.identities
  resolve_mem := resolve_mem

end Files

end EdgeScript
