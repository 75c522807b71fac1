import EdgeScript.Files

/-!
# A tree of files

A `FileTree` is a file system in memory: files and directories below a root, and the working
directory from which relative paths lead.  A path is followed name by name, so a name that is
missing on the way counts even if a `..` follows it, and only a directory can be passed through.  A
name that is too long for a directory is told from one that is missing when it is looked for, a path
that is too long before anything is looked for.

`FileTree.files` is what a compilation sees of it, and `FileTree.write` puts a file into it.
-/

set_option autoImplicit false

namespace EdgeScript

/-- What stands at a place of a tree. -/
inductive FileEntry where
  | file (content : ByteArray)
  | directory

/-- Files and directories, each at the names that lead to it from the root; the root is not
listed. -/
structure FileTree where
  entries : List (List String × FileEntry) := []
  /-- The place where relative paths start. -/
  workingDirectory : List String := []

namespace FileTree

/-- What stands at a place. -/
def entry? (t : FileTree) (place : List String) : Option FileEntry :=
  match place with
  | [] => some .directory
  | place => (t.entries.find? fun entry => entry.1 == place).map Prod.snd

/-! ## Following paths -/

/-- One step from a place, which has to be a directory, by a piece of a path. -/
def step (t : FileTree) (place : List String) (piece : List Char) :
    Except FileFault (List String) :=
  match t.entry? place with
  | none => .error .notFound
  | some (.file _) => .error .notDirectory
  | some .directory =>
    if piece = [] || piece = ['.'] then .ok place
    else if piece = ['.', '.'] then .ok place.dropLast
    else
      let name := String.ofList piece
      if Path.nameLimit < name.utf8ByteSize then .error .nameTooLong
      else if (t.entry? (place ++ [name])).isSome then .ok (place ++ [name])
      else .error .notFound

/-- Where the pieces of a path lead from a place. -/
def follow (t : FileTree) (place : List String) (pieces : List (List Char)) :
    Except FileFault (List String) :=
  pieces.foldlM t.step place

/-- Where a path starts, and its pieces. -/
def start (t : FileTree) (path : Path) : List String × List (List Char) :=
  match Text.splitOn '/' path.text.toList with
  | [] :: rest => ([], rest)
  | pieces => (t.workingDirectory, pieces)

/-- The place that a path leads to. -/
def place (t : FileTree) (path : Path) : Except FileFault (List String) :=
  match path.fault? with
  | some fault => .error fault
  | none =>
    let (place, pieces) := t.start path
    t.follow place pieces

/-- The absolute path of a place. -/
def pathOf (place : List String) : Path :=
  ⟨"/" ++ Text.joinWith "/" place⟩

/-! ## Reading -/

/-- The file at a place. -/
def fileAt (t : FileTree) (place : List String) : Except FileFault FoundFile :=
  match t.entry? place with
  | some (.file content) => .ok (.ofContent (pathOf place) content)
  | some .directory => .error .isDirectory
  | none => .error .notFound

/-- The file that a path leads to. -/
def find (t : FileTree) (path : Path) : Except FileFault FoundFile := do
  let place ← t.place path
  t.fileAt place

/-- The paths of all entries. -/
def identities (t : FileTree) : List Path :=
  t.entries.map fun entry => pathOf entry.1

theorem fileAt_mem {t : FileTree} {place : List String} {file : FoundFile}
    (h : t.fileAt place = .ok file) : file.identity ∈ t.identities := by
  rw [fileAt] at h
  split at h
  · next content hentry =>
    obtain rfl := Except.ok.inj h
    unfold entry? at hentry
    split at hentry
    · simp at hentry
    · obtain ⟨entry, hfind, -⟩ := Option.map_eq_some_iff.1 hentry
      have hplace : entry.1 = place := by simpa using List.find?_some hfind
      exact List.mem_map.2 ⟨entry,
        List.mem_of_find?_eq_some hfind, by rw [hplace, FoundFile.ofContent]⟩
  · simp at h
  · simp at h

/-- A file that a path leads to is one of the tree. -/
theorem find_mem {t : FileTree} {path : Path} {file : FoundFile} (h : t.find path = .ok file) :
    file.identity ∈ t.identities := by
  rw [find] at h
  cases hplace : t.place path with
  | error fault => simp [hplace, bind, Except.bind] at h
  | ok place => exact fileAt_mem (by simpa [hplace, bind, Except.bind] using h)

/-- What a compilation sees of the tree. -/
def files (t : FileTree) : Files where
  find := t.find
  identities := t.identities
  find_mem := find_mem

/-! ## Writing -/

/-- Puts an entry at a place, in the stead of what stands there. -/
def put (t : FileTree) (place : List String) (entry : FileEntry) : FileTree :=
  { t with entries := t.entries.filter (fun e => e.1 != place) ++ [(place, entry)] }

/-- Puts a directory at a place unless there is one. -/
def addDirectory (t : FileTree) (place : List String) : FileTree :=
  match t.entry? place with
  | some .directory => t
  | _ => t.put place .directory

/-- Puts a file at a place, and the directories that lead to it. -/
def addFile (t : FileTree) (place : List String) (content : ByteArray) : FileTree :=
  let parents := (List.range place.length).map place.take
  (parents.foldl addDirectory t).put place (.file content)

/-- Writes a file under a name in a directory; without a name it is the directory itself that is
meant. -/
def writeIn (t : FileTree) (dir : List String) (name : List Char) (text : String) :
    Except FileFault FileTree :=
  match t.entry? dir with
  | none => .error .notFound
  | some (.file _) => .error .notDirectory
  | some .directory =>
    if name = [] || name = ['.'] || name = ['.', '.'] then .error .isDirectory
    else if Path.nameLimit < (String.ofList name).utf8ByteSize then .error .nameTooLong
    else
      let place := dir ++ [String.ofList name]
      match t.entry? place with
      | some .directory => .error .isDirectory
      | _ => .ok (t.put place (.file text.toUTF8))

/-- Writes a file; its directory has to be there.  A path that ends in a slash means a directory. -/
def write (t : FileTree) (path : Path) (text : String) : Except FileFault FileTree :=
  match path.fault? with
  | some fault => .error fault
  | none => do
    let (place, pieces) := t.start path
    let named := (pieces.reverse.dropWhile List.isEmpty).reverse
    let dir ← t.follow place named.dropLast
    let name := if named.length < pieces.length then [] else named.getLast?.getD []
    t.writeIn dir name text

end FileTree

end EdgeScript
