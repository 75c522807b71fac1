import EdgeScript.Text.Split

/-!
# Paths

A path keeps the text it was written with and is compared by its components, so that a repeated
or a trailing slash and an inner `.` do not count, while a leading `.` and every `..` do.  Nothing
here looks at a directory: `Path.normalize` resolves `.` and `..` by their names alone.
-/

set_option autoImplicit false

namespace EdgeScript

/-- A path, as it was written. -/
structure Path where
  text : String
deriving DecidableEq, Repr, Inhabited

namespace Path

/-- One step of a path. -/
inductive Component where
  /-- The root directory, in front only. -/
  | root
  /-- A leading `.`. -/
  | here
  /-- A `..`. -/
  | up
  | name (text : String)
deriving DecidableEq, Repr

/-- The text of a component. -/
def Component.text : Component → String
  | .root => "/"
  | .here => "."
  | .up => ".."
  | .name text => text

/-- The component that a piece between slashes stands for. -/
def Component.ofPiece? (piece : List Char) : Option Component :=
  if piece = [] || piece = ['.'] then none
  else if piece = ['.', '.'] then some .up
  else some (.name (String.ofList piece))

/-- The components of a path. -/
def components (p : Path) : List Component :=
  match Text.splitOn '/' p.text.toList with
  | [] => []
  | [] :: [] => []
  | [] :: rest => .root :: rest.filterMap Component.ofPiece?
  | ['.'] :: rest => .here :: rest.filterMap Component.ofPiece?
  | first :: rest => (first :: rest).filterMap Component.ofPiece?

/-- Whether two paths have the same components. -/
def same (p q : Path) : Bool :=
  p.components == q.components

/-- Whether a path starts at the root. -/
def isAbsolute (p : Path) : Bool :=
  p.text.toList.head? == some '/'

/-- The path that is written with the given components. -/
def ofComponents : List Component → Path
  | .root :: rest => ⟨"/" ++ Text.joinWith "/" (rest.map Component.text)⟩
  | parts => ⟨Text.joinWith "/" (parts.map Component.text)⟩

/-- `request` as seen from the directory `dir`; an absolute path replaces the directory. -/
def join (dir : Path) (request : Path) : Path :=
  if request.isAbsolute || dir.text.isEmpty then request
  else if dir.text.toList.getLast? == some '/' then ⟨dir.text ++ request.text⟩
  else ⟨dir.text ++ "/" ++ request.text⟩

/-- The path without its last component; the root and the empty path have none. -/
def parent? (p : Path) : Option Path :=
  match p.components.getLast? with
  | none | some .root => none
  | some _ => some (ofComponents p.components.dropLast)

/-- One step of `normalize`, on the components read so far: a `..` takes the last name back. -/
def normalizeStep (read : List Component) : Component → List Component
  | .here => read
  | .up => if read = [.root] then read else read.dropLast
  | part => read ++ [part]

/-- The path with `.` and `..` resolved by name; a `..` at the start has nothing to take back. -/
def normalize (p : Path) : Path :=
  ofComponents (p.components.foldl normalizeStep [])

/-- The characters of a path up to the end of its last component. -/
def trimmed (cs : List Char) : List Char :=
  (go cs.reverse).reverse
where
  /-- Drops slashes and inner `.` steps from the front of the reversed text. -/
  go : List Char → List Char
    | '/' :: rest => go rest
    | '.' :: '/' :: rest => go rest
    | rest => rest

/-- A file name up to its last point; a point in front does not count. -/
def stem (name : List Char) : List Char :=
  match (name.reverse.dropWhile (· != '.')).drop 1 with
  | [] => name
  | front => front.reverse

/-- The text of a path up to its file name, and the file name, if the path leads to one. -/
def fileName? (p : Path) : Option (List Char × List Char) :=
  match p.components.getLast? with
  | some (.name file) =>
    let text := trimmed p.text.toList
    some (text.take (text.length - file.length), file.toList)
  | _ => none

/-- The path up to the point before its file extension; what is left of a file name such as `..a` is
a step up and no file name.  Only an extension at the very end of the text is left out. -/
def upToExtension (p : Path) : Path :=
  match p.fileName? with
  | some (front, file) =>
    if stem file = file || front ++ file != p.text.toList then p
    else ⟨String.ofList (front ++ stem file ++ ['.'])⟩
  | none => p

/-- The path with another file extension.  The old one goes first, and a path that does not lead to
a file name then is kept so. -/
def withExtension (p : Path) (extension : String) : Path :=
  let bare := p.upToExtension
  match bare.fileName? with
  | some (front, file) => ⟨String.ofList (front ++ stem file) ++ "." ++ extension⟩
  | none => bare

end Path

end EdgeScript
