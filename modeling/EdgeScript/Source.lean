import EdgeScript.Path
import EdgeScript.Text.Lines

/-!
# Source texts and positions

A position in a script is a `Span`: UTF-8 byte offsets and the number of the source unit.  A
`SourceMap` holds the units of one compilation in the order of their loading and turns a span into a
`Location`, a line and a column that people count from one.
-/

set_option autoImplicit false

namespace EdgeScript

/-- A stretch of one source unit, by byte offsets; `stop` is the first offset past it. -/
structure Span where
  start : Nat
  stop : Nat
  file : Nat
deriving DecidableEq, Repr, Inhabited

namespace Span

/-- The span of nothing in particular. -/
def none : Span := ⟨0, 0, 0⟩

/-- The least span of the first one's unit that covers both. -/
def merge (s t : Span) : Span :=
  ⟨min s.start t.start, max s.stop t.stop, s.file⟩

/-- The short text of a span. -/
def text (s : Span) : String :=
  s!"{s.start}-{s.stop}@{s.file}"

end Span

/-- The number of bytes of a text in UTF-8. -/
def utf8Length : List Char → Nat
  | [] => 0
  | c :: cs => c.utf8Size + utf8Length cs

/-- A place as shown to people: line and column count from one. -/
structure Location where
  file : String
  line : Nat
  column : Nat
deriving DecidableEq, Repr

/-- The usual form of a location. -/
def Location.text (l : Location) : String :=
  s!"{l.file}:{l.line}:{l.column}"

/-- A source unit. -/
structure SourceFile where
  name : String
  path : Option Path
  text : String
deriving DecidableEq, Repr

/-- The source units of one compilation; a unit's number is its place in the list. -/
structure SourceMap where
  files : Array SourceFile := #[]
deriving DecidableEq, Repr, Inhabited

namespace SourceMap

/-- No units. -/
def empty : SourceMap := {}

/-- Adds a unit; the second part is its number. -/
def add (m : SourceMap) (name : String) (path : Option Path) (text : String) : SourceMap × Nat :=
  (⟨m.files.push ⟨name, path, text⟩⟩, m.files.size)

def size (m : SourceMap) : Nat := m.files.size

/-- The name of a unit, `<unknown>` if there is no such unit. -/
def name (m : SourceMap) (file : Nat) : String :=
  (m.files[file]?.map SourceFile.name).getD "<unknown>"

/-- The text of a unit, empty if there is no such unit. -/
def text (m : SourceMap) (file : Nat) : String :=
  (m.files[file]?.map SourceFile.text).getD ""

/-- Where a unit was found, if it has a path. -/
def path? (m : SourceMap) (file : Nat) : Option Path :=
  m.files[file]?.bind SourceFile.path

/-- The names of all units in the order of their loading. -/
def names (m : SourceMap) : List String :=
  m.files.toList.map SourceFile.name

/-- The place where a span starts.  A start behind the end of the text is taken to be the end. -/
def locate (m : SourceMap) (span : Span) : Location :=
  match m.files[span.file]? with
  | Option.none => ⟨"<unknown>", 0, 0⟩
  | some file =>
    let offset := min span.start file.text.utf8ByteSize
    let (line, column) := (Text.lineColumn? file.text offset).getD (0, 0)
    ⟨file.name, line, column⟩

end SourceMap

end EdgeScript
