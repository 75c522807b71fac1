import EdgeScript.Path

/-!
# Finding and reading units

A `Loader` gives the identity of a unit that is asked for by name, and the text of a unit by its
identity.  It can only give identities from a finite list, which is what makes the expansion of
imports end.  This is a condition on the loader: with one that finds a new unit at every request,
the expansion of a single `require` would go on without end.  Whatever is said of every loader is
said of those that meet it.

`UnitTable` is the loader of units kept in memory under normalized paths.
-/

set_option autoImplicit false

namespace EdgeScript

/-- A way to find and read units. -/
structure Loader where
  /-- The identity of the unit that is asked for in the unit of the first path. -/
  resolve : Option Path → String → Option Path
  /-- The text of a unit, or why it cannot be read. -/
  read : Path → Except String String
  /-- All identities that can be given.  That they are finitely many is demanded here, not found
  out. -/
  identities : List Path
  /-- No identity is given but those, up to spelling. -/
  resolve_mem : ∀ {origin request path}, resolve origin request = some path →
    ∃ p ∈ identities, p.same path = true

/-- Units in memory, by normalized path. -/
abbrev UnitTable := List (Path × String)

namespace UnitTable

/-- The text of the unit at a path. -/
def get? (units : UnitTable) (path : Path) : Option String :=
  (units.find? fun entry => entry.1.same path).map Prod.snd

/-- Adds a unit, or replaces the one at its path. -/
def insert (units : UnitTable) (path : Path) (text : String) : UnitTable :=
  let path := path.normalize
  match units.find? fun entry => entry.1.same path with
  | some _ => units.map fun entry => if entry.1.same path then (entry.1, text) else entry
  | none => units ++ [(path, text)]

/-- The units of a list of paths and texts. -/
def ofList (entries : List (Path × String)) : UnitTable :=
  entries.foldl (fun units entry => insert units entry.1 entry.2) []

/-- The paths that a request may mean: beside the unit it stands in, or from the top. -/
def candidates (origin : Option Path) (request : String) : List Path :=
  let beside := (origin.bind Path.parent?).map fun dir => (dir.join ⟨request⟩).normalize
  beside.toList ++ [(Path.mk request).normalize]

/-- The path of the unit that a request means. -/
def resolve (units : UnitTable) (origin : Option Path) (request : String) : Option Path :=
  (candidates origin request).find? fun path => (units.get? path).isSome

/-- The text of the unit at a path; the failure is told by the path. -/
def read (units : UnitTable) (path : Path) : Except String String :=
  match units.get? path with
  | some text => .ok text
  | none => .error path.text

/-- A unit that is found is one of the table. -/
theorem resolve_mem {units : UnitTable} {origin : Option Path} {request : String} {path : Path}
    (h : units.resolve origin request = some path) :
    ∃ p ∈ units.map Prod.fst, p.same path = true := by
  have hsome := List.find?_some h
  rw [get?, Option.isSome_map] at hsome
  obtain ⟨entry, hentry⟩ := Option.isSome_iff_exists.1 hsome
  have hsame : entry.1.same path = true := by simpa using List.find?_some hentry
  exact ⟨entry.1, List.mem_map.2 ⟨entry, List.mem_of_find?_eq_some hentry, rfl⟩, hsame⟩

/-- The loader of units in memory. -/
def loader (units : UnitTable) : Loader where
  resolve := units.resolve
  read := units.read
  identities := units.map Prod.fst
  resolve_mem := resolve_mem

end UnitTable

end EdgeScript
