import EdgeScript.Path

/-!
# The units met so far

A `Registry` remembers which units have been imported and which are being expanded at the moment, so
that a unit is imported once and a circle of imports is noticed.
-/

set_option autoImplicit false

namespace EdgeScript

/-- The units met in the expansion of imports. -/
structure Registry where
  imported : List Path := []
  /-- The units whose own imports are being expanded, the innermost last. -/
  inProgress : List Path := []
deriving Repr

namespace Registry

/-- Whether a unit has been imported. -/
def contains (r : Registry) (path : Path) : Bool :=
  r.imported.any path.same

/-- Whether a unit is being expanded. -/
def isInProgress (r : Registry) (path : Path) : Bool :=
  r.inProgress.any path.same

/-- Marks a unit as imported. -/
def register (r : Registry) (path : Path) : Registry :=
  if r.contains path then r else { r with imported := r.imported ++ [path] }

/-- Marks a unit as being expanded. -/
def enter (r : Registry) (path : Path) : Registry :=
  { r with inProgress := r.inProgress ++ [path] }

/-- Takes back the innermost mark of a unit being expanded. -/
def leave (r : Registry) : Registry :=
  { r with inProgress := r.inProgress.dropLast }

end Registry

end EdgeScript
