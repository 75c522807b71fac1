/-!
# Sets of code points

A property of characters that a standard gives by ranges is kept as the sorted list of the places
where membership changes: the first range starts at the first entry and ends before the second,
the next one starts at the third, and so on.  `CodePointSet.contains` looks a code point up.
-/

set_option autoImplicit false

namespace EdgeScript

/-- A set of code points, as the sorted boundaries of its ranges: first member, first code point
past the range, and again. -/
abbrev CodePointSet := List Nat

/-- Whether a code point lies in one of the ranges. -/
def CodePointSet.contains : CodePointSet → Nat → Bool
  | first :: past :: rest, n =>
    if n < first then false else if n < past then true else CodePointSet.contains rest n
  | _, _ => false

end EdgeScript
