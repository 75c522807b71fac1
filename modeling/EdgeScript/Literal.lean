/-!
# Literal values

Scripts compute with 64-bit integers, strings and truth values.  Which of two truth values a literal
counts as in a condition is known for numbers and truth values alone: what a string counts as is
left to the processor of the markup (`Literal.truth?`).
-/

set_option autoImplicit false

namespace EdgeScript

/-- The least integer of scripts. -/
def leastInt : Int := -9223372036854775808

/-- The greatest integer of scripts. -/
def greatestInt : Int := 9223372036854775807

/-- A value that is written in a script. -/
inductive Literal where
  | int (value : Int64)
  | str (value : String)
  | bool (value : Bool)
deriving DecidableEq, Repr, Inhabited

/-- What a literal counts as in a condition, where that is known at compile time. -/
def Literal.truth? : Literal → Option Bool
  | .int n => some (n != 0)
  | .bool b => some b
  | .str _ => none

end EdgeScript
