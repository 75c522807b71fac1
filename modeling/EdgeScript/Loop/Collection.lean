import EdgeScript.Literal.Eval

/-!
# Collections known at compile time

A loop can be unrolled if the elements of its collection are known: a range between integer
literals, an array of literals, or a variable that was last given one of these.
`Collection.element?` tells the elements one by one, so that a long range costs no more than what is
used of it.  Places in a range are counted in 64 bits: there is no element at place `2 ^ 63` and
behind it.
-/

set_option autoImplicit false

namespace EdgeScript

/-- A collection whose elements are known. -/
inductive Collection where
  /-- The integers between two bounds, the bounds included. -/
  | range (first last : Int64)
  | items (values : List Literal)
deriving DecidableEq, Repr

/-- The element at a place, counted from zero.  In a range, the place and its sum with the first
bound must fit into 64 bits. -/
def Collection.element? : Collection → Nat → Option Literal
  | .range first last, i => do
    let offset ← Literal.fit64? i
    let n ← Literal.fit64? (first.toInt + offset.toInt)
    if n ≤ last then some (.int n) else none
  | .items values, i => values[i]?

/-- The variables whose collections are known. -/
abbrev Known := List (String × Collection)

namespace Known

/-- The collection of a variable. -/
def get? (known : Known) (name : String) : Option Collection :=
  known.lookup name

/-- Forgets a variable. -/
def erase (known : Known) (name : String) : Known :=
  known.filter fun entry => entry.1 != name

/-- Notes the collection of a variable. -/
def insert (known : Known) (name : String) (c : Collection) : Known :=
  (name, c) :: known.erase name

/-- Forgets several variables. -/
def eraseAll (known : Known) (names : List String) : Known :=
  known.filter fun entry => !names.contains entry.1

end Known

/-- The collection that an expression stands for, if its elements are known. -/
def Collection.ofExpr? (known : Known) : Expr → Option Collection
  | .range (.lit (.int first) _) (.lit (.int last) _) _ => some (.range first last)
  | .array elements _ => (elements.mapM Expr.literal?).map .items
  | .ident id => known.get? id.name
  | _ => none

/-- What is known after a variable has been given a value. -/
def Known.assign (known : Known) (name : String) (value : Option Expr) : Known :=
  match value.bind (Collection.ofExpr? known) with
  | some c => known.insert name c
  | none => known.erase name

end EdgeScript
