import Mathlib.Algebra.Order.Ring.Nat
import EdgeScript.Proofs.Literal.Exact
import EdgeScript.Proofs.Meaning.Value
import EdgeScript.Loop.Collection

/-!
# What loops run through

`Collection.elements` lists all elements of a collection at once, where `Collection.element?` tells
them one by one.  The two differ in ranges of more than `2 ^ 63` integers, where the places run out
before the elements do (`element?_range`).  `Interp.Enumerates` is what unrolling relies on besides
`Interp.Lawful`: a loop over an array runs through its elements, and a loop over a range between
integers through the integers from the first bound to the last.

`Interp.basic` is an interpretation that has all these laws.  It knows literals and lists, and
nothing about functions and patterns.
-/

set_option autoImplicit false

namespace EdgeScript

namespace Collection

/-- All elements in their order. -/
def elements : Collection → List Literal
  | .range first last =>
    (List.range (last.toInt - first.toInt + 1).toNat).map fun i : Nat =>
      .int (Int64.ofInt (first.toInt + i))
  | .items values => values

/-- The elements of a range count up from its first bound to its last. -/
theorem getElem?_elements_range (first last : Int64) (i : Nat) :
    (range first last).elements[i]? =
      if first.toInt + i ≤ last.toInt then some (.int (Int64.ofInt (first.toInt + i)))
      else none := by
  rw [elements, List.getElem?_map]
  by_cases h : first.toInt + i ≤ last.toInt
  · rw [if_pos h, List.getElem?_range (by omega), Option.map_some]
  · rw [if_neg h, List.getElem?_eq_none (by rw [List.length_range]; omega), Option.map_none]

/-- **A range is told up to place `2 ^ 63`**, where the places run out. -/
theorem element?_range (first last : Int64) (i : Nat) :
    (range first last).element? i =
      if i < 2 ^ 63 then (range first last).elements[i]? else none := by
  have hfirst := first.le_toInt
  have hlast := last.toInt_lt
  by_cases hi : i < 2 ^ 63
  · obtain ⟨offset, hoffset⟩ := Option.isSome_iff_exists.1
      (Literal.isSome_fit64?_iff.2 (show -2 ^ 63 ≤ (i : Int) ∧ (i : Int) < 2 ^ 63 by omega))
    rw [element?, hoffset, Option.bind_eq_bind, Option.bind_some,
      Literal.fit64?_eq_some_iff.1 hoffset, if_pos hi, getElem?_elements_range]
    by_cases hle : first.toInt + i ≤ last.toInt
    · -- between the bounds the sum fits
      have hsum : (Int64.ofInt (first.toInt + i)).toInt = first.toInt + i :=
        Int64.toInt_ofInt_of_le (by omega) (by omega)
      rw [Literal.fit64?_eq_some_iff.2 hsum, Option.bind_some, if_pos hle,
        if_pos (Int64.le_iff_toInt_le.2 (by rwa [hsum]))]
    · rw [if_neg hle]
      refine Option.bind_eq_none_iff.2 fun n hn => if_neg fun hle' => hle ?_
      rw [← Literal.fit64?_eq_some_iff.1 hn]
      exact Int64.le_iff_toInt_le.1 hle'
  · have hnone : Literal.fit64? i = none := by
      rw [← Option.not_isSome_iff_eq_none, Literal.isSome_fit64?_iff]
      omega
    rw [element?, hnone, Option.bind_eq_bind, Option.bind_none, if_neg hi]

/-- Below 2^63 an index gives the element that stands there. -/
theorem element?_of_lt (c : Collection) {i : Nat} (hi : i < 2 ^ 63) :
    c.element? i = c.elements[i]? := by
  cases c with
  | items values => rfl
  | range first last => rw [element?_range, if_pos hi]

/-- Where an index below 2^63 gives nothing, the elements have ended. -/
theorem drop_elements_of_none {c : Collection} {i : Nat} (hi : i < 2 ^ 63)
    (h : c.element? i = none) : c.elements.drop i = [] := by
  rw [element?_of_lt c hi, List.getElem?_eq_none_iff] at h
  exact List.drop_eq_nil_of_le h

theorem getElem?_of_element? {c : Collection} {i : Nat} {v : Literal} (h : c.element? i = some v) :
    c.elements[i]? = some v := by
  cases c with
  | items values => exact h
  | range first last =>
    rw [element?_range] at h
    split at h
    · exact h
    · cases h

/-- Where an index gives an element, it is the next one. -/
theorem drop_elements_of_some {c : Collection} {i : Nat} {v : Literal} (h : c.element? i = some v) :
    c.elements.drop i = v :: c.elements.drop (i + 1) := by
  obtain ⟨hi, rfl⟩ := List.getElem?_eq_some_iff.1 (getElem?_of_element? h)
  exact List.drop_eq_getElem_cons hi

end Collection

namespace Interp

variable {V : Type}

/-- What a loop over a collection runs through. -/
structure Enumerates (I : Interp V) : Prop where
  elements_range (first last : Int64) :
    I.elements (I.range (I.lit (.int first)) (I.lit (.int last))) =
      (Collection.range first last).elements.map I.lit
  elements_array (vs : List V) : I.elements (I.array vs) = vs

/-- Literals mean themselves in every store. -/
theorem evalAll_of_literals (I : Interp V) (ρ : String → V) {es : List Expr} {vs : List Literal}
    (h : es.mapM Expr.literal? = some vs) : I.evalAll ρ es = vs.map I.lit := by
  induction es generalizing vs with
  | nil =>
    cases h
    rfl
  | cons e es ih =>
    simp only [List.mapM_cons, Option.bind_eq_bind, Option.bind_eq_some_iff, Option.pure_def,
      Option.some.injEq] at h
    obtain ⟨v, hv, rest, hrest, rfl⟩ := h
    cases e <;> simp only [Expr.literal?, reduceCtorEq, Option.some.injEq] at hv
    subst hv
    rw [evalAll, eval, ih hrest, List.map_cons]

/-- A loop over an expression that stands for a collection runs through the elements of that, if
this is so where the expression is a variable. -/
theorem Enumerates.elements_eval {I : Interp V} (hI : I.Enumerates) {known : Known} {ρ : String → V}
    {e : Expr} {c : Collection} (h : Collection.ofExpr? known e = some c)
    (hknown : ∀ id, e = .ident id → known.get? id.name = some c →
      I.elements (ρ id.name) = c.elements.map I.lit) :
    I.elements (I.eval ρ e) = c.elements.map I.lit := by
  unfold Collection.ofExpr? at h
  split at h
  next first _ last _ _ =>
    cases h
    rw [eval, eval, eval]
    exact hI.elements_range first last
  next es _ =>
    obtain ⟨vs, hvs, rfl⟩ := Option.map_eq_some_iff.1 h
    rw [eval, hI.elements_array, I.evalAll_of_literals ρ hvs]
    rfl
  next id => exact hknown id rfl h
  next => cases h

end Interp

/-! ## An interpretation -/

/-- Values of which only literals and lists of values are known. -/
inductive Value where
  | known (v : Literal)
  | list (vs : List Value)
  | unknown
deriving Repr, Inhabited

namespace Value

/-- A literal if there is one, and otherwise something unknown. -/
def ofLiteral? (v : Option Literal) : Value :=
  (v.map known).getD unknown

end Value

namespace Interp

/-- What is known is computed, and all else is unknown. -/
def basic : Interp Value where
  lit := .known
  unary
    | op, .known v => .ofLiteral? (Literal.unary? op v)
    | _, _ => .unknown
  binary
    | op, .known l, .known r => .ofLiteral? (Literal.binary? op l r)
    | _, _, _ => .unknown
  test
    | op, _, .known (.str s), .known (.str part) => .ofLiteral? ((Expr.found? op s part).map .bool)
    | _, _, _, _ => .unknown
  call _ _ := .unknown
  index _ _ := .unknown
  range
    | .known (.int first), .known (.int last) =>
      .list ((Collection.range first last).elements.map .known)
    | _, _ => .unknown
  array := .list
  dict _ := .unknown
  truth
    | .known v => v.truth?.getD true
    | _ => false
  elements
    | .list vs => vs
    | _ => []
  unset := .unknown
  update _ _ _ := .unknown

/-- A processor that knows literals only computes with them as the compiler does. -/
theorem basic_lawful : basic.Lawful where
  unary_lit h := congrArg Value.ofLiteral? h
  binary_lit h := congrArg Value.ofLiteral? h
  test_lit h := congrArg (fun b => Value.ofLiteral? (Option.map Literal.bool b)) h
  truth_lit h := congrArg (Option.getD · true) h

theorem basic_enumerates : basic.Enumerates where
  elements_range _ _ := rfl
  elements_array _ := rfl

end Interp

end EdgeScript
