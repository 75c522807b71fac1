import Mathlib.Algebra.Order.Ring.Nat
import EdgeScript.Proofs.Meaning.Collection
import EdgeScript.Proofs.Rendering.Plain

/-!
# The integers of a range

A range is enumerated in two places: a loop asks for its elements one after the other
(`Collection.element?`), and outside of a loop it is written as a list, if that is not too long
(`renderRange`).  Both go through the same integers, which `IsRange` describes without either.

Both count in 64 bits.  A loop ends after `2 ^ 63` integers, because there are no places for more
(`Collection.element?_range`).  The length of a list is computed with saturation (`rangeLength_eq`),
so that a list may grow longer than a bound of `2 ^ 63 - 1` or more.
-/

set_option autoImplicit false

namespace EdgeScript

/-- A list of the integers from `first` to `last`, each of them once and in their order. -/
structure IsRange (first last : Int64) (ns : List Int64) : Prop where
  ordered : ns.Pairwise (· < ·)
  mem_iff : ∀ n, n ∈ ns ↔ first ≤ n ∧ n ≤ last

/-- The elements of a collection, asked for one after the other until there is none, are those of
the list. -/
structure Collection.Yields (c : Collection) (vs : List Literal) : Prop where
  element : ∀ i < vs.length, c.element? i = vs[i]?
  stop : c.element? vs.length = none

/-- The integers from `first` to `last`. -/
def rangeIntegers (first last : Int64) : List Int64 :=
  (rangeElements first last).map Int64.ofInt

variable (first last : Int64)

theorem map_toInt_rangeIntegers :
    (rangeIntegers first last).map Int64.toInt = rangeElements first last := by
  have hfit : ∀ n ∈ rangeElements first last, (Int64.toInt ∘ Int64.ofInt) n = n := by
    intro n hn
    obtain ⟨hge, hle⟩ := Expr.bounds_of_mem_rangeElements hn
    exact Expr.toInt_ofInt hge hle
  rw [rangeIntegers, List.map_map, List.map_congr_left hfit, List.map_id']

theorem length_rangeIntegers :
    (rangeIntegers first last).length = (last.toInt - first.toInt + 1).toNat := by
  rw [rangeIntegers, rangeElements, List.length_map, List.length_map, List.length_range]

theorem elements_range :
    (Collection.range first last).elements = (rangeIntegers first last).map .int := by
  rw [Collection.elements, rangeIntegers, rangeElements, List.map_map, List.map_map]
  rfl

theorem mem_rangeElements_iff {n : Int} :
    n ∈ rangeElements first last ↔ first.toInt ≤ n ∧ n ≤ last.toInt := by
  rw [Expr.rangeElements_eq, Int.mem_range_iff, Int.lt_add_one_iff]

theorem isRange_rangeIntegers : IsRange first last (rangeIntegers first last) where
  ordered := by
    simp only [Int64.lt_iff_toInt_lt]
    rw [← List.pairwise_map, map_toInt_rangeIntegers, rangeElements, List.pairwise_map]
    exact List.pairwise_lt_range.imp fun h => by omega
  mem_iff n := by
    rw [← List.mem_map_of_injective (f := Int64.toInt) (fun _ _ => Int64.toInt_inj.1),
      map_toInt_rangeIntegers, mem_rangeElements_iff, Int64.le_iff_toInt_le, Int64.le_iff_toInt_le]

/-- A length that 64 bits cannot hold is taken for the greatest integer. -/
theorem rangeLength_eq :
    rangeLength first last = min (rangeIntegers first last).length (2 ^ 63 - 1) := by
  have := first.le_toInt
  have := first.toInt_lt
  have := last.le_toInt
  have := last.toInt_lt
  rw [length_rangeIntegers, rangeLength, saturate, saturate, leastInt, greatestInt]
  omega

/-- Where there is an element, and which one. -/
theorem element?_range_eq (i : Nat) :
    (Collection.range first last).element? i =
      (((rangeIntegers first last).take (2 ^ 63)).map Literal.int)[i]? := by
  rw [Collection.element?_range, elements_range, List.map_take, List.getElem?_take]

theorem yields_rangeIntegers :
    (Collection.range first last).Yields
      (((rangeIntegers first last).take (2 ^ 63)).map .int) where
  element i _ := element?_range_eq first last i
  stop := by rw [element?_range_eq, List.getElem?_eq_none (Nat.le_refl _)]

/-- A loop comes to all integers if and only if there are places for all of them. -/
theorem yields_all_iff :
    (Collection.range first last).Yields ((rangeIntegers first last).map .int) ↔
      (rangeIntegers first last).length ≤ 2 ^ 63 := by
  constructor
  · intro h
    -- a longer range would have an element at place `2 ^ 63`
    refine Nat.le_of_not_lt fun hlt => ?_
    have hlast := h.element (2 ^ 63) (by rwa [List.length_map])
    rw [Collection.element?_range, if_neg (Nat.lt_irrefl _), eq_comm, List.getElem?_eq_none_iff,
      List.length_map] at hlast
    exact absurd hlast (Nat.not_le.2 hlt)
  · intro h
    have hyields := yields_rangeIntegers first last
    rwa [List.take_of_length_le h] at hyields

theorem renderRange_literals (ctx : RenderContext) (at₁ at₂ span : Span) :
    renderRange ctx (.lit (.int first) at₁) (.lit (.int last) at₂) span =
      if ctx.maxListLength < min (rangeIntegers first last).length (2 ^ 63 - 1) then
        .error (.limitExceeded (.rangeLength first last ctx.maxListLength) span)
      else .ok ("[" ++ Text.joinWith "," ((rangeIntegers first last).map integerText) ++ "]") := by
  have htexts : (rangeElements first last).map toString =
      (rangeIntegers first last).map integerText := by
    rw [← map_toInt_rangeIntegers, List.map_map]
    rfl
  rw [← rangeLength_eq, ← htexts]
  rfl

/-- **A range is enumerated alike in loops and outside of them**, namely in the order of its
integers.  A loop comes to the first `2 ^ 63` of them and then stops, so it comes to all of them if
and only if there are no more.  A list is refused if and only if its length, taken for `2 ^ 63 - 1`
if it is greater, is above the bound, and otherwise holds the same integers in decimal. -/
theorem ranges_are_enumerated (first last : Int64) :
    ∃ ns, IsRange first last ns ∧
      (Collection.range first last).Yields ((ns.take (2 ^ 63)).map .int) ∧
      ((Collection.range first last).Yields (ns.map .int) ↔ ns.length ≤ 2 ^ 63) ∧
      ∀ (ctx : RenderContext) (at₁ at₂ span : Span),
        renderRange ctx (.lit (.int first) at₁) (.lit (.int last) at₂) span =
          if ctx.maxListLength < min ns.length (2 ^ 63 - 1) then
            .error (.limitExceeded (.rangeLength first last ctx.maxListLength) span)
          else .ok ("[" ++ Text.joinWith "," (ns.map integerText) ++ "]") :=
  ⟨rangeIntegers first last, isRange_rangeIntegers first last, yields_rangeIntegers first last,
    yields_all_iff first last, renderRange_literals first last⟩

/-- Two ranges that are too long.  A loop from the least integer to zero never comes to zero, and
the `2 ^ 63` integers from zero on are written as a list although a list may have one less at
most. -/
theorem long_ranges_are_cut_or_written :
    (∃ ns, IsRange Int64.minValue 0 ns ∧ 0 ∈ ns ∧
      ∀ i, (Collection.range Int64.minValue 0).element? i ≠ some (.int 0)) ∧
    (∃ ns, IsRange 0 Int64.maxValue ns ∧ 2 ^ 63 - 1 < ns.length) ∧
    ∃ text, renderRange ⟨[], 2 ^ 63 - 1⟩ (.lit (.int 0) .none) (.lit (.int Int64.maxValue) .none)
      .none = .ok text := by
  refine ⟨⟨_, isRange_rangeIntegers Int64.minValue 0, ?_, fun i h => ?_⟩,
    ⟨_, isRange_rangeIntegers 0 Int64.maxValue, ?_⟩, ?_⟩
  · exact ((isRange_rangeIntegers Int64.minValue 0).mem_iff 0).2 (by decide)
  · -- zero has place `2 ^ 63`
    rw [Collection.element?_range, Collection.getElem?_elements_range] at h
    by_cases hi : i < 2 ^ 63
    · have hmin : Int64.minValue.toInt = -2 ^ 63 := by decide
      have hsum : (Int64.ofInt (Int64.minValue.toInt + i)).toInt = Int64.minValue.toInt + i :=
        Int64.toInt_ofInt_of_le (by omega) (by omega)
      rw [if_pos hi] at h
      split at h
      · rw [Option.some.injEq, Literal.int.injEq] at h
        rw [h, hmin, Int64.toInt_zero] at hsum
        omega
      · cases h
    · rw [if_neg hi] at h
      cases h
  · rw [length_rangeIntegers]
    decide
  · rw [renderRange_literals, if_neg (Nat.not_lt.2 (Nat.min_le_right _ _))]
    exact ⟨_, rfl⟩

end EdgeScript
