import Mathlib.Data.Int.Bitwise
import Mathlib.Data.Int.ModEq
import EdgeScript.Literal.Eval

/-!
# Literals are computed exactly

What an operator means on integers is said here without bounds: `BinOp.IntResult` and `BinOp.order?`
speak of the integers that stand in 64 bits, not of the bits.  `BinOp.Result` and `UnOp.Result`
extend this to all literals, and `BinOp.Applies` and `UnOp.Applies` tell which operands have a
result at all.

* `binary?_eq_some_iff`, `unary?_eq_some_iff`: `Literal.binary?` and `Literal.unary?` give exactly
  these results.
* `isSome_binary?_iff`, `isSome_unary?_iff`: and they give one exactly where the operator applies.

Bits are those of the two's complement, which for a negative integer has ones without end
(`Int.testBit`).
-/

set_option autoImplicit false

namespace EdgeScript

/-! ## What operators mean -/

namespace BinOp

/-- Whether an integer can be the length of a shift. -/
def IsShiftLength (n : Int) : Prop := 0 ≤ n ∧ n ≤ 63

/-- On the integers `l` and `r` the operator gives the integer `n`. -/
def IntResult (l r n : Int) : BinOp → Prop
  | .add => n = l + r
  | .sub => n = l - r
  | .mul => n = l * r
  | .div => r ≠ 0 ∧ l = n * r
  | .mod => r ≠ 0 ∧ ¬ (l = -2 ^ 63 ∧ r = -1) ∧ (∃ t, l = r * t + n) ∧ |n| < |r| ∧
      (n = 0 ∨ n.sign = l.sign)
  | .shl => IsShiftLength r ∧ n ≡ l * 2 ^ r.toNat [ZMOD 2 ^ 64]
  | .shr => IsShiftLength r ∧ n = l.fdiv (2 ^ r.toNat)
  | .bitAnd => ∀ i, n.testBit i = (l.testBit i && r.testBit i)
  | .bitOr => ∀ i, n.testBit i = (l.testBit i || r.testBit i)
  | .bitXor => ∀ i, n.testBit i = (l.testBit i ^^ r.testBit i)
  | .eq | .ne | .lt | .le | .gt | .ge | .and | .or => False

/-- How the operator compares two integers. -/
def order? (l r : Int) : BinOp → Option Bool
  | .eq => some (l = r)
  | .ne => some (l ≠ r)
  | .lt => some (l < r)
  | .le => some (l ≤ r)
  | .gt => some (l > r)
  | .ge => some (l ≥ r)
  | .add | .sub | .mul | .div | .mod | .shl | .shr | .bitAnd | .bitOr | .bitXor | .and | .or => none

/-- How the operator compares two values that are only the same or not. -/
def sameness? (same : Prop) [Decidable same] : BinOp → Option Bool
  | .eq => some same
  | .ne => some (¬ same)
  | _ => none

/-- On the literals `l` and `r` the operator gives the literal `v`. -/
def Result (op : BinOp) : (l r v : Literal) → Prop
  | .int l, .int r, .int n => op.IntResult l.toInt r.toInt n.toInt
  | .int l, .int r, .bool b => op.order? l.toInt r.toInt = some b
  | .str s, .str t, .str u => op = .add ∧ u = s ++ t
  | .str s, .str t, .bool b => op.sameness? (s = t) = some b
  | .bool a, .bool b, .bool c => op.sameness? (a = b) = some c
  | .str s, .int n, .str t =>
    op = .mul ∧ 0 ≤ n.toInt ∧ n.toInt * s.utf8ByteSize ≤ 65536 ∧
      t.toList = (List.replicate n.toInt.toNat s.toList).flatten
  | _, _, _ => False

/-- The operator has a result on the integers `l` and `r`, if integers are from `-2 ^ 63` up to
below `2 ^ 63`. -/
def AppliesToInts (l r : Int) : BinOp → Prop
  | .add => -2 ^ 63 ≤ l + r ∧ l + r < 2 ^ 63
  | .sub => -2 ^ 63 ≤ l - r ∧ l - r < 2 ^ 63
  | .mul => -2 ^ 63 ≤ l * r ∧ l * r < 2 ^ 63
  | .div => ∃ q, r ≠ 0 ∧ l = q * r ∧ -2 ^ 63 ≤ q ∧ q < 2 ^ 63
  | .mod => r ≠ 0 ∧ ¬ (l = -2 ^ 63 ∧ r = -1)
  | .shl | .shr => IsShiftLength r
  | .bitAnd | .bitOr | .bitXor | .eq | .ne | .lt | .le | .gt | .ge => True
  | .and | .or => False

/-- The operator has a result on the literals. -/
def Applies (op : BinOp) : (l r : Literal) → Prop
  | .int l, .int r => op.AppliesToInts l.toInt r.toInt
  | .str _, .str _ => op = .add ∨ op = .eq ∨ op = .ne
  | .bool _, .bool _ => op = .eq ∨ op = .ne
  | .str s, .int n => op = .mul ∧ 0 ≤ n.toInt ∧ n.toInt * s.utf8ByteSize ≤ 65536
  | _, _ => False

end BinOp

namespace UnOp

/-- On the literal `x` the prefix operator gives the literal `v`. -/
def Result (op : UnOp) : (x v : Literal) → Prop
  | .int x, .int n => op = .neg ∧ n.toInt = -x.toInt ∨
      op = .bitNot ∧ ∀ i, n.toInt.testBit i = !x.toInt.testBit i
  | .int x, .bool b => op = .not ∧ b = decide (x.toInt = 0)
  | .bool x, .bool b => op = .not ∧ b = !x
  | _, _ => False

/-- The prefix operator has a result on the literal. -/
def Applies (op : UnOp) : Literal → Prop
  | .int x => op = .neg → -x.toInt < 2 ^ 63
  | .bool _ => op = .not
  | .str _ => False

end UnOp

namespace Literal

/-! ## Integers that fit -/

/-- A number fits if it is the value of an integer of 64 bits. -/
theorem fit64?_eq_some_iff {x : Int} {n : Int64} : fit64? x = some n ↔ n.toInt = x := by
  have hge := n.le_toInt
  have hlt := n.toInt_lt
  rw [fit64?, leastInt, greatestInt]
  constructor
  · intro h
    split at h
    · cases h
      exact Int64.toInt_ofInt_of_le (by omega) (by omega)
    · cases h
  · rintro rfl
    rw [if_pos (by omega), Int64.ofInt_toInt]

theorem isSome_fit64?_iff {x : Int} : (fit64? x).isSome ↔ -2 ^ 63 ≤ x ∧ x < 2 ^ 63 := by
  rw [fit64?, leastInt, greatestInt]
  split <;> simp <;> omega

/-! ## Quotients and remainders -/

theorem quotient?_eq (l r : Int64) :
    quotient? l r = if r.toInt = 0 then none else fit64? (l.toInt.tdiv r.toInt) := by
  simp only [quotient?, ← Int64.toInt_inj, Int64.toInt_zero]

/-- The quotient is cut towards zero, if there is one. -/
theorem quotient?_eq_some_iff {l r q : Int64} :
    quotient? l r = some q ↔ r.toInt ≠ 0 ∧ q.toInt = l.toInt.tdiv r.toInt := by
  rw [quotient?_eq]
  split <;> simp_all [fit64?_eq_some_iff]

theorem natAbs_tmod_lt (l : Int) {r : Int} (hr : r ≠ 0) : (l.tmod r).natAbs < r.natAbs := by
  rw [Int.natAbs_tmod]
  exact Nat.mod_lt _ (by omega)

/-- Only one quotient does not fit. -/
theorem tdiv_fits_iff {l r : Int} (hge : -2 ^ 63 ≤ l) (hlt : l < 2 ^ 63) (hr : r ≠ 0) :
    (-2 ^ 63 ≤ l.tdiv r ∧ l.tdiv r < 2 ^ 63) ↔ ¬ (l = -2 ^ 63 ∧ r = -1) := by
  constructor
  · rintro ⟨-, h⟩ ⟨rfl, rfl⟩
    exact absurd h (by decide)
  · intro hcorner
    have hle : (l.tdiv r).natAbs ≤ l.natAbs := Int.natAbs_tdiv_le_natAbs l r
    refine ⟨by omega, Int.not_le.1 fun hbig => hcorner ?_⟩
    -- The quotient is not above `2 ^ 63`, and it comes to that only for the least integer by `-1`.
    have hq : l.tdiv r = 2 ^ 63 := by omega
    have hsum : r * l.tdiv r + l.tmod r = l := Int.mul_tdiv_add_tmod l r
    have hrem := natAbs_tmod_lt l hr
    rw [hq] at hsum
    omega

/-- There is none by zero, and the quotient of the least number by minus one does not fit. -/
theorem isSome_quotient?_iff {l r : Int64} :
    (quotient? l r).isSome ↔ r.toInt ≠ 0 ∧ ¬ (l.toInt = -2 ^ 63 ∧ r.toInt = -1) := by
  rw [quotient?_eq]
  split
  · simp_all
  · rename_i hr
    rw [isSome_fit64?_iff, tdiv_fits_iff l.le_toInt l.toInt_lt hr]
    exact (and_iff_right hr).symm

/-- The remainder toward zero is the one that is smaller than the divisor and has the sign of the
dividend. -/
theorem eq_tmod_iff {l r m : Int} (hr : r ≠ 0) :
    m = l.tmod r ↔ (∃ t, l = r * t + m) ∧ |m| < |r| ∧ (m = 0 ∨ m.sign = l.sign) := by
  constructor
  · rintro rfl
    refine ⟨⟨l.tdiv r, (Int.mul_tdiv_add_tmod l r).symm⟩, ?_, ?_⟩
    · rw [Int.abs_eq_natAbs, Int.abs_eq_natAbs]
      exact Int.ofNat_lt.2 (natAbs_tmod_lt l hr)
    · by_cases hdvd : r ∣ l
      · exact .inl (Int.tmod_eq_zero_of_dvd hdvd)
      · exact .inr (by rw [Int.sign_tmod, if_neg hdvd])
  · rintro ⟨⟨t, ht⟩, hlt, hsign⟩
    rw [Int.abs_eq_natAbs, Int.abs_eq_natAbs] at hlt
    rcases Int.le_total 0 l with hl | hl
    · have hm : 0 ≤ m := by
        rcases hsign with rfl | hsign
        · exact le_rfl
        · rwa [← Int.sign_nonneg_iff, hsign, Int.sign_nonneg_iff]
      have hsum : m + r * t = l := by omega
      exact ((Int.tdiv_tmod_unique hl hr).2 ⟨hsum, hm, by omega⟩).2.symm
    · have hm : m ≤ 0 := by
        rcases hsign with rfl | hsign
        · exact le_rfl
        · rwa [← Int.sign_nonpos_iff, hsign, Int.sign_nonpos_iff]
      have hsum : m + r * t = l := by omega
      exact ((Int.tdiv_tmod_unique' hl hr).2 ⟨hsum, by omega, hm⟩).2.symm

/-! ## Bits -/

/-- Beyond the 64 bits of an integer its sign goes on. -/
theorem testBit_toInt (n : Int64) (i : Nat) :
    n.toInt.testBit i = if i < 64 then n.toBitVec.getLsbD i else n.toBitVec.msb := by
  have hlt := n.toBitVec.isLt
  rw [← Int64.toInt_toBitVec, BitVec.toInt_eq_msb_cond]
  cases hmsb : n.toBitVec.msb with
  | false =>
    rw [if_neg (by simp)]
    show n.toBitVec.toNat.testBit i = _
    split
    · rfl
    · exact Nat.testBit_lt_two_pow (hlt.trans_le (Nat.pow_le_pow_right (by decide) (by omega)))
  | true =>
    have hneg : (n.toBitVec.toNat : Int) - (2 ^ 64 : Nat) =
        Int.negSucc (2 ^ 64 - (n.toBitVec.toNat + 1)) := by omega
    rw [if_pos rfl, hneg]
    show (!(2 ^ 64 - (n.toBitVec.toNat + 1)).testBit i) = _
    rw [Nat.testBit_two_pow_sub_succ hlt, BitVec.testBit_toNat]
    split <;> simp_all

/-- Integers of 64 bits are told apart by their bits. -/
theorem eq_iff_testBit_toInt {m n : Int64} {bit : Nat → Bool}
    (h : ∀ i, m.toInt.testBit i = bit i) : m = n ↔ ∀ i, n.toInt.testBit i = bit i := by
  constructor
  · rintro rfl
    exact h
  · intro hn
    rw [← Int64.toBitVec_inj]
    refine BitVec.eq_of_getLsbD_eq fun i hi => ?_
    have hbit := (h i).trans (hn i).symm
    rwa [testBit_toInt, testBit_toInt, if_pos hi, if_pos hi] at hbit

/-! ## Shifts -/

theorem isShift_iff {n : Int64} : isShift n = true ↔ BinOp.IsShiftLength n.toInt := by
  rw [isShift, BinOp.IsShiftLength, Bool.and_eq_true, decide_eq_true_iff, decide_eq_true_iff]
  omega

/-- Only the length of the shift counts, if it is one. -/
theorem toNat_shiftLength {n : Int64} (h : BinOp.IsShiftLength n.toInt) :
    (n.toBitVec.smod 64).toNat = n.toInt.toNat := by
  obtain ⟨hge, hle⟩ := h
  have hmod : (n.toBitVec.smod 64).toInt = n.toInt := by
    rw [BitVec.toInt_smod, Int64.toInt_toBitVec]
    exact Int.fmod_eq_of_lt hge (by show n.toInt < 64; omega)
  rw [BitVec.toInt_eq_toNat_cond] at hmod
  split at hmod <;> omega

/-- Bits that are shifted out on the left are lost. -/
theorem toInt_shiftLeft {l r : Int64} (h : BinOp.IsShiftLength r.toInt) :
    (l <<< r).toInt ≡ l.toInt * 2 ^ r.toInt.toNat [ZMOD 2 ^ 64] := by
  have hvalue : l.toInt ≡ l.toBitVec.toNat [ZMOD 2 ^ 64] := by
    rw [← Int64.toInt_toBitVec, BitVec.toInt_eq_toNat_bmod]
    exact Int.bmod_emod
  have hshift : (l <<< r).toInt =
      ((l.toBitVec.toNat * 2 ^ r.toInt.toNat : Nat) : Int).bmod (2 ^ 64) := by
    rw [← Int64.toInt_toBitVec, Int64.toBitVec_shiftLeft, BitVec.shiftLeft_eq', toNat_shiftLength h,
      BitVec.toInt_shiftLeft, Nat.shiftLeft_eq]
  calc (l <<< r).toInt
      ≡ (l.toBitVec.toNat : Int) * 2 ^ r.toInt.toNat [ZMOD 2 ^ 64] := by
        rw [hshift]
        push_cast
        exact Int.bmod_emod
    _ ≡ l.toInt * 2 ^ r.toInt.toNat [ZMOD 2 ^ 64] := hvalue.symm.mul_right _

/-- Shifting to the right divides and rounds down. -/
theorem toInt_shiftRight {l r : Int64} (h : BinOp.IsShiftLength r.toInt) :
    (l >>> r).toInt = l.toInt.fdiv (2 ^ r.toInt.toNat) := by
  rw [← Int64.toInt_toBitVec, Int64.toBitVec_shiftRight, BitVec.sshiftRight', toNat_shiftLength h,
    BitVec.toInt_sshiftRight, Int64.toInt_toBitVec, Int.shiftRight_eq_div_pow,
    Int.fdiv_eq_ediv_of_nonneg _ (Int.pow_nonneg (by decide)), Int.natCast_pow]
  rfl

/-- An integer is known by its residue. -/
theorem eq_iff_modEq {m n : Int64} {x : Int} (h : m.toInt ≡ x [ZMOD 2 ^ 64]) :
    m = n ↔ n.toInt ≡ x [ZMOD 2 ^ 64] := by
  constructor
  · rintro rfl
    exact h
  · intro hn
    have hmod : m.toInt % 2 ^ 64 = n.toInt % 2 ^ 64 := h.trans hn.symm
    have := m.le_toInt
    have := m.toInt_lt
    have := n.le_toInt
    have := n.toInt_lt
    exact Int64.toInt_inj.1 (by omega)

/-! ## Operators on integers -/

theorem binaryInt?_div_eq_some_iff {l r n : Int64} :
    binaryInt? .div l r = some (.int n) ↔ BinOp.div.IntResult l.toInt r.toInt n.toInt := by
  simp only [binaryInt?, BinOp.IntResult, Option.bind_eq_some_iff, quotient?_eq_some_iff]
  constructor
  · rintro ⟨q, ⟨hr, hq⟩, h⟩
    split at h
    · rename_i hexact
      cases h
      refine ⟨hr, ?_⟩
      rw [hq, Int.tdiv_mul_cancel (Int.dvd_of_tmod_eq_zero hexact)]
    · cases h
  · rintro ⟨hr, hl⟩
    refine ⟨n, ⟨hr, ?_⟩, if_pos ?_⟩
    · rw [hl, Int.mul_tdiv_cancel _ hr]
    · rw [hl, Int.mul_tmod_left]

theorem binaryInt?_mod_eq_some_iff {l r n : Int64} :
    binaryInt? .mod l r = some (.int n) ↔ BinOp.mod.IntResult l.toInt r.toInt n.toInt := by
  have hrem : r.toInt ≠ 0 → (Int64.ofInt (l.toInt.tmod r.toInt)).toInt = l.toInt.tmod r.toInt := by
    intro hr
    have hlt := natAbs_tmod_lt l.toInt hr
    have := r.le_toInt
    have := r.toInt_lt
    exact Int64.toInt_ofInt_of_le (by omega) (by omega)
  have hdefined : (∃ q, quotient? l r = some q) ↔ _ :=
    Option.isSome_iff_exists.symm.trans isSome_quotient?_iff
  simp only [binaryInt?, BinOp.IntResult, Option.map_eq_some_iff, Literal.int.injEq,
    exists_and_right, hdefined, and_assoc]
  refine and_congr_right fun hr => and_congr_right fun _ => ?_
  rw [← eq_tmod_iff hr, ← Int64.toInt_inj, hrem hr, eq_comm]

/-- Operators give the integer that their specification asks for, and give it whenever it fits. -/
theorem binaryInt?_eq_some_int_iff {op : BinOp} {l r n : Int64} :
    binaryInt? op l r = some (.int n) ↔ op.IntResult l.toInt r.toInt n.toInt := by
  cases op with
  | div => exact binaryInt?_div_eq_some_iff
  | mod => exact binaryInt?_mod_eq_some_iff
  | add | sub | mul => simp [binaryInt?, BinOp.IntResult, fit64?_eq_some_iff]
  | shl =>
    simp only [binaryInt?, BinOp.IntResult, isShift_iff, Option.ite_none_right_eq_some,
      Option.some.injEq, Literal.int.injEq]
    exact and_congr_right fun h => eq_iff_modEq (toInt_shiftLeft h)
  | shr =>
    simp only [binaryInt?, BinOp.IntResult, isShift_iff, Option.ite_none_right_eq_some,
      Option.some.injEq, Literal.int.injEq]
    refine and_congr_right fun h => ?_
    rw [← Int64.toInt_inj, toInt_shiftRight h, eq_comm]
  | bitAnd | bitOr | bitXor =>
    rw [binaryInt?, Option.some_inj, Literal.int.injEq]
    refine eq_iff_testBit_toInt fun i => ?_
    simp only [testBit_toInt]
    split <;> simp
  | eq | ne | lt | le | gt | ge | and | or => simp [binaryInt?, BinOp.IntResult]

/-- Comparisons give the truth value that their specification asks for. -/
theorem binaryInt?_eq_some_bool_iff {op : BinOp} {l r : Int64} {b : Bool} :
    binaryInt? op l r = some (.bool b) ↔ op.order? l.toInt r.toInt = some b := by
  have heq : (l == r) = decide (l.toInt = r.toInt) := by
    rw [beq_eq_decide, Bool.decide_congr Int64.toInt_inj]
  cases op with
  | div =>
    simp only [binaryInt?, BinOp.order?, Option.bind_eq_some_iff, reduceCtorEq, iff_false]
    rintro ⟨q, -, h⟩
    split at h <;> cases h
  | eq | ne => simp [binaryInt?, BinOp.order?, bne, heq]
  | lt | gt => simp [binaryInt?, BinOp.order?, Int64.lt_iff_toInt_lt]
  | le | ge => simp [binaryInt?, BinOp.order?, Int64.le_iff_toInt_le]
  | _ => simp [binaryInt?, BinOp.order?]

theorem binaryInt?_ne_some_str {op : BinOp} {l r : Int64} {s : String} :
    binaryInt? op l r ≠ some (.str s) := by
  cases op with
  | div =>
    simp only [binaryInt?, ne_eq, Option.bind_eq_some_iff]
    rintro ⟨q, -, h⟩
    split at h <;> cases h
  | _ => simp [binaryInt?]

/-- An operator has a value for two integers if it applies to them. -/
theorem isSome_binaryInt?_iff {op : BinOp} {l r : Int64} :
    (binaryInt? op l r).isSome ↔ op.AppliesToInts l.toInt r.toInt := by
  cases op with
  | div =>
    rw [Option.isSome_iff_exists, BinOp.AppliesToInts]
    constructor
    · rintro ⟨v, hv⟩
      cases v with
      | int n =>
        obtain ⟨hr, hl⟩ := binaryInt?_div_eq_some_iff.1 hv
        exact ⟨n.toInt, hr, hl, n.le_toInt, n.toInt_lt⟩
      | str s => exact absurd hv binaryInt?_ne_some_str
      | bool b => cases binaryInt?_eq_some_bool_iff.1 hv
    · rintro ⟨q, hr, hl, hge, hlt⟩
      refine ⟨.int (Int64.ofInt q), binaryInt?_div_eq_some_iff.2 ⟨hr, ?_⟩⟩
      rwa [Int64.toInt_ofInt_of_le hge hlt]
  | mod => rw [binaryInt?, Option.isSome_map, isSome_quotient?_iff, BinOp.AppliesToInts]
  | add | sub | mul => rw [binaryInt?, Option.isSome_map, isSome_fit64?_iff, BinOp.AppliesToInts]
  | shl | shr =>
    rw [binaryInt?, BinOp.AppliesToInts, ← isShift_iff]
    split <;> simp_all
  | _ => simp [binaryInt?, BinOp.AppliesToInts]

/-! ## Operators on all literals -/

theorem toList_repeated (s : String) (n : Nat) :
    (repeated s n).toList = (List.replicate n s.toList).flatten := by
  rw [repeated]
  split
  · rename_i h
    rw [String.isEmpty_iff.1 h]
    simp
  · rw [String.toList_join, List.flatMap_replicate]

/-- The test for the length of a repeated string. -/
theorem repeats_iff {s : String} {n : Int64} :
    ¬ (n.toInt < 0 || maxRepeated < s.utf8ByteSize * n.toInt.toNat) = true ↔
      0 ≤ n.toInt ∧ n.toInt * s.utf8ByteSize ≤ 65536 := by
  rw [Bool.or_eq_true, decide_eq_true_iff, decide_eq_true_iff, maxRepeated, not_or, not_lt, not_lt]
  refine and_congr_right fun hn => ?_
  rw [← Int.ofNat_le, Int.natCast_mul, Int.toNat_of_nonneg hn, Int.mul_comm]
  rfl

/-- A string is repeated if it is not repeated a negative number of times and does not get too long.
-/
theorem repeat?_eq_some_iff {s : String} {n : Int64} {v : Literal} :
    repeat? s n = some v ↔ ∃ t, v = .str t ∧ 0 ≤ n.toInt ∧ n.toInt * s.utf8ByteSize ≤ 65536 ∧
      t.toList = (List.replicate n.toInt.toNat s.toList).flatten := by
  rw [repeat?]
  by_cases h : (n.toInt < 0 || maxRepeated < s.utf8ByteSize * n.toInt.toNat) = true
  · rw [if_pos h]
    refine iff_of_false (by simp) ?_
    rintro ⟨t, -, hn, hlength, -⟩
    exact repeats_iff.2 ⟨hn, hlength⟩ h
  · obtain ⟨hn, hlength⟩ := repeats_iff.1 h
    rw [if_neg h, Option.some_inj, ← toList_repeated]
    constructor
    · rintro rfl
      exact ⟨_, rfl, hn, hlength, rfl⟩
    · rintro ⟨t, rfl, -, -, ht⟩
      rw [String.toList_inj.1 ht]

/-- What a binary operator gives for two literals is what its specification asks for. -/
theorem binary?_eq_some_iff {op : BinOp} {l r v : Literal} :
    binary? op l r = some v ↔ op.Result l r v := by
  cases l with
  | int l =>
    cases r with
    | int r =>
      cases v with
      | int n => exact binaryInt?_eq_some_int_iff
      | bool b => exact binaryInt?_eq_some_bool_iff
      | str s => exact iff_of_false binaryInt?_ne_some_str id
    | str _ | bool _ => cases v <;> simp [binary?, BinOp.Result]
  | bool l =>
    cases r with
    | bool r =>
      cases v <;> cases op <;> simp [binary?, BinOp.Result, BinOp.sameness?, bne, beq_eq_decide]
    | int _ | str _ => cases v <;> simp [binary?, BinOp.Result]
  | str l =>
    cases r with
    | str r =>
      cases v <;> cases op <;>
        simp [binary?, BinOp.Result, BinOp.sameness?, bne, beq_eq_decide, eq_comm]
    | int n =>
      rw [binary?, Option.ite_none_right_eq_some, repeat?_eq_some_iff]
      cases v <;> simp [BinOp.Result]
    | bool _ => cases v <;> simp [binary?, BinOp.Result]

theorem isSome_binary?_iff {op : BinOp} {l r : Literal} :
    (binary? op l r).isSome ↔ op.Applies l r := by
  cases l with
  | int l =>
    cases r with
    | int r => exact isSome_binaryInt?_iff
    | str _ | bool _ => simp [binary?, BinOp.Applies]
  | bool l =>
    cases r with
    | bool r => cases op <;> simp [binary?, BinOp.Applies]
    | int _ | str _ => simp [binary?, BinOp.Applies]
  | str l =>
    cases r with
    | str r => cases op <;> simp [binary?, BinOp.Applies]
    | int n =>
      rw [binary?, BinOp.Applies, ← repeats_iff, repeat?]
      split <;> simp_all
    | bool _ => simp [binary?, BinOp.Applies]

/-- What a prefix operator gives for a literal is what its specification asks for. -/
theorem unary?_eq_some_iff {op : UnOp} {x v : Literal} :
    unary? op x = some v ↔ op.Result x v := by
  cases x with
  | int x =>
    have hzero : (!x != 0) = decide (x.toInt = 0) := by
      rw [bne, Bool.not_not, beq_eq_decide, ← Int64.toInt_zero, Bool.decide_congr Int64.toInt_inj]
    have hbits (i : Nat) : (~~~x).toInt.testBit i = !x.toInt.testBit i := by
      simp only [testBit_toInt]
      split <;> simp_all
    cases op with
    | not => cases v <;> simp [unary?, truth?, UnOp.Result, hzero, eq_comm]
    | neg => cases v <;> simp [unary?, UnOp.Result, fit64?_eq_some_iff]
    | bitNot => cases v <;> simp [unary?, UnOp.Result, eq_iff_testBit_toInt hbits]
  | str s => cases op <;> cases v <;> simp [unary?, truth?, UnOp.Result]
  | bool x => cases op <;> cases v <;> simp [unary?, truth?, UnOp.Result, eq_comm]

theorem isSome_unary?_iff {op : UnOp} {x : Literal} : (unary? op x).isSome ↔ op.Applies x := by
  cases x with
  | int x =>
    have hge := x.le_toInt
    have hlt := x.toInt_lt
    cases op with
    | neg =>
      rw [unary?, Option.isSome_map, isSome_fit64?_iff, UnOp.Applies]
      exact ⟨fun h _ => h.2, fun h => ⟨by omega, h rfl⟩⟩
    | not | bitNot => simp [unary?, truth?, UnOp.Applies]
  | str s => cases op <;> simp [unary?, truth?, UnOp.Applies]
  | bool x => cases op <;> simp [unary?, truth?, UnOp.Applies]

/-- **Literals are computed exactly.**  An operator gives a literal if and only if that is its
result in unbounded arithmetic, and it gives one if and only if it applies to its operands; there is
no other way to end. -/
theorem operators_are_exact :
    (∀ (op : BinOp) (l r v : Literal), binary? op l r = some v ↔ op.Result l r v) ∧
    (∀ (op : BinOp) (l r : Literal), (binary? op l r).isSome ↔ op.Applies l r) ∧
    (∀ (op : UnOp) (x v : Literal), unary? op x = some v ↔ op.Result x v) ∧
    (∀ (op : UnOp) (x : Literal), (unary? op x).isSome ↔ op.Applies x) :=
  ⟨fun _ _ _ _ => binary?_eq_some_iff, fun _ _ _ => isSome_binary?_iff,
    fun _ _ _ => unary?_eq_some_iff, fun _ _ => isSome_unary?_iff⟩

end Literal

end EdgeScript
