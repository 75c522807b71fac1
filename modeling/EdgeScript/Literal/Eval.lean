import EdgeScript.Expr

/-!
# Computing with literals

`Literal.unary?` and `Literal.binary?` compute an operator on literal operands where the result is
exactly what the processor of the markup would compute, and nothing otherwise: integers must fit
into 64 bits, a quotient must be exact, and operands of different types are left alone.
-/

set_option autoImplicit false

namespace EdgeScript.Literal

/-- The 64-bit integer of the given value, if it fits. -/
def fit64? (n : Int) : Option Int64 :=
  if leastInt ≤ n ∧ n ≤ greatestInt then some (Int64.ofInt n) else none

/-- The quotient rounded toward zero, if there is one that fits. -/
def quotient? (l r : Int64) : Option Int64 :=
  if r = 0 then none else fit64? (l.toInt.tdiv r.toInt)

/-- Whether an integer is the length of a shift. -/
def isShift (n : Int64) : Bool :=
  0 ≤ n.toInt && n.toInt < 64

/-- A binary operator on integers. -/
def binaryInt? (op : BinOp) (l r : Int64) : Option Literal :=
  match op with
  | .add => (fit64? (l.toInt + r.toInt)).map .int
  | .sub => (fit64? (l.toInt - r.toInt)).map .int
  | .mul => (fit64? (l.toInt * r.toInt)).map .int
  | .div => (quotient? l r).bind fun q => if l.toInt.tmod r.toInt = 0 then some (.int q) else none
  | .mod => (quotient? l r).map fun _ => .int (Int64.ofInt (l.toInt.tmod r.toInt))
  | .shl => if isShift r then some (.int (l <<< r)) else none
  | .shr => if isShift r then some (.int (l >>> r)) else none
  | .bitAnd => some (.int (l &&& r))
  | .bitOr => some (.int (l ||| r))
  | .bitXor => some (.int (l ^^^ r))
  | .eq => some (.bool (l == r))
  | .ne => some (.bool (l != r))
  | .lt => some (.bool (l < r))
  | .le => some (.bool (l ≤ r))
  | .gt => some (.bool (r < l))
  | .ge => some (.bool (r ≤ l))
  | .and | .or => none

/-- The length in bytes up to which a repeated string is written out. -/
def maxRepeated : Nat := 65536

/-- A string repeated a number of times. -/
def repeated (s : String) (times : Nat) : String :=
  if s.isEmpty then "" else String.join (List.replicate times s)

/-- A string times an integer. -/
def repeat? (s : String) (n : Int64) : Option Literal :=
  if n.toInt < 0 || maxRepeated < s.utf8ByteSize * n.toInt.toNat then none
  else some (.str (repeated s n.toInt.toNat))

/-- A binary operator other than `&&` and `||` on two literals. -/
def binary? (op : BinOp) (left right : Literal) : Option Literal :=
  match left, right with
  | .int l, .int r => binaryInt? op l r
  | .str l, .str r =>
    match op with
    | .add => some (.str (l ++ r))
    | .eq => some (.bool (l == r))
    | .ne => some (.bool (l != r))
    | _ => none
  | .str s, .int n => if op = .mul then repeat? s n else none
  | .bool l, .bool r =>
    match op with
    | .eq => some (.bool (l == r))
    | .ne => some (.bool (l != r))
    | _ => none
  | _, _ => none

/-- A prefix operator on a literal. -/
def unary? (op : UnOp) (operand : Literal) : Option Literal :=
  match op, operand with
  | .not, v => v.truth?.map fun t => .bool (!t)
  | .neg, .int n => (fit64? (-n.toInt)).map .int
  | .bitNot, .int n => some (.int (~~~n))
  | _, _ => none

end EdgeScript.Literal
