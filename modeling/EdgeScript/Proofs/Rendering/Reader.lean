import EdgeScript.Token.Lexeme
import EdgeScript.Proofs.Rendering.Plain

/-!
# Reading expressions back

`readExpr` reads a plain expression from the front of a text of the markup.

An operand is a number, a string, a variable, a call, a list, or anything in parentheses.  An
expression is an operand, or one operator with its operands.  Where a piece of text ends can be seen
from the character behind it; the lemmas on numbers, strings, names and operators say for each which
characters may stand there.
-/

set_option autoImplicit false

namespace EdgeScript

namespace Markup

/-- What reads something from the front of a text and returns it with the rest. -/
abbrev Reader (α : Type) := List Char → Option (α × List Char)

/-- A text that does not go on with a character of the kind. -/
def Ends (p : Char → Bool) (rest : List Char) : Prop :=
  ∀ c ∈ rest.head?, p c = false

/-! ## Numbers -/

/-- The digits in front of a text as a number. -/
def readNat : Reader Nat := fun cs =>
  match cs.takeWhile Char.isDigit with
  | [] => none
  | digits => some (Nat.ofDigitChars 10 digits 0, cs.dropWhile Char.isDigit)

theorem takeWhile_append_of_ends {p : Char → Bool} {cs rest : List Char}
    (hcs : ∀ c ∈ cs, p c = true) (hrest : Ends p rest) :
    (cs ++ rest).takeWhile p = cs ∧ (cs ++ rest).dropWhile p = rest := by
  rw [List.takeWhile_append_of_pos hcs, List.dropWhile_append_of_pos hcs]
  cases rest with
  | nil => simp
  | cons c rest => simp [hrest c (by simp)]

theorem readNat_append (n : Nat) {rest : List Char} (hrest : Ends Char.isDigit rest) :
    readNat (Nat.toDigits 10 n ++ rest) = some (n, rest) := by
  have hdigits : ∀ c ∈ Nat.toDigits 10 n, c.isDigit = true := fun c hc =>
    Nat.isDigit_of_mem_toDigits (by decide) (by decide) hc
  obtain ⟨htake, hdrop⟩ := takeWhile_append_of_ends hdigits hrest
  rw [readNat, htake, hdrop]
  split
  · exact absurd ‹_› Nat.toDigits_ne_nil
  · rw [Nat.ofDigitChars_toDigits (by decide) (by decide)]

/-! ## Strings -/

/-- A string up to its end, with escapes taken back. -/
def readEscaped : Reader (List Char)
  | [] => none
  | '\'' :: cs => some ([], cs)
  | '\\' :: c :: cs => (readEscaped cs).map fun r => (c :: r.1, r.2)
  | c :: cs => (readEscaped cs).map fun r => (c :: r.1, r.2)

/-- A string up to three quotes. -/
def readRaw : Reader (List Char)
  | [] => none
  | '\'' :: '\'' :: '\'' :: cs => some ([], cs)
  | c :: cs => (readRaw cs).map fun r => (c :: r.1, r.2)

/-- A string in quotes of either kind, from behind the first quote. -/
def readString : Reader (List Char)
  | '\'' :: '\'' :: cs => readRaw cs
  | cs => readEscaped cs

theorem readEscaped_append (cs rest : List Char) :
    readEscaped (escapeQuotes cs ++ '\'' :: rest) = some (cs, rest) := by
  induction cs with
  | nil => rw [escapeQuotes, List.nil_append, readEscaped]
  | cons c cs ih =>
    rw [escapeQuotes]
    split
    · rw [List.cons_append, List.cons_append, readEscaped, ih]
      rfl
    · rename_i hc
      rw [List.cons_append, readEscaped, ih]
      · rfl
      · rintro rfl
        exact hc rfl
      · rintro c cs rfl
        exact absurd rfl hc

/-- Three quotes behind a text that neither has them nor ends with a quote are where it ends. -/
theorem not_quotes_of_append {c : Char} {cs rest after : List Char}
    (hinside : Text.occursIn ['\'', '\'', '\''] (c :: cs) = false)
    (hlast : (c :: cs).getLast? ≠ some '\'') (hc : c = '\'')
    (h : cs ++ '\'' :: '\'' :: '\'' :: rest = '\'' :: '\'' :: after) : False := by
  subst hc
  match cs with
  | [] => exact hlast rfl
  | [d] =>
    simp only [List.cons_append, List.cons.injEq] at h
    exact hlast (by rw [h.1]; rfl)
  | d :: d' :: cs =>
    simp only [List.cons_append, List.cons.injEq] at h
    rw [h.1, h.2.1] at hinside
    simp [Text.occursIn] at hinside

/-- A text that neither has three quotes nor ends with one can go without its first character. -/
theorem raw_of_cons {c : Char} {cs : List Char}
    (hinside : Text.occursIn ['\'', '\'', '\''] (c :: cs) = false)
    (hlast : (c :: cs).getLast? ≠ some '\'') :
    Text.occursIn ['\'', '\'', '\''] cs = false ∧ cs.getLast? ≠ some '\'' := by
  rw [Text.occursIn, Bool.or_eq_false_iff] at hinside
  refine ⟨hinside.2, ?_⟩
  cases cs with
  | nil => simp
  | cons d cs => simpa using hlast

theorem readRaw_append {cs : List Char} (rest : List Char)
    (hinside : Text.occursIn ['\'', '\'', '\''] cs = false) (hlast : cs.getLast? ≠ some '\'') :
    readRaw (cs ++ '\'' :: '\'' :: '\'' :: rest) = some (cs, rest) := by
  induction cs with
  | nil => rw [List.nil_append, readRaw]
  | cons c cs ih =>
    obtain ⟨hinside', hlast'⟩ := raw_of_cons hinside hlast
    rw [List.cons_append, readRaw, ih hinside' hlast']
    · rfl
    · exact fun after hc h => not_quotes_of_append hinside hlast hc h

theorem exists_quoteString_eq_cons (cs : List Char) :
    ∃ quoted, quoteString cs = '\'' :: quoted := by
  rw [quoteString]
  split <;> exact ⟨_, rfl⟩

/-- **A string is read back**, whichever way it is written, if no quote stands behind it. -/
theorem readString_append {cs quoted rest : List Char} (h : quoteString cs = '\'' :: quoted)
    (hrest : Ends (· == '\'') rest) : readString (quoted ++ rest) = some (cs, rest) := by
  rw [quoteString] at h
  split at h
  · rename_i hraw
    simp only [isRaw, Bool.and_eq_true, Bool.not_eq_true', bne_iff_ne] at hraw
    cases h
    simpa [readString] using readRaw_append rest hraw.1.1.2 hraw.2
  · cases h
    rw [List.append_assoc, List.singleton_append, readString]
    · exact readEscaped_append cs rest
    · intro after h
      cases cs with
      | nil =>
        simp only [escapeQuotes, List.nil_append, List.cons.injEq, true_and] at h
        simpa [h] using hrest '\''
      | cons c cs =>
        rw [escapeQuotes] at h
        split at h
        · simp at h
        · rename_i hc
          simp_all

/-! ## Operators between operands -/

/-- An operator between two operands. -/
inductive Connective where
  | binary (op : BinOp)
  | test (op : MatchOp)
deriving DecidableEq, Repr

namespace Connective

/-- How the operator is written. -/
def text : Connective → List Char
  | .binary op => op.symbol.toList
  | .test op => ' ' :: (op.keyword.toList ++ [' '])

/-- The operator applied to its operands. -/
def apply (left right : Expr) : Connective → Expr
  | .binary op => .binary op left right .none
  | .test op => .test op left right none .none

end Connective

/-- All operators between operands, each in front of those whose symbols its own starts with. -/
def connectives : List Connective :=
  [.binary .eq, .binary .ne, .binary .le, .binary .ge, .binary .shl, .binary .shr, .binary .and,
    .binary .or, .binary .lt, .binary .gt, .binary .bitAnd, .binary .bitOr, .binary .bitXor,
    .binary .add, .binary .sub, .binary .mul, .binary .div, .binary .mod, .test .pattern,
    .test .patternIgnoringCase, .test .part, .test .partIgnoringCase]

/-- The operator in front of a text; of two symbols the longer one counts. -/
def readConnective : Reader Connective := fun cs =>
  (connectives.find? fun op => op.text.isPrefixOf cs).map fun op => (op, cs.drop op.text.length)

/-- Whether an operand may start with the character. -/
def startsOperand (c : Char) : Bool :=
  c.isDigit || c == '\'' || c == '$' || c == '(' || c == '[' || c == '\x7b'

/-- No symbol goes on with the first character of an operand. -/
theorem readConnective_append (op : Connective) {c : Char} (hc : startsOperand c = true)
    (cs : List Char) : readConnective (op.text ++ c :: cs) = some (op, c :: cs) := by
  have hne (d : Char) (hd : startsOperand d = false) : [d].isPrefixOf (c :: cs) = false := by
    have hdc : d ≠ c := by
      rintro rfl
      rw [hd] at hc
      cases hc
    simp [List.isPrefixOf, hdc]
  cases op with
  | test op => cases op <;> rfl
  | binary op =>
    cases op with
    | lt | gt | bitAnd | bitOr =>
      simp [readConnective, connectives, Connective.text, BinOp.symbol, hne '=' rfl, hne '<' rfl,
        hne '>' rfl, hne '&' rfl, hne '|' rfl]
    | _ => rfl

/-! ## Expressions -/

/-- Items with commas between them, up to and with the closing character. -/
def readItems {α : Type} (item : Reader α) (closing : Char) : Nat → Reader (List α)
  | 0, _ => none
  | fuel + 1, cs =>
    match item cs with
    | some (x, c :: cs) =>
      if c = ',' then (readItems item closing fuel cs).map fun r => (x :: r.1, r.2)
      else if c = closing then some ([x], cs)
      else none
    | _ => none

/-- Items with commas between them, or none at all, up to and with the closing character. -/
def readList {α : Type} (item : Reader α) (closing : Char) (fuel : Nat) : Reader (List α)
  | [] => none
  | c :: cs => if c = closing then some ([], cs) else readItems item closing fuel (c :: cs)

/-- A key and its value. -/
def readEntry (expr : Reader Expr) : Reader (Expr × Expr) := fun cs =>
  match expr cs with
  | some (key, ':' :: cs) => (expr cs).map fun r => ((key, r.1), r.2)
  | _ => none

/-- An integer of scripts, without a sign. -/
def readNumber : Reader Expr := fun cs =>
  match readNat cs with
  | some (n, cs) => if (n : Int) ≤ greatestInt then some (.number n, cs) else none
  | none => none

/-- A variable, or an entry of it, from behind the parenthesis. -/
def readVariable (expr : Reader Expr) : Reader Expr := fun cs =>
  let name : Ident := ⟨String.ofList (cs.takeWhile Lexeme.isNamePart), .none⟩
  match cs.dropWhile Lexeme.isNamePart with
  | ')' :: cs => some (.ident name, cs)
  | '\x7b' :: cs =>
    match expr cs with
    | some (key, '\x7d' :: ')' :: cs) => some (.index (.ident name) key .none, cs)
    | _ => none
  | _ => none

/-- A call, from the name on. -/
def readCall (expr : Reader Expr) (fuel : Nat) : Reader Expr := fun cs =>
  let name : Ident := ⟨String.ofList (cs.takeWhile Lexeme.isNamePart), .none⟩
  match cs.dropWhile Lexeme.isNamePart with
  | '(' :: cs => (readList expr ')' fuel cs).map fun r => (.call name r.1 .none, r.2)
  | _ => none

/-- An operand, with `expr` for the expressions inside it. -/
def readOperand (expr : Reader Expr) (fuel : Nat) : Reader Expr
  | '(' :: cs =>
    match expr cs with
    | some (e, ')' :: cs) => some (e, cs)
    | _ => none
  | '[' :: cs => (readList expr ']' fuel cs).map fun r => (.array r.1 .none, r.2)
  | '\x7b' :: cs =>
    (readList (readEntry expr) '\x7d' fuel cs).map fun r => (.dict r.1 .none, r.2)
  | '$' :: '(' :: cs => readVariable expr cs
  | '$' :: cs => readCall expr fuel cs
  | '\'' :: cs => (readString cs).map fun r => (.lit (.str (String.ofList r.1)) .none, r.2)
  | cs => readNumber cs

/-- The operator that a character is in front of an operand. -/
def unOp? : Char → Option UnOp
  | '-' => some .neg
  | '!' => some .not
  | '~' => some .bitNot
  | _ => none

/-- The negation of an operand.  The least integer has no counterpart above zero, so a number behind
the sign may be larger than those of scripts. -/
def readNegated (operand : Reader Expr) : Reader Expr := fun cs =>
  match readNat cs with
  | some (0, cs) => some (.unary .neg (.number 0) .none, cs)
  | some (n, cs) => some (.number (-n), cs)
  | none => (operand cs).map fun r => (r.1.negated, r.2)

/-- An operand, or two with an operator between them. -/
def readOperation (operand : Reader Expr) : Reader Expr := fun cs =>
  match operand cs with
  | none => none
  | some (left, cs) =>
    match readConnective cs with
    | none => some (left, cs)
    | some (op, cs) => (operand cs).map fun r => (op.apply left r.1, r.2)

/-- An expression whose parts are nested no deeper than `fuel`. -/
def readExpr : Nat → Reader Expr
  | 0, _ => none
  | _ + 1, [] => none
  | fuel + 1, c :: cs =>
    let operand := readOperand (readExpr fuel) fuel
    match unOp? c with
    | none => readOperation operand (c :: cs)
    | some .neg => readNegated operand cs
    | some op => (operand cs).map fun r => (.unary op r.1 .none, r.2)

end Markup

end EdgeScript
