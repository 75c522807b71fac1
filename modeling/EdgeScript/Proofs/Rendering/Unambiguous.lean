import Mathlib.Data.List.Forall2
import EdgeScript.Proofs.Lexing.Name
import EdgeScript.Proofs.Rendering.Reader

/-!
# Texts of expressions are unambiguous

Whatever the expression language writes, `readExpr` reads back (`Expr.readBack_render`): it stops
right behind the text and returns the plain expression, as long as something stands there that ends
an expression.  So two expressions with the same text have the same plain form.

The reading of a text is stated for the text as the beginning of a longer one (`Reads`).  There are
two kinds: a text may be read as an expression, which a comma or a closing bracket must follow, or
as an operand, which an operator may follow as well.  Operators and negative numbers become operands
by parentheses.
-/

set_option autoImplicit false

namespace EdgeScript

namespace Markup

/-! ## Reading the beginning of a text -/

/-- Whether an expression may start with the character. -/
def startsExpr (c : Char) : Bool :=
  startsOperand c || (unOp? c).isSome

/-- Whether an operand may go on with the character. -/
def continuesOperand (c : Char) : Bool :=
  c.isDigit || c == '\''

/-- Whether an expression may go on with the character. -/
def continuesExpr (c : Char) : Bool :=
  !(c == ',' || c == ')' || c == ']' || c == '\x7d' || c == ':')

/-- The text starts with a character of the kind `first`, and the reader takes exactly it from the
front of any text that does not go on with a character of the kind `more`. -/
structure Reads {α : Type} (first more : Char → Bool) (reader : Nat → Reader α) (text : List Char)
    (x : α) : Prop where
  starts : ∃ c cs, text = c :: cs ∧ first c = true
  reads : ∀ fuel rest, text.length ≤ fuel → Ends more rest →
    reader fuel (text ++ rest) = some (x, rest)

/-- The reader of operands inside an expression. -/
def operandReader (fuel : Nat) : Reader Expr :=
  readOperand (readExpr (fuel - 1)) (fuel - 1)

/-- The text of an expression. -/
abbrev ReadsExpr := Reads startsExpr continuesExpr readExpr

/-- The text of an operand. -/
abbrev ReadsOperand := Reads startsOperand continuesOperand operandReader

theorem ends_cons {p : Char → Bool} {c : Char} (h : p c = false) (cs : List Char) :
    Ends p (c :: cs) := by
  intro d hd
  cases hd
  exact h

/-- Only commas, colons and closing brackets end an expression within a text. -/
theorem continuesExpr_eq_false {c : Char} (h : continuesExpr c = false) :
    c = ',' ∨ c = ')' ∨ c = ']' ∨ c = '\x7d' ∨ c = ':' := by
  simpa only [continuesExpr, Bool.not_eq_false', Bool.or_eq_true, beq_iff_eq, or_assoc] using h

/-- What ends an expression ends an operand. -/
theorem Ends.operand {rest : List Char} (h : Ends continuesExpr rest) :
    Ends continuesOperand rest := by
  intro c hc
  rcases continuesExpr_eq_false (h c hc) with rfl | rfl | rfl | rfl | rfl <;> rfl

theorem readConnective_eq_none {rest : List Char} (h : Ends continuesExpr rest) :
    readConnective rest = none := by
  cases rest with
  | nil => rfl
  | cons c rest => rcases continuesExpr_eq_false (h c rfl) with rfl | rfl | rfl | rfl | rfl <;> rfl

theorem ends_connective (op : Connective) (cs : List Char) :
    Ends continuesOperand (op.text ++ cs) := by
  cases op with
  | binary op => cases op <;> exact ends_cons rfl _
  | test op => exact ends_cons rfl _

/-- No operand starts like a prefix operator. -/
theorem unOp?_eq_none {c : Char} (hc : startsOperand c = true) : unOp? c = none := by
  rw [unOp?] <;> rintro rfl <;> simp [startsOperand] at hc

/-! ## Operands and operators -/

section Operands

variable {left right text : List Char} {e e' : Expr}

/-- What starts like an operand is read as one, with the operation behind it. -/
theorem readExpr_of_startsOperand {c : Char} (hc : startsOperand c = true) (fuel : Nat)
    (cs : List Char) :
    readExpr (fuel + 1) (c :: cs) = readOperation (operandReader (fuel + 1)) (c :: cs) := by
  simp only [readExpr, unOp?_eq_none hc]
  rfl

/-- An operand alone is an expression. -/
theorem Reads.expr (h : ReadsOperand text e) : ReadsExpr text e := by
  obtain ⟨c, cs, rfl, hc⟩ := h.starts
  refine ⟨⟨c, cs, rfl, by simp [startsExpr, hc]⟩, fun fuel rest hfuel hrest => ?_⟩
  cases fuel with
  | zero => simp at hfuel
  | succ fuel =>
    have hread := h.reads _ rest hfuel hrest.operand
    rw [List.cons_append] at hread ⊢
    rw [readExpr_of_startsOperand hc, readOperation, hread]
    simp only [readConnective_eq_none hrest]

/-- An expression in parentheses is an operand. -/
theorem Reads.parenthesized (h : ReadsExpr text e) : ReadsOperand ('(' :: (text ++ [')'])) e := by
  refine ⟨⟨_, _, rfl, rfl⟩, fun fuel rest hfuel _ => ?_⟩
  have hread := h.reads (fuel - 1) (')' :: rest)
    (by simp only [List.length_cons, List.length_append] at hfuel; omega) (ends_cons rfl _)
  simp [operandReader, readOperand, hread]

/-- Two operands with an operator between them are an expression. -/
theorem Reads.connective (op : Connective) (hleft : ReadsOperand left e)
    (hright : ReadsOperand right e') : ReadsExpr (left ++ op.text ++ right) (op.apply e e') := by
  obtain ⟨c, cs, rfl, hc⟩ := hleft.starts
  obtain ⟨d, ds, rfl, hd⟩ := hright.starts
  refine ⟨⟨c, _, rfl, by simp [startsExpr, hc]⟩, fun fuel rest hfuel hrest => ?_⟩
  cases fuel with
  | zero => simp at hfuel
  | succ fuel =>
    rw [List.length_append, List.length_append] at hfuel
    have hl := hleft.reads (fuel + 1) _ (by omega) (ends_connective op (d :: ds ++ rest))
    have hr := hright.reads (fuel + 1) rest (by omega) hrest.operand
    simp only [List.append_assoc, List.cons_append] at hl hr ⊢
    rw [readExpr_of_startsOperand hc, readOperation, hl]
    simp only [readConnective_append op hd, hr, Option.map_some]

/-- A sign other than a minus in front of an operand. -/
theorem Reads.signed {c : Char} {op : UnOp} (hc : unOp? c = some op) (hop : op ≠ .neg)
    (h : ReadsOperand text e) : ReadsExpr (c :: text) (.unary op e .none) := by
  refine ⟨⟨c, text, rfl, by simp [startsExpr, hc]⟩, fun fuel rest hfuel hrest => ?_⟩
  cases fuel with
  | zero => simp at hfuel
  | succ fuel =>
    have hread : readOperand (readExpr fuel) fuel (text ++ rest) = some (e, rest) :=
      h.reads (fuel + 1) rest (Nat.le_of_succ_le hfuel) hrest.operand
    cases op with
    | neg => exact absurd rfl hop
    | not | bitNot => simp [readExpr, hc, hread]

end Operands

/-! ## Numbers -/

theorem readOperand_of_readNat {expr : Reader Expr} {fuel n : Nat} {cs rest : List Char}
    (h : readNat cs = some (n, rest)) : readOperand expr fuel cs = readNumber cs := by
  cases cs with
  | nil => rfl
  | cons c cs =>
    have hc : c.isDigit = true := by
      by_contra hc
      simp [readNat, hc] at h
    unfold readOperand
    split
    case h_7 => rfl
    all_goals simp_all

/-- A minus sign in front of an operand negates it, also where the operand is a number. -/
theorem readNegated_readOperand {expr : Reader Expr} {fuel : Nat} {cs rest : List Char} {e : Expr}
    (h : readOperand expr fuel cs = some (e, rest)) :
    readNegated (readOperand expr fuel) cs = some (e.negated, rest) := by
  cases hnat : readNat cs with
  | none => simp [readNegated, hnat, h]
  | some r =>
    obtain ⟨n, after⟩ := r
    rw [readOperand_of_readNat hnat, readNumber, hnat] at h
    by_cases hle : (n : Int) ≤ greatestInt
    · simp only [hle, if_true, Option.some.injEq, Prod.mk.injEq] at h
      obtain ⟨rfl, rfl⟩ := h
      cases n with
      | zero =>
        rw [readNegated, hnat]
        rfl
      | succ n =>
        rw [readNegated, hnat, Expr.negated_number (by omega) hle]
        rfl
    · simp [hle] at h

/-- A sign in front of an operand is taken into it if it can be. -/
theorem Reads.negated {text : List Char} {e : Expr} (h : ReadsOperand text e) :
    ReadsExpr ('-' :: text) e.negated := by
  refine ⟨⟨_, _, rfl, rfl⟩, fun fuel rest hfuel hrest => ?_⟩
  cases fuel with
  | zero => simp at hfuel
  | succ fuel =>
    have hread := h.reads (fuel + 1) rest (Nat.le_of_succ_le hfuel) hrest.operand
    exact readNegated_readOperand hread

theorem Ends.digits {rest : List Char} (h : Ends continuesOperand rest) : Ends Char.isDigit rest :=
  fun c hc => (Bool.or_eq_false_iff.1 (h c hc)).1

theorem Ends.quotes {rest : List Char} (h : Ends continuesOperand rest) : Ends (· == '\'') rest :=
  fun c hc => (Bool.or_eq_false_iff.1 (h c hc)).2

theorem exists_toDigits_eq_cons (n : Nat) :
    ∃ c cs, Nat.toDigits 10 n = c :: cs ∧ c.isDigit = true := by
  cases h : Nat.toDigits 10 n with
  | nil => exact absurd h Nat.toDigits_ne_nil
  | cons c cs =>
    exact ⟨c, cs, rfl, Nat.isDigit_of_mem_toDigits (by decide) (by decide) (h ▸ List.mem_cons_self)⟩

/-- A number without a sign is read from its digits. -/
theorem readsOperand_digits {n : Nat} (hle : (n : Int) ≤ greatestInt) :
    ReadsOperand (Nat.toDigits 10 n) (.number n) := by
  obtain ⟨c, cs, htext, hc⟩ := exists_toDigits_eq_cons n
  refine ⟨⟨c, cs, htext, by simp [startsOperand, hc]⟩, fun fuel rest _ hrest => ?_⟩
  have hnat := readNat_append n hrest.digits
  rw [operandReader, readOperand_of_readNat hnat, readNumber, hnat]
  simp only [hle, if_true]

/-- A number with a sign is read as one number.  `readsOperand_digits` does not apply: without its
sign the least number would be too large by one. -/
theorem readsExpr_negative {n : Nat} (hpos : n ≠ 0) :
    ReadsExpr ('-' :: Nat.toDigits 10 n) (.number (-n)) := by
  refine ⟨⟨_, _, rfl, rfl⟩, fun fuel rest hfuel hrest => ?_⟩
  cases fuel with
  | zero => simp at hfuel
  | succ fuel =>
    have hnat := readNat_append n hrest.operand.digits
    cases n with
    | zero => exact absurd rfl hpos
    | succ n => simp [readExpr, unOp?, readNegated, hnat]

theorem toList_toString_natCast (n : Nat) : (toString (n : Int)).toList = Nat.toDigits 10 n := by
  rw [Int.toString_eq_repr]
  exact String.toList_ofList

theorem readsOperand_integer {n : Int} (hpos : 0 ≤ n) (hle : n ≤ greatestInt) :
    ReadsOperand (toString n).toList (.number n) := by
  obtain ⟨m, rfl⟩ := Int.eq_ofNat_of_zero_le hpos
  rw [toList_toString_natCast]
  exact readsOperand_digits hle

/-- **Integers are read back.** -/
theorem readsExpr_integer {n : Int} (hle : n ≤ greatestInt) :
    ReadsExpr (toString n).toList (.number n) := by
  cases n with
  | ofNat n => exact (readsOperand_integer (Int.natCast_nonneg n) hle).expr
  | negSucc n =>
    have htext : (toString (Int.negSucc n)).toList = '-' :: Nat.toDigits 10 n.succ := by
      simp [Int.toString_eq_repr, Int.repr]
    rw [htext]
    exact readsExpr_negative (Nat.succ_ne_zero n)

/-! ## Strings, variables and calls -/

/-- A string is read back whatever is in it, as quotes are doubled in it. -/
theorem readsOperand_string (s : String) :
    ReadsOperand (quoteString s.toList) (.lit (.str s) .none) := by
  obtain ⟨quoted, hquoted⟩ := exists_quoteString_eq_cons s.toList
  refine ⟨⟨_, quoted, hquoted, rfl⟩, fun fuel rest _ hrest => ?_⟩
  have hread := readString_append hquoted hrest.quotes
  rw [hquoted, List.cons_append, operandReader, readOperand, hread]
  simp only [Option.map_some, String.ofList_toList]

/-- A name ends where a character stands that cannot be part of one. -/
theorem readName_append {name : String} (hname : Lexeme.IsName name) {c : Char}
    (hc : Lexeme.isNamePart c = false) (cs : List Char) :
    String.ofList ((name.toList ++ c :: cs).takeWhile Lexeme.isNamePart) = name ∧
      (name.toList ++ c :: cs).dropWhile Lexeme.isNamePart = c :: cs := by
  obtain ⟨htake, hdrop⟩ := takeWhile_append_of_ends hname.2 (ends_cons hc cs)
  exact ⟨by rw [htake, String.ofList_toList], hdrop⟩

/-- A variable is read from its name in parentheses. -/
theorem readsOperand_variable {name : String} (hname : Lexeme.IsName name) :
    ReadsOperand ('$' :: '(' :: (name.toList ++ [')'])) (.ident ⟨name, .none⟩) := by
  refine ⟨⟨_, _, rfl, rfl⟩, fun fuel rest _ _ => ?_⟩
  obtain ⟨htake, hdrop⟩ :=
    readName_append hname (show Lexeme.isNamePart ')' = false by decide +kernel) rest
  simp only [operandReader, List.cons_append, List.append_assoc, List.nil_append, readOperand,
    readVariable, htake, hdrop]

/-- An entry of a variable. -/
theorem readsOperand_entry {name : String} (hname : Lexeme.IsName name) {key : List Char} {k : Expr}
    (h : ReadsExpr key k) :
    ReadsOperand ('$' :: '(' :: (name.toList ++ '\x7b' :: (key ++ ['\x7d', ')'])))
      (.index (.ident ⟨name, .none⟩) k .none) := by
  refine ⟨⟨_, _, rfl, rfl⟩, fun fuel rest hfuel _ => ?_⟩
  have hkey := h.reads (fuel - 1) ('\x7d' :: ')' :: rest)
    (by simp only [List.length_cons, List.length_append] at hfuel; omega) (ends_cons rfl _)
  obtain ⟨htake, hdrop⟩ :=
    readName_append hname (show Lexeme.isNamePart '\x7b' = false by decide +kernel)
    (key ++ '\x7d' :: ')' :: rest)
  simp only [operandReader, List.cons_append, List.append_assoc, List.nil_append, readOperand,
    readVariable, htake, hdrop, hkey]

/-! ## Lists and dictionaries -/

section Lists

variable {α : Type} {reader : Nat → Reader α} {closing : Char} {texts : List String} {xs : List α}

/-- Whether a list may end with the character. -/
def closesList (c : Char) : Bool :=
  c == ')' || c == ']' || c == '\x7d'

/-- A closing bracket starts no item and continues none. -/
theorem not_more_of_closesList {c : Char} (h : closesList c = true) :
    startsExpr c = false ∧ continuesExpr c = false ∧ c ≠ ',' := by
  simp only [closesList, Bool.or_eq_true, beq_iff_eq] at h
  rcases h with (rfl | rfl) | rfl <;> decide

theorem toList_joinWith_cons (sep t t' : String) (texts : List String) :
    (Text.joinWith sep (t :: t' :: texts)).toList =
      t.toList ++ (sep.toList ++ (Text.joinWith sep (t' :: texts)).toList) := by
  rw [Text.joinWith]
  · simp
  · simp

theorem exists_joinWith_eq_cons {t : String} {c : Char} {cs : List Char} (h : t.toList = c :: cs)
    (texts : List String) : ∃ ds, (Text.joinWith "," (t :: texts)).toList = c :: ds := by
  cases texts with
  | nil => exact ⟨cs, h⟩
  | cons t' texts =>
    rw [toList_joinWith_cons, h]
    exact ⟨_, rfl⟩

/-- Items between commas are read one by one, by induction on the texts. -/
theorem readItems_append (hclosing : closesList closing = true)
    (h : List.Forall₂ (fun t x => Reads startsExpr continuesExpr reader t.toList x) texts xs)
    (htexts : texts ≠ [])
    {fuel items : Nat} (rest : List Char) (hfuel : (Text.joinWith "," texts).toList.length ≤ fuel)
    (hitems : (Text.joinWith "," texts).toList.length ≤ items) :
    readItems (reader fuel) closing items ((Text.joinWith "," texts).toList ++ closing :: rest) =
      some (xs, rest) := by
  obtain ⟨-, hmore, hne⟩ := not_more_of_closesList hclosing
  induction h generalizing items with
  | nil => exact absurd rfl htexts
  | @cons t x texts xs hx hxs ih =>
    obtain ⟨c, cs, htext, -⟩ := hx.starts
    cases hxs with
    | nil =>
      rw [Text.joinWith] at hfuel hitems ⊢
      cases items with
      | zero => simp [htext] at hitems
      | succ items =>
        have hread := hx.reads fuel (closing :: rest) hfuel (ends_cons hmore rest)
        simp only [readItems, hread, if_neg hne, if_true]
    | @cons t' y texts xs hy hys =>
      rw [toList_joinWith_cons] at hfuel hitems ⊢
      simp only [List.length_append] at hfuel hitems
      cases items with
      | zero => simp [htext] at hitems
      | succ items =>
        have hread :=
          hx.reads fuel (',' :: ((Text.joinWith "," (t' :: texts)).toList ++ closing :: rest))
          (by omega) (ends_cons rfl _)
        have hmany : readItems (reader fuel) closing items
            ((Text.joinWith "," (t' :: texts)).toList ++ closing :: rest) = some (y :: xs, rest) :=
          ih (List.cons_ne_nil t' texts) (by omega)
            (by rw [htext, List.length_cons] at hitems; omega)
        rw [List.append_assoc, List.append_assoc, readItems]
        simp only [show ",".toList = [','] from rfl, List.singleton_append, hread, if_true, hmany,
          Option.map_some]

/-- **Lists are read back.** -/
theorem readList_append (hclosing : closesList closing = true)
    (h : List.Forall₂ (fun t x => Reads startsExpr continuesExpr reader t.toList x) texts xs)
    {fuel : Nat} (rest : List Char) (hfuel : (Text.joinWith "," texts).toList.length ≤ fuel) :
    readList (reader fuel) closing fuel ((Text.joinWith "," texts).toList ++ closing :: rest) =
      some (xs, rest) := by
  cases texts with
  | nil =>
    cases h
    simp [Text.joinWith, readList]
  | cons t texts =>
    have hitems := readItems_append hclosing h (List.cons_ne_nil t texts) rest hfuel hfuel
    obtain _ | ⟨hx, -⟩ := h
    obtain ⟨c, cs, htext, hc⟩ := hx.starts
    obtain ⟨ds, hjoined⟩ := exists_joinWith_eq_cons htext texts
    have hne : c ≠ closing := by
      rintro rfl
      rw [(not_more_of_closesList hclosing).1] at hc
      cases hc
    rw [hjoined, List.cons_append] at hitems ⊢
    rw [readList, if_neg hne, hitems]

end Lists

/-- An array is read if its elements are. -/
theorem readsOperand_array {texts : List String} {es : List Expr}
    (h : List.Forall₂ (fun t e => ReadsExpr t.toList e) texts es) :
    ReadsOperand ('[' :: ((Text.joinWith "," texts).toList ++ [']'])) (.array es .none) := by
  refine ⟨⟨_, _, rfl, rfl⟩, fun fuel rest hfuel _ => ?_⟩
  simp only [List.length_cons, List.length_append] at hfuel
  have hread :=
    readList_append (show closesList ']' = true from rfl) h rest (show _ ≤ fuel - 1 by omega)
  simp only [operandReader, List.cons_append, List.append_assoc, List.nil_append, readOperand,
    hread, Option.map_some]

/-- The text of a key with its value. -/
abbrev ReadsEntry := Reads startsExpr continuesExpr fun fuel => readEntry (readExpr fuel)

/-- An entry is read from its key and its value, which end at the colon and behind it. -/
theorem Reads.entry {key value : List Char} {k v : Expr} (hkey : ReadsExpr key k)
    (hvalue : ReadsExpr value v) : ReadsEntry (key ++ ':' :: value) (k, v) := by
  obtain ⟨c, cs, htext, hc⟩ := hkey.starts
  refine ⟨⟨c, cs ++ ':' :: value, by rw [htext, List.cons_append], hc⟩,
    fun fuel rest hfuel hrest => ?_⟩
  simp only [List.length_append, List.length_cons] at hfuel
  have hk := hkey.reads fuel (':' :: (value ++ rest)) (by omega) (ends_cons rfl _)
  have hv := hvalue.reads fuel rest (by omega) hrest
  rw [List.append_assoc, List.cons_append, readEntry, hk]
  simp only [hv, Option.map_some]

/-- A dictionary is read if its entries are. -/
theorem readsOperand_dict {texts : List String} {entries : List (Expr × Expr)}
    (h : List.Forall₂ (fun t e => ReadsEntry t.toList e) texts entries) :
    ReadsOperand ('\x7b' :: ((Text.joinWith "," texts).toList ++ ['\x7d']))
      (.dict entries .none) := by
  refine ⟨⟨_, _, rfl, rfl⟩, fun fuel rest hfuel _ => ?_⟩
  simp only [List.length_cons, List.length_append] at hfuel
  have hread :=
    readList_append (show closesList '\x7d' = true from rfl) h rest (show _ ≤ fuel - 1 by omega)
  simp only [operandReader, List.cons_append, List.append_assoc, List.nil_append, readOperand,
    hread, Option.map_some]

/-- A call is read if its arguments are. -/
theorem readsOperand_call {name : String} (hname : Lexeme.IsName name) {texts : List String}
    {args : List Expr} (h : List.Forall₂ (fun t e => ReadsExpr t.toList e) texts args) :
    ReadsOperand ('$' :: (name.toList ++ '(' :: ((Text.joinWith "," texts).toList ++ [')'])))
      (.call ⟨name, .none⟩ args .none) := by
  refine ⟨⟨_, _, rfl, rfl⟩, fun fuel rest hfuel _ => ?_⟩
  simp only [List.length_cons, List.length_append] at hfuel
  have hread :=
    readList_append (show closesList ')' = true from rfl) h rest (show _ ≤ fuel - 1 by omega)
  obtain ⟨htake, hdrop⟩ :=
    readName_append hname (show Lexeme.isNamePart '(' = false by decide +kernel)
    ((Text.joinWith "," texts).toList ++ ')' :: rest)
  rw [operandReader]
  simp only [List.cons_append, List.append_assoc, List.nil_append]
  -- The name is not empty, so no parenthesis follows the dollar sign.
  rw [readOperand]
  · simp only [readCall, htake, hdrop, hread, Option.map_some]
  · intro cs hcs
    obtain ⟨c, name, hchars⟩ := List.exists_cons_of_ne_nil hname.1
    have hc := hname.2 c (by simp [hchars])
    rw [hchars, List.cons_append, List.cons.injEq] at hcs
    rw [hcs.1] at hc
    exact absurd hc (by decide +kernel)

/-! ## Everything the expression language writes -/

end Markup

namespace Expr

open Markup

/-- The name of a variable or of a function that is called. -/
def name? : Expr → Option String
  | .ident id => some id.name
  | .call callee _ _ => some callee.name
  | _ => none

/-- Nodes of expressions among which the variables and functions have names of scripts. -/
def NamesIn (parts : List Expr) : Prop :=
  ∀ part ∈ parts, ∀ name ∈ part.name?, Lexeme.IsName name

instance (parts : List Expr) : Decidable (NamesIn parts) :=
  inferInstanceAs (Decidable (∀ part ∈ parts, ∀ name ∈ part.name?, Lexeme.IsName name))

/-- An expression whose variables and functions have names of scripts. -/
def WellNamed (e : Expr) : Prop :=
  NamesIn e.subterms

instance (e : Expr) : Decidable e.WellNamed := inferInstanceAs (Decidable (NamesIn e.subterms))

theorem namesIn_cons {e : Expr} {parts : List Expr} :
    NamesIn (e :: parts) ↔ (∀ name ∈ e.name?, Lexeme.IsName name) ∧ NamesIn parts :=
  List.forall_mem_cons

theorem namesIn_append {parts parts' : List Expr} :
    NamesIn (parts ++ parts') ↔ NamesIn parts ∧ NamesIn parts' :=
  List.forall_mem_append

/-- The text of an expression can be read back, and so can what is written if the expression is an
operand. -/
structure ReadBack (e : Expr) (text : String) : Prop where
  expr : ReadsExpr text.toList e.plain
  operand : ReadsOperand (operandText .expression e text).toList e.plain

/-- What is read as an operand is read back, also where it is put in parentheses. -/
theorem ReadBack.of_operand {e : Expr} {text : String} (h : ReadsOperand text.toList e.plain) :
    ReadBack e text := by
  refine ⟨h.expr, ?_⟩
  rw [operandText]
  split
  · simpa [parenthesized] using h.expr.parenthesized
  · exact h

/-- What stands in parentheses as an operand needs to be read as an expression only. -/
theorem ReadBack.of_enclosed {e : Expr} {text : String} (he : e.isEnclosed = true)
    (h : ReadsExpr text.toList e.plain) : ReadBack e text := by
  refine ⟨h, ?_⟩
  rw [operandText_expression, if_pos he]
  simpa [parenthesized] using h.parenthesized

/-- The text of a literal is read back. -/
theorem readBack_literal (value : Literal) (span : Span) :
    ReadBack (.lit value span) (value.render .expression) := by
  cases value with
  | bool b =>
    refine .of_operand ?_
    cases b with
    | false => exact readsOperand_integer (n := 0) (by decide) (by decide)
    | true => exact readsOperand_integer (n := 1) (by decide) (by decide)
  | int n =>
    have hplain : plain (.lit (.int n) span) = number n.toInt := by
      rw [number, Int64.ofInt_toInt]
      rfl
    by_cases hn : n.toInt < 0
    · refine .of_enclosed (by simpa [isEnclosed, isNegative] using .inr hn) ?_
      rw [hplain]
      exact readsExpr_integer (toInt_le_greatestInt n)
    · refine .of_operand ?_
      rw [hplain]
      exact readsOperand_integer (Int.not_lt.1 hn) (toInt_le_greatestInt n)
  | str s =>
    refine .of_operand ?_
    have h := readsOperand_string s
    simpa [Literal.render, plain, bottomUp, plainNode] using h

/-- The text of a range is read back as the list of its numbers. -/
theorem readBack_range {ctx : RenderContext} {first last : Expr} {span : Span} {text : String}
    (h : renderRange ctx first last span = .ok text) : ReadBack (.range first last span) text := by
  obtain ⟨a, b, hplain, rfl⟩ := renderRange_eq_ok h
  have helements : List.Forall₂ (fun t e => ReadsExpr t.toList e) ((rangeElements a b).map toString)
      ((rangeElements a b).map number) := by
    rw [List.forall₂_map_left_iff, List.forall₂_map_right_iff, List.forall₂_same]
    exact fun n hn => readsExpr_integer (bounds_of_mem_rangeElements hn).2
  have harray := readsOperand_array helements
  refine .of_operand ?_
  simpa [hplain] using harray

mutual

/-- **What is written is read back.** -/
theorem readBack_render (ctx : RenderContext) : ∀ {e : Expr} {text : String}, e.WellNamed →
    e.render ctx .expression = .ok text → ReadBack e text
  | .lit value span, text, _, h => by
    rw [render] at h
    cases h
    exact readBack_literal value span
  | .ident id, text, he, h => by
    rw [render] at h
    cases h
    rw [WellNamed, subterms, namesIn_cons] at he
    have hread := readsOperand_variable (he.1 id.name rfl)
    refine .of_operand ?_
    simpa using hread
  | .binary op left right span, text, he, h => by
    rw [render] at h
    obtain ⟨l, hl, h⟩ := bind_eq_ok.1 h
    obtain ⟨r, hr, h⟩ := bind_eq_ok.1 h
    rw [if_neg (by simp)] at h
    cases h
    rw [WellNamed, subterms, namesIn_cons, namesIn_append] at he
    have hread := (readBack_render ctx he.2.1 hl).operand.connective (.binary op)
      (readBack_render ctx he.2.2 hr).operand
    refine .of_enclosed rfl ?_
    simpa [Connective.text, Connective.apply] using hread
  | .unary op operand span, text, he, h => by
    rw [render] at h
    obtain ⟨t, ht, h⟩ := bind_eq_ok.1 h
    cases h
    rw [WellNamed, subterms, namesIn_cons] at he
    have hoperand := (readBack_render ctx he.2 ht).operand
    refine .of_enclosed rfl ?_
    rw [prefixedText_expression, String.toList_append]
    cases op with
    | neg =>
      rw [plain_neg]
      exact hoperand.negated
    | not =>
      rw [plain_unary (by decide)]
      exact hoperand.signed (c := '!') rfl (by decide)
    | bitNot =>
      rw [plain_unary (by decide)]
      exact hoperand.signed (c := '~') rfl (by decide)
  | .test op subject pattern capture span, text, he, h => by
    rw [render] at h
    obtain ⟨s, hs, h⟩ := bind_eq_ok.1 h
    obtain ⟨p, hp, h⟩ := bind_eq_ok.1 h
    cases h
    rw [WellNamed, subterms, namesIn_cons, namesIn_append] at he
    have hread := (readBack_render ctx he.2.1 hs).operand.connective (.test op)
      (readBack_render ctx he.2.2 hp).operand
    refine .of_enclosed rfl ?_
    simpa [Connective.text, Connective.apply] using hread
  | .call callee args span, text, he, h => by
    rw [render] at h
    split at h
    · cases h
    · obtain ⟨texts, htexts, h⟩ := bind_eq_ok.1 h
      cases h
      rw [WellNamed, subterms, namesIn_cons] at he
      have hread := readsOperand_call (he.1 callee.name rfl) (readBack_renderAll ctx he.2 htexts)
      refine .of_operand ?_
      simpa using hread
  | .index target key span, text, he, h => by
    rw [WellNamed, subterms, namesIn_cons, namesIn_append] at he
    cases target with
    | ident id =>
      rw [render] at h
      obtain ⟨k, hk, h⟩ := bind_eq_ok.1 h
      cases h
      rw [subterms, namesIn_cons] at he
      have hread := readsOperand_entry (he.2.1.1 id.name rfl) (readBack_render ctx he.2.2 hk).expr
      refine .of_operand ?_
      simpa using hread
    | _ =>
      rw [render] at h
      · cases h
      · intro id hid
        cases hid
  | .range first last span, text, _, h => by
    rw [render] at h
    exact readBack_range h
  | .array elements span, text, he, h => by
    rw [render] at h
    obtain ⟨texts, htexts, h⟩ := bind_eq_ok.1 h
    cases h
    rw [WellNamed, subterms, namesIn_cons] at he
    have hread := readsOperand_array (readBack_renderAll ctx he.2 htexts)
    refine .of_operand ?_
    simpa using hread
  | .dict entries span, text, he, h => by
    rw [render] at h
    obtain ⟨texts, htexts, h⟩ := bind_eq_ok.1 h
    cases h
    rw [WellNamed, subterms, namesIn_cons] at he
    have hread := readsOperand_dict (readBack_renderEntries ctx he.2 htexts)
    refine .of_operand ?_
    simpa using hread

/-- The texts of arguments and elements are read back, each by itself. -/
theorem readBack_renderAll (ctx : RenderContext) : ∀ {es : List Expr} {texts : List String},
    NamesIn (subtermsAll es) → renderAll ctx es = .ok texts →
    List.Forall₂ (fun t e => ReadsExpr t.toList e) texts (es.map plain)
  | [], texts, _, h => by
    rw [renderAll] at h
    cases h
    exact .nil
  | e :: es, texts, hes, h => by
    rw [renderAll] at h
    obtain ⟨text, he, h⟩ := bind_eq_ok.1 h
    obtain ⟨rest, hrest, h⟩ := bind_eq_ok.1 h
    cases h
    rw [subtermsAll, namesIn_append] at hes
    exact .cons (readBack_render ctx hes.1 he).expr (readBack_renderAll ctx hes.2 hrest)

theorem readBack_renderEntries (ctx : RenderContext) :
    ∀ {entries : List (Expr × Expr)} {texts : List String}, NamesIn (subtermsEntries entries) →
    renderEntries ctx entries = .ok texts →
    List.Forall₂ (fun t e => ReadsEntry t.toList e) texts (entries.map (Prod.map plain plain))
  | [], texts, _, h => by
    rw [renderEntries] at h
    cases h
    exact .nil
  | (key, value) :: entries, texts, hentries, h => by
    rw [renderEntries] at h
    obtain ⟨k, hk, h⟩ := bind_eq_ok.1 h
    obtain ⟨v, hv, h⟩ := bind_eq_ok.1 h
    obtain ⟨rest, hrest, h⟩ := bind_eq_ok.1 h
    cases h
    rw [subtermsEntries, namesIn_append, namesIn_append] at hentries
    have hread :=
      (readBack_render ctx hentries.1.1 hk).expr.entry (readBack_render ctx hentries.1.2 hv).expr
    refine .cons ?_ (readBack_renderEntries ctx hentries.2 hrest)
    simpa using hread

end

/-- The text of an expression determines the plain expression. -/
theorem readExpr_render {ctx : RenderContext} {e : Expr} {text : String} (he : e.WellNamed)
    (h : e.render ctx .expression = .ok text) :
    readExpr text.toList.length text.toList = some (e.plain, []) := by
  have hends : Ends continuesExpr [] := by simp [Ends]
  have hread := (readBack_render ctx he h).expr.reads _ [] (Nat.le_refl _) hends
  simpa using hread

/-- **Texts of expressions are unambiguous.**  Two expressions have the same text exactly if they
are the same but for places, captures, and what plain expressions write as numbers or lists. -/
theorem rendering_is_unambiguous {ctx ctx' : RenderContext} {e e' : Expr} {text text' : String}
    (he : e.WellNamed) (he' : e'.WellNamed) (h : e.render ctx .expression = .ok text)
    (h' : e'.render ctx' .expression = .ok text') : text = text' ↔ e.plain = e'.plain := by
  constructor
  · rintro rfl
    have hread := (readExpr_render he h).symm.trans (readExpr_render he' h')
    simpa using hread
  · intro hplain
    have htext := (plainText_render h).render_eq
    rw [hplain, (plainText_render h').render_eq] at htext
    simpa using htext.symm

/-- A negation and a range, and the negative number and the list that are written alike. -/
theorem rendering_is_unambiguous_negation :
    let x : Expr := .ident ⟨"x", ⟨0, 1, 0⟩⟩
    let five : Expr := .unary .neg (.lit (.int 5) ⟨6, 7, 0⟩) ⟨5, 7, 0⟩
    let bounds : Expr := .range (.lit (.int 1) ⟨10, 11, 0⟩) (.lit (.int 2) ⟨13, 14, 0⟩) ⟨10, 14, 0⟩
    let e : Expr := .binary .sub x (.binary .add five bounds ⟨5, 14, 0⟩) ⟨0, 15, 0⟩
    let list : Expr := .array [.lit (.bool true) .none, .lit (.int 2) .none] .none
    let e' : Expr := .binary .sub x (.binary .add (.lit (.int (-5)) .none) list .none) .none
    e.render ⟨[], 10⟩ .expression = .ok "$(x)-((-5)+[1,2])" ∧
      e'.render ⟨["f"], 0⟩ .expression = .ok "$(x)-((-5)+[1,2])" ∧ e.plain = e'.plain := by
  intro x five bounds e list e'
  have he : e.WellNamed := by decide +kernel
  have he' : e'.WellNamed := by decide +kernel
  have h : e.render ⟨[], 10⟩ .expression = .ok "$(x)-((-5)+[1,2])" := by decide +kernel
  have h' : e'.render ⟨["f"], 0⟩ .expression = .ok "$(x)-((-5)+[1,2])" := by decide +kernel
  exact ⟨h, h', (rendering_is_unambiguous he he' h h').1 rfl⟩

end Expr

end EdgeScript
