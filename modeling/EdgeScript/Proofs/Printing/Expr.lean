import Mathlib.Data.List.Forall2
import EdgeScript.Expr
import EdgeScript.Proofs.Printing.Token

/-!
# Writing expressions

`Expr.kinds` writes an expression as tokens, with parentheses only where the grammar would group the
operands in another way: around an operand of a binary operator or a test that binds less tightly,
and on the right also around one that binds as tightly; around the operand of a prefix operator and
the target of an index if they are put together by operators; and around the key of an entry, unless
it is a string.

All expressions without captures can be written, if their numbers have no sign and their names are
names (`Expr.Writable`).  What is read again has other places than before, so the two are compared
without them (`Expr.unplaced`).
-/

set_option autoImplicit false

namespace EdgeScript

/-! ## Operators -/

/-- The token of an operator between two operands. -/
def BinOp.token : BinOp → TokenKind
  | .add => .symbol .plus
  | .sub => .symbol .minus
  | .mul => .symbol .star
  | .div => .symbol .slash
  | .mod => .symbol .percent
  | .eq => .symbol .eqEq
  | .ne => .symbol .notEq
  | .lt => .symbol .less
  | .le => .symbol .lessEq
  | .gt => .symbol .greater
  | .ge => .symbol .greaterEq
  | .and => .symbol .andAnd
  | .or => .symbol .orOr
  | .bitAnd => .symbol .and
  | .bitOr => .symbol .or
  | .bitXor => .symbol .caret
  | .shl => .symbol .shiftLeft
  | .shr => .symbol .shiftRight

/-- The token of an operator in front of its operand. -/
def UnOp.token : UnOp → TokenKind
  | .neg => .symbol .minus
  | .not => .symbol .not
  | .bitNot => .symbol .tilde

/-- The token of a test. -/
def MatchOp.token : MatchOp → TokenKind
  | .pattern => .keyword .matches_
  | .patternIgnoringCase => .keyword .matchesI
  | .part => .keyword .has
  | .partIgnoringCase => .keyword .hasI

/-- The token of a literal. -/
def Literal.token : Literal → TokenKind
  | .int value => .int value
  | .str value => .str value
  | .bool true => .keyword .true_
  | .bool false => .keyword .false_

/-! ## Expressions -/

/-- Tokens in parentheses. -/
def TokenKind.inParens (ks : List TokenKind) : List TokenKind :=
  .symbol .openParen :: (ks ++ [.symbol .closeParen])

/-- Tokens in brackets. -/
def TokenKind.inBrackets (ks : List TokenKind) : List TokenKind :=
  .symbol .openBracket :: (ks ++ [.symbol .closeBracket])

/-- Tokens in braces. -/
def TokenKind.inBraces (ks : List TokenKind) : List TokenKind :=
  .symbol .openBrace :: (ks ++ [.symbol .closeBrace])

/-- Items with commas between them. -/
def TokenKind.joined : List (List TokenKind) → List TokenKind
  | [] => []
  | item :: more => item ++ more.flatMap (.symbol .comma :: ·)

namespace Expr

open TokenKind

/-- How tightly the binary operator or the test on top of an expression binds, if there is one. -/
def precedence? : Expr → Option Nat
  | .binary op _ _ _ => op.token.precedence?
  | .test op _ _ _ _ => op.token.precedence?
  | _ => none

/-- Whether the expression binds less tightly than the operator that has it for its left operand. -/
def enclosedOnLeft (operator : TokenKind) (e : Expr) : Bool :=
  e.precedence?.any fun p => operator.precedence?.any (p < ·)

/-- Whether the expression binds no more tightly than the operator that has it for its right
operand. -/
def enclosedOnRight (operator : TokenKind) (e : Expr) : Bool :=
  e.precedence?.any fun p => operator.precedence?.any (p ≤ ·)

/-- Whether the expression is a string. -/
def isString : Expr → Bool
  | .lit (.str _) _ => true
  | _ => false

/-- Tokens, in parentheses if they need them. -/
def enclosedIf (needed : Bool) (ks : List TokenKind) : List TokenKind :=
  if needed then inParens ks else ks

mutual

/-- The tokens of an expression. -/
def kinds : Expr → List TokenKind
  | .lit value _ => [value.token]
  | .ident id => [.ident id.name]
  | .binary op left right _ =>
    enclosedIf (left.enclosedOnLeft op.token) (kinds left) ++
      op.token :: enclosedIf (right.enclosedOnRight op.token) (kinds right)
  | .unary op operand _ => op.token :: enclosedIf operand.precedence?.isSome (kinds operand)
  | .test op subject pattern _ _ =>
    enclosedIf (subject.enclosedOnLeft op.token) (kinds subject) ++
      op.token :: enclosedIf (pattern.enclosedOnRight op.token) (kinds pattern)
  | .call callee args _ => .ident callee.name :: inParens (joined (kindsAll args))
  | .index target key _ => enclosedIf target.isOperator (kinds target) ++ inBrackets (kinds key)
  | .range first last _ => inBrackets (kinds first ++ .symbol .dotDot :: kinds last)
  | .array elements _ => inBrackets (joined (kindsAll elements))
  | .dict entries _ => inBraces (joined (kindsEntries entries))

/-- The tokens of each expression. -/
def kindsAll : List Expr → List (List TokenKind)
  | [] => []
  | e :: es => kinds e :: kindsAll es

/-- The tokens of each key with its value. -/
def kindsEntries : List (Expr × Expr) → List (List TokenKind)
  | [] => []
  | (key, value) :: entries =>
    (enclosedIf (!key.isString) (kinds key) ++ .symbol .colon :: kinds value) ::
      kindsEntries entries

end

theorem kindsAll_eq_map (es : List Expr) : kindsAll es = es.map kinds := by
  induction es with
  | nil => rfl
  | cons e es ih => rw [kindsAll, ih, List.map_cons]

/-- An entry is its key, in parentheses unless it is a string, a colon and its value. -/
theorem kindsEntries_eq_map (entries : List (Expr × Expr)) :
    kindsEntries entries = entries.map fun entry =>
      enclosedIf (!entry.1.isString) entry.1.kinds ++ .symbol .colon :: entry.2.kinds := by
  induction entries with
  | nil => rfl
  | cons entry entries ih => rw [kindsEntries, ih, List.map_cons]

/-- The text of an expression. -/
def source (e : Expr) : String := String.ofList (textOf e.kinds)

mutual

/-- The expression can be written: it has no captures, its numbers have no sign, and its names are
names. -/
def Writable : Expr → Prop
  | .lit value _ => value.token.Writable
  | .ident id => Lexeme.IsIdentifier id.name
  | .binary _ left right _ => Writable left ∧ Writable right
  | .unary _ operand _ => Writable operand
  | .test _ subject pattern capture _ => capture = none ∧ Writable subject ∧ Writable pattern
  | .call callee args _ => Lexeme.IsIdentifier callee.name ∧ WritableAll args
  | .index target key _ => Writable target ∧ Writable key
  | .range first last _ => Writable first ∧ Writable last
  | .array elements _ => WritableAll elements
  | .dict entries _ => WritableEntries entries

/-- Each of the expressions can be written. -/
def WritableAll : List Expr → Prop
  | [] => True
  | e :: es => Writable e ∧ WritableAll es

/-- Each key and value can be written. -/
def WritableEntries : List (Expr × Expr) → Prop
  | [] => True
  | (key, value) :: entries => Writable key ∧ Writable value ∧ WritableEntries entries

end

/-- Expressions can be written if each of them can. -/
theorem writableAll_iff {es : List Expr} : WritableAll es ↔ ∀ e ∈ es, e.Writable := by
  induction es with
  | nil => simp [WritableAll]
  | cons e es ih => rw [WritableAll, ih, List.forall_mem_cons]

theorem writableEntries_iff {entries : List (Expr × Expr)} :
    WritableEntries entries ↔ ∀ entry ∈ entries, entry.1.Writable ∧ entry.2.Writable := by
  induction entries with
  | nil => simp [WritableEntries]
  | cons entry entries ih => rw [WritableEntries, ih, List.forall_mem_cons, and_assoc]

/-! ## Expressions without places -/

/-- A node without its place. -/
def atNowhere : Expr → Expr
  | .lit value _ => .lit value .none
  | .ident id => .ident ⟨id.name, .none⟩
  | .binary op left right _ => .binary op left right .none
  | .unary op operand _ => .unary op operand .none
  | .test op subject pattern capture _ =>
    .test op subject pattern (capture.map fun id => ⟨id.name, .none⟩) .none
  | .call callee args _ => .call ⟨callee.name, .none⟩ args .none
  | .index target key _ => .index target key .none
  | .range first last _ => .range first last .none
  | .array elements _ => .array elements .none
  | .dict entries _ => .dict entries .none

/-- The expression without any places. -/
def unplaced (e : Expr) : Expr := e.bottomUp atNowhere

/-- Two expressions that differ in places only. -/
def Like (e e' : Expr) : Prop := e'.unplaced = e.unplaced

namespace Like

variable {left left' right right' : Expr} {span span' : Span}

/-- Literals of one value are alike wherever they stand; so it is with the other constructors. -/
theorem lit (value : Literal) (span span' : Span) : Like (.lit value span) (.lit value span') := rfl

theorem ident {id id' : Ident} (h : id'.name = id.name) : Like (.ident id) (.ident id') :=
  congrArg (fun name => Expr.ident ⟨name, .none⟩) h

/-- Only a name is like a name, and it has the same text. -/
theorem exists_ident {id : Ident} {e : Expr} (h : Like (.ident id) e) :
    ∃ id', e = .ident id' ∧ id'.name = id.name := by
  have heq : e.bottomUp atNowhere = .ident ⟨id.name, .none⟩ := h
  cases e with
  | ident id' =>
    obtain ⟨hname, -⟩ := Ident.mk.inj (Expr.ident.inj heq)
    exact ⟨id', rfl, hname⟩
  | _ => exact Expr.noConfusion heq

theorem binary (op : BinOp) (hleft : left.Like left') (hright : right.Like right') :
    Like (.binary op left right span) (.binary op left' right' span') :=
  congrArg₂ (Expr.binary op · · .none) hleft hright

theorem unary (op : UnOp) (h : left.Like left') :
    Like (.unary op left span) (.unary op left' span') :=
  congrArg (Expr.unary op · .none) h

theorem test (op : MatchOp) (hleft : left.Like left') (hright : right.Like right') :
    Like (.test op left right none span) (.test op left' right' none span') :=
  congrArg₂ (Expr.test op · · none .none) hleft hright

theorem index (hleft : left.Like left') (hright : right.Like right') :
    Like (.index left right span) (.index left' right' span') :=
  congrArg₂ (Expr.index · · .none) hleft hright

theorem range (hleft : left.Like left') (hright : right.Like right') :
    Like (.range left right span) (.range left' right' span') :=
  congrArg₂ (Expr.range · · .none) hleft hright

/-- Expressions that are like others are the same without their places. -/
theorem bottomUpAll {es es' : List Expr} (h : List.Forall₂ Like es es') :
    Expr.bottomUpAll atNowhere es' = Expr.bottomUpAll atNowhere es := by
  induction h with
  | nil => rfl
  | cons hfirst _ ih => exact congrArg₂ List.cons hfirst ih

/-- So are the keys and the values of entries. -/
theorem bottomUpEntries {entries entries' : List (Expr × Expr)}
    (h : List.Forall₂ (fun x y => x.1.Like y.1 ∧ x.2.Like y.2) entries entries') :
    Expr.bottomUpEntries atNowhere entries' = Expr.bottomUpEntries atNowhere entries := by
  induction h with
  | nil => rfl
  | cons hfirst _ ih => exact congrArg₂ List.cons (congrArg₂ Prod.mk hfirst.1 hfirst.2) ih

/-- A call is like another if the names of the functions are the same and the arguments alike. -/
theorem call {callee callee' : Ident} (hcallee : callee'.name = callee.name)
    {args args' : List Expr} (h : List.Forall₂ Like args args') :
    Like (.call callee args span) (.call callee' args' span') :=
  congrArg₂ (fun name args => Expr.call ⟨name, .none⟩ args .none) hcallee (bottomUpAll h)

theorem array {es es' : List Expr} (h : List.Forall₂ Like es es') :
    Like (.array es span) (.array es' span') :=
  congrArg (Expr.array · .none) (bottomUpAll h)

theorem dict {entries entries' : List (Expr × Expr)}
    (h : List.Forall₂ (fun x y => x.1.Like y.1 ∧ x.2.Like y.2) entries entries') :
    Like (.dict entries span) (.dict entries' span') :=
  congrArg (Expr.dict · .none) (bottomUpEntries h)

end Like

/-! ## Tokens that can be written -/

/-- Parentheses add no tokens but their own. -/
theorem forall_mem_enclosedIf {P : TokenKind → Prop} (hopen : P (.symbol .openParen))
    (hclose : P (.symbol .closeParen)) {ks : List TokenKind} (h : ∀ k ∈ ks, P k) (needed : Bool) :
    ∀ k ∈ enclosedIf needed ks, P k := by
  cases needed with
  | false => exact h
  | true => simpa [enclosedIf, inParens, or_imp, forall_and] using ⟨hopen, h, hclose⟩

/-- Commas between items add no tokens but their own. -/
theorem forall_mem_joined {P : TokenKind → Prop} (hcomma : P (.symbol .comma))
    {items : List (List TokenKind)} (h : ∀ ks ∈ items, ∀ k ∈ ks, P k) :
    ∀ k ∈ joined items, P k := by
  cases items with
  | nil => simp [joined]
  | cons item more =>
    rw [List.forall_mem_cons] at h
    simp only [joined, List.forall_mem_append, List.forall_mem_flatMap, List.forall_mem_cons]
    exact ⟨h.1, fun ks hks => ⟨hcomma, h.2 ks hks⟩⟩

end Expr

theorem BinOp.writable_token (op : BinOp) : op.token.Writable := by
  cases op <;> trivial

theorem UnOp.writable_token (op : UnOp) : op.token.Writable := by
  cases op <;> trivial

theorem MatchOp.writable_token (op : MatchOp) : op.token.Writable := by
  cases op <;> trivial

namespace Expr

open TokenKind

mutual

/-- An expression that can be written is written with tokens that can be spelled. -/
theorem Writable.kinds : ∀ {e : Expr}, e.Writable → ∀ k ∈ e.kinds, k.Writable
  | .lit .., h | .ident _, h => by
    rw [Expr.kinds, List.forall_mem_singleton]
    exact h
  | .binary op left right _, h => by
    rw [Expr.kinds, List.forall_mem_append, List.forall_mem_cons]
    exact ⟨forall_mem_enclosedIf trivial trivial (Writable.kinds h.1) _, op.writable_token,
      forall_mem_enclosedIf trivial trivial (Writable.kinds h.2) _⟩
  | .unary op operand _, h => by
    rw [Expr.kinds, List.forall_mem_cons]
    exact ⟨op.writable_token,
      forall_mem_enclosedIf trivial trivial (Writable.kinds (e := operand) h) _⟩
  | .test op subject pattern _ _, h => by
    rw [Expr.kinds, List.forall_mem_append, List.forall_mem_cons]
    exact ⟨forall_mem_enclosedIf trivial trivial (Writable.kinds h.2.1) _, op.writable_token,
      forall_mem_enclosedIf trivial trivial (Writable.kinds h.2.2) _⟩
  | .call callee args _, h => by
    have hargs := forall_mem_joined (P := TokenKind.Writable) trivial (WritableAll.kindsAll h.2)
    simpa [Expr.kinds, inParens, or_imp, forall_and] using ⟨h.1, trivial, hargs, trivial⟩
  | .index target key _, h => by
    have htarget :=
      forall_mem_enclosedIf (P := TokenKind.Writable) trivial trivial (Writable.kinds h.1)
        target.isOperator
    simpa [Expr.kinds, inBrackets, or_imp, forall_and] using
      ⟨htarget, trivial, Writable.kinds h.2, trivial⟩
  | .range first last _, h => by
    simpa [Expr.kinds, inBrackets, or_imp, forall_and] using
      ⟨trivial, Writable.kinds h.1, trivial, Writable.kinds h.2, trivial⟩
  | .array elements _, h => by
    have helements := forall_mem_joined (P := TokenKind.Writable) trivial (WritableAll.kindsAll h)
    simpa [Expr.kinds, inBrackets, or_imp, forall_and] using ⟨trivial, helements, trivial⟩
  | .dict entries _, h => by
    have hentries :=
      forall_mem_joined (P := TokenKind.Writable) trivial (WritableEntries.kindsEntries h)
    simpa [Expr.kinds, inBraces, or_imp, forall_and] using ⟨trivial, hentries, trivial⟩

theorem WritableAll.kindsAll :
    ∀ {es : List Expr}, WritableAll es → ∀ ks ∈ Expr.kindsAll es, ∀ k ∈ ks, k.Writable
  | [], _ => by simp [Expr.kindsAll]
  | _ :: _, h => by
    rw [Expr.kindsAll, List.forall_mem_cons]
    exact ⟨Writable.kinds h.1, WritableAll.kindsAll h.2⟩

theorem WritableEntries.kindsEntries :
    ∀ {entries : List (Expr × Expr)}, WritableEntries entries →
      ∀ ks ∈ Expr.kindsEntries entries, ∀ k ∈ ks, k.Writable
  | [], _ => by simp [Expr.kindsEntries]
  | (key, value) :: _, h => by
    rw [Expr.kindsEntries, List.forall_mem_cons, List.forall_mem_append, List.forall_mem_cons]
    exact ⟨⟨forall_mem_enclosedIf trivial trivial (Writable.kinds h.1) _, trivial,
      Writable.kinds h.2.1⟩, WritableEntries.kindsEntries h.2.2⟩

end

end Expr

end EdgeScript
