import EdgeScript.Proofs.Parsing.Descent

/-!
# Reading expressions by a scheme

With `x` and `y` in place of the parser of expressions, the parts of an expression obey a scheme
where `x` and `y` do: at the same place, or only behind it for the parts that read a token first.
An expression reads a token, and so do a primary expression and an operand.

An operand, or all that stands to the left of an operator, is read before what goes on with it.
What goes on is told by `hleft` or `he` what the scheme says of the part in front, between the
captures that were counted before it and those behind it.
-/

set_option autoImplicit false

namespace EdgeScript.Grammar

open EdgeScript.Parser

variable {S : Scheme} [hS : S.Closed] {s : Stream} {b c : Option Nat}

/-! ## Names and strings -/

/-- A name is that of its token. -/
theorem obeys_ident (s : Stream) : Obeys S (fun _ => 1) s c ident ident (Quiet c S.ident) := by
  refine obeys_current fun t ht hknown => ?_
  obtain ⟨kind, span⟩ := t
  cases kind with
  | ident name =>
    refine (obeys_advance (Stream.reaches_advance ht (by simp))).after fun _ _ _ _ => ?_
    exact obeys_done rfl ⟨hknown.2 name rfl, hknown.1⟩
  | _ => exact obeys_throw (.expectedIdent _ span) hknown.1

/-- One more string behind those in front. -/
def stringStep (read : String × Span) : Parser ((String × Span) ⊕ (String × Span)) := do
  match ← currentKind with
  | .str next =>
    let t ← advance
    return .inl (read.1 ++ next, read.2.merge t.span)
  | _ => return .inr read

theorem adjacentStrings_eq_loop : adjacentStrings = loop stringStep := rfl

theorem obeys_stringStep {read : String × Span} (hread : S.span read.2) (s : Stream) :
    Obeys S perRound s c (stringStep read) (stringStep read)
      (Between (Quiet c fun r => S.span r.2) (Quiet c fun r => S.span r.2)) := by
  refine obeys_look rfl fun kind hkind _ => ?_
  cases kind with
  | str next =>
    have hreaches := Stream.reaches_advance rfl (by rw [← hkind]; simp)
    refine .round ((obeys_advance hreaches).after fun t _ _ ht => ?_)
    exact obeys_pure rfl ⟨rfl, hS.merge hread ht.1⟩
  | _ => exact obeys_pure rfl ⟨rfl, hread⟩

/-- Strings in a row cover their tokens. -/
theorem obeys_adjacentStrings {read : String × Span} (hread : S.span read.2) (s : Stream) :
    Obeys S (fun _ => 0) s c (adjacentStrings read) (adjacentStrings read)
      (Quiet c fun r => S.span r.2) := by
  rw [adjacentStrings_eq_loop]
  refine obeys_loop (I := Quiet c fun r => S.span r.2) (fun read s' d _ hread => ?_) ⟨rfl, hread⟩
  obtain ⟨rfl, hread⟩ := hread
  exact obeys_stringStep hread s'

/-! ## Operands -/

/-- One more element of an array. -/
def elementStep (x : Parser Expr) (read : List Expr) : Parser (List Expr ⊕ List Expr) := do
  if !(← consumeSymbol .comma) then return .inr read
  if ← check (.symbol .closeBracket) then return .inr read
  let e ← x
  return .inl (read ++ [e])

/-- The key and the value of a dictionary. -/
def entry (x : Parser Expr) : Parser (Expr × Expr) := do
  let key ← dictKey x
  let _ ← symbol .colon
  let value ← x
  return (key, value)

/-- An operand or the operators in front of one. -/
def signed (x : Parser Expr) (again : Unit → Parser Expr) (_ : Unit) : Parser Expr := do
  match unOp? (← currentKind) with
  | some op =>
    let t ← advance
    let operand ← again ()
    return .unary op operand (t.span.merge operand.span)
  | none =>
    let e ← primary x
    loop (selector x) e

theorem arrayOrRange_eq (x : Parser Expr) (start : Span) : arrayOrRange x start = (do
    if ← consumeSymbol .closeBracket then return .array [] (← spanFrom start)
    let first ← x
    if ← consumeSymbol .dotDot then
      let last ← x
      let _ ← symbol .closeBracket
      return .range first last (← spanFrom start)
    let elements ← loop (elementStep x) [first]
    let _ ← symbol .closeBracket
    return .array elements (← spanFrom start)) := rfl

theorem dict_eq (x : Parser Expr) (start : Span) : dict x start = (do
    let entries ← commaList (.symbol .closeBrace) fun _ => entry x
    let _ ← symbol .closeBrace
    return .dict entries (← spanFrom start)) := rfl

theorem unary_eq_fix (x : Parser Expr) : unary x = fix (signed x) () := rfl

section Operands

variable {x y : Parser Expr} {start : Span} {e : Expr}

omit hS in
theorem obeys_elementStep (h : ExprFrom S 1 s x y) {read : List Expr}
    (hread : S.exprs b read c) :
    Obeys S perRound s c (elementStep x read) (elementStep y read)
      (Between (S.exprs b) (S.exprs b)) := by
  refine (obeys_consumeSymbol .comma s).next fun comma s' hs _ =>
    .ite (fun _ => obeys_pure rfl hread) fun hcomma => ?_
  refine obeys_look rfl fun _ _ _ => .ite (fun _ => obeys_pure rfl hread) fun _ => ?_
  obtain rfl : comma = true := by simpa using hcomma
  exact .round ((h s' c hs trivial).first fun _ _ _ _ he => obeys_pure rfl (hread.concat he))

/-- An array or a range, from behind its bracket. -/
theorem obeys_arrayOrRange (h : ExprFrom S 0 s x y) (hstart : S.span start) :
    Obeys S (fun _ => 0) s c (arrayOrRange x start) (arrayOrRange y start) (S.expr c) := by
  rw [arrayOrRange_eq, arrayOrRange_eq]
  refine (obeys_consumeSymbol _ s).next fun _ s₁ h₁ _ => .ite (fun _ => ?_) fun _ => ?_
  · exact obeys_spanned s₁ hstart fun _ => hS.array (.nil c)
  refine ((h.later h₁).here trivial).seq fun first s₂ d h₂ hfirst => ?_
  refine (obeys_consumeSymbol _ s₂).next fun _ s₃ h₃ _ => ?_
  have hx : ExprFrom S 0 s₃ x y := h.later ((h₁.trans h₂).trans h₃)
  refine .ite (fun _ => ?_) fun _ => ?_
  · refine (hx.here trivial).seq fun last s₄ _ _ hlast => (obeys_symbol _ s₄).next
      fun _ s₅ _ _ => ?_
    exact obeys_spanned s₅ hstart fun _ => hS.range hfirst hlast
  · have helements := obeys_loop (c := d) (I := S.exprs c)
      (fun read s' _ hs hread => obeys_elementStep (hx.later hs).weaken hread) (.singleton hfirst)
    refine helements.seq fun _ s₄ _ _ hread => (obeys_symbol _ s₄).next fun _ s₅ _ _ => ?_
    exact obeys_spanned s₅ hstart fun _ => hS.array hread

/-- The key of an entry; a bare name is a string. -/
theorem obeys_dictKey (h : ExprFrom S 0 s x y) :
    Obeys S (fun _ => 1) s c (dictKey x) (dictKey y) (S.expr c) := by
  refine obeys_look rfl fun kind _ _ => ?_
  cases kind with
  | ident name => exact (obeys_ident s).after fun _ _ _ hid => obeys_pure rfl (hS.lit hid.2)
  | _ => exact h.here trivial

theorem obeys_entry (h : ExprFrom S 0 s x y) :
    Obeys S (fun _ => 1) s c (entry x) (entry y) (S.entry c) := by
  refine (obeys_dictKey h).first fun key s₁ d h₁ hkey => ?_
  refine (obeys_symbol _ s₁).next fun _ s₂ h₂ _ => ?_
  exact ((h.later (h₁.trans h₂)).here trivial).seq fun _ _ _ _ hvalue =>
    obeys_pure rfl ⟨d, hkey, hvalue⟩

/-- A dictionary, from behind its brace. -/
theorem obeys_dict (h : ExprFrom S 0 s x y) (hstart : S.span start) :
    Obeys S (fun _ => 0) s c (dict x start) (dict y start) (S.expr c) := by
  rw [dict_eq, dict_eq]
  have hentries : Obeys S (fun _ => 0) s c (commaList (.symbol .closeBrace) fun _ => entry x)
      (commaList (.symbol .closeBrace) fun _ => entry y) (Along S.entry c) :=
    obeys_commaList (.nil c) fun _ _ _ hs hread =>
      (obeys_entry (h.later hs)).mono (fun _ => Nat.le_refl 1) fun _ _ => hread.concat
  refine hentries.seq fun _ s₁ _ _ hread => (obeys_symbol _ s₁).next fun _ s₂ _ _ => ?_
  exact obeys_spanned s₂ hstart fun _ => hS.dict hread

/-- What is in brackets of some kind stands behind the opening one. -/
theorem obeys_primary (h : ExprFrom S 1 s x y) :
    Obeys S (fun _ => 1) s c (primary x) (primary y) (S.expr c) := by
  refine obeys_current fun t ht hknown => ?_
  obtain ⟨kind, span⟩ := t
  have hspan : S.span span := hknown.1
  -- the pattern of an integer does not go through `split`, the constructors do
  cases kind with
  | int n =>
    refine (obeys_advance (Stream.reaches_advance ht (by simp))).after fun _ _ _ _ => ?_
    exact obeys_pure rfl (hS.lit hspan)
  | str s =>
    refine (obeys_advance (Stream.reaches_advance ht (by simp))).after fun _ s₁ _ _ => ?_
    exact (obeys_adjacentStrings hspan s₁).next fun _ _ _ hread => obeys_pure rfl (hS.lit hread)
  | ident name => exact (obeys_ident s).after fun _ _ _ hid => obeys_pure rfl (hS.ident hid)
  | keyword k =>
    cases k with
    | true_ | false_ =>
      refine (obeys_advance (Stream.reaches_advance ht (by simp))).after fun _ _ _ _ => ?_
      exact obeys_pure rfl (hS.lit hspan)
    | _ => exact obeys_throw (.expectedExpr _ span) hspan
  | symbol symbol =>
    have hread := obeys_advance (S := S) (c := c) (Stream.reaches_advance ht (by simp))
    cases symbol with
    | openParen =>
      refine hread.after fun _ s₁ h₁ _ => ((h.behind h₁).here trivial).seq fun e s₂ _ _ he => ?_
      exact (obeys_symbol _ s₂).next fun _ _ _ _ => obeys_pure rfl he
    | openBracket => exact hread.after fun _ s₁ h₁ _ => obeys_arrayOrRange (h.behind h₁) hspan
    | openBrace => exact hread.after fun _ s₁ h₁ _ => obeys_dict (h.behind h₁) hspan
    | _ => exact obeys_throw (.expectedExpr _ span) hspan
  | comment text => exact obeys_throw (.expectedExpr _ span) hspan
  | eof => exact obeys_throw (.expectedExpr _ span) hspan

theorem obeys_arguments (h : ExprFrom S 0 s x y) :
    Obeys S (fun _ => 0) s c (arguments x) (arguments y) (S.exprs c) := by
  have hargs : Obeys S (fun _ => 0) s c (commaList (.symbol .closeParen) fun _ => x)
      (commaList (.symbol .closeParen) fun _ => y) (S.exprs c) :=
    obeys_commaList (.nil c) fun _ s' d hs hread =>
      (h s' d hs trivial).mono (fun _ => Nat.le_refl 1) fun _ _ => hread.concat
  refine hargs.seq fun _ s₁ _ _ hread => (obeys_symbol _ s₁).next fun _ _ _ _ => ?_
  exact obeys_pure rfl hread

/-- A selector reads on, or leaves the expression in front of it as it is. -/
theorem obeys_selector (h : ExprFrom S 1 s x y) (he : S.expr b e c) :
    Obeys S perRound s c (selector x e) (selector y e) (Between (S.expr b) (S.expr b)) := by
  refine obeys_current fun t ht hknown => ?_
  obtain ⟨kind, span⟩ := t
  cases kind with
  | symbol symbol =>
    have hread := obeys_advance (S := S) (c := c) (Stream.reaches_advance ht (by simp))
    cases symbol with
    | openParen =>
      cases e with
      | ident callee =>
        refine .round (hread.after fun _ s₁ h₁ _ => ?_)
        refine (obeys_arguments (h.behind h₁)).seq fun args s₂ _ _ hargs => ?_
        exact obeys_spanned s₂ (hS.expr_span he) fun _ => hS.call he hargs
      | _ => exact obeys_misplaced _ hknown.1
    | openBracket =>
      refine .round (hread.after fun _ s₁ h₁ _ => ((h.behind h₁).here trivial).seq
        fun key s₂ _ _ hkey => ?_)
      refine (obeys_symbol _ s₂).next fun _ s₃ _ _ => ?_
      exact obeys_spanned s₃ (hS.expr_span he) fun _ => hS.index he hkey
    | dot =>
      refine .round (hread.after fun _ s₁ _ _ => (obeys_ident s₁).next fun member _ _ hid => ?_)
      have hspan : S.span (e.span.merge member.span) := hS.merge (hS.expr_span he) hid.2
      exact obeys_pure rfl (hS.index he (hS.lit hid.2) hspan)
    | _ => exact obeys_pure rfl he
  | _ => exact obeys_pure rfl he

/-- The operand of a prefix operator stands behind it. -/
theorem obeys_signed (h : ExprFrom S 1 s x y) {again again' : Unit → Parser Expr}
    (hagain : ∀ a, ExprFrom S 1 s (again a) (again' a)) (a : Unit) :
    Obeys S (fun _ => 1) s c (signed x again a) (signed y again' a) (S.expr c) := by
  refine obeys_look rfl fun kind hkind _ => ?_
  cases hop : unOp? kind with
  | some op =>
    have hne : kind ≠ .eof := by
      rintro rfl
      cases hop
    refine (obeys_advance (Stream.reaches_advance rfl (hkind ▸ hne))).after fun t s₁ h₁ ht => ?_
    refine (((hagain ()).behind h₁).here trivial).seq fun operand _ _ _ hoperand => ?_
    have hspan := hS.merge ht.1 (hS.expr_span hoperand)
    exact obeys_pure rfl (hS.unary hoperand hspan)
  | none =>
    refine (obeys_primary h).first fun e s₁ _ h₁ he => ?_
    refine obeys_loop (I := S.expr c) (fun e s' _ hs he => ?_) he
    exact obeys_selector ((h.behind h₁).later hs).weaken he

theorem obeys_unary (h : ExprFrom S 1 s x y) :
    Obeys S (fun _ => 1) s c (unary x) (unary y) (S.expr c) := by
  rw [unary_eq_fix, unary_eq_fix]
  refine obeys_fix (I := fun _ _ => True) (Q := fun _ => S.expr) ?_ trivial
  intro s' hs again again' hagain a d _
  exact obeys_signed (h.later hs) hagain a

end Operands

/-! ## Operators -/

/-- What a match captures, from a count of captures to another: nothing, or a name for the first
capture of a condition. -/
def Captured (S : Scheme) (op : MatchOp) (c : Option Nat) : Option Ident → Option Nat → Prop
  | none, d => d = c
  | some id, d => op.canCapture = true ∧ S.ident id ∧ c = some 0 ∧ d = some 1

/-- A capture is counted, and refused if it is not the first. -/
theorem obeys_capture? (op : MatchOp) (s : Stream) :
    Obeys S (fun _ => 0) s c (capture? op) (capture? op) (Captured S op c) := by
  refine obeys_look rfl fun _ _ _ => .ite (fun _ => obeys_pure rfl rfl) fun _ => ?_
  refine (obeys_advance s.reaches_advance_zero).next fun t s₁ _ ht => .unless ht.1 fun hop => ?_
  refine obeys_look rfl fun s₁' hs₁ hfits => ?_
  subst hs₁
  rw [hfits.captures]
  cases c with
  | none => exact obeys_misplaced _ ht.1
  | some count =>
    cases count with
    | zero =>
      refine (obeys_count rfl).seq fun _ s₂ d _ hd => (obeys_ident s₂).next fun _ _ _ hid => ?_
      exact obeys_pure rfl ⟨by simpa using hop, hid, rfl, hd⟩
    | succ count => exact obeys_misplaced _ ht.1

/-- An operator puts together what stands to its left and to its right. -/
theorem obeys_combine {operator : Token} {left right : Expr} {d : Option Nat}
    (hoperator : S.token operator) (hleft : S.expr b left c) (hright : S.expr c right d)
    (s : Stream) :
    Obeys S (fun _ => 0) s d (combine operator left right) (combine operator left right)
      (S.expr b) := by
  have hspan : S.span (left.span.merge right.span) :=
    hS.merge (hS.expr_span hleft) (hS.expr_span hright)
  rw [combine]
  cases matchOp? operator.kind with
  | some op =>
    refine (obeys_capture? op s).seq fun name _ e _ hname => ?_
    cases name with
    | some name =>
      obtain ⟨hop, hid, rfl, rfl⟩ := hname
      exact obeys_pure rfl (hS.capture hop hleft hright hid (hS.merge hspan hid.2))
    | none =>
      obtain rfl : e = d := hname
      exact obeys_pure rfl (hS.test hleft hright hspan)
  | none =>
    cases binOp? operator.kind with
    | some op => exact obeys_pure rfl (hS.binary hleft hright hspan)
    | none => exact obeys_throw (.unexpectedToken _ _ _) hoperator.1

section Operators

variable {x y : Nat → Parser Expr} (h : ∀ power, ExprFrom S 1 s (x power) (y power))
include h

/-- The right operand stands behind its operator. -/
theorem obeys_operation (power : Nat) {left : Expr} (hleft : S.expr b left c) :
    Obeys S perRound s c (operation x power left) (operation y power left)
      (Between (S.expr b) (S.expr b)) := by
  refine obeys_current fun t ht _ => ?_
  cases hpower : t.kind.precedence? with
  | none => exact obeys_pure rfl hleft
  | some tightness =>
    have hne : t.kind ≠ .eof := by
      intro heof
      rw [heof] at hpower
      cases hpower
    refine .ite (fun _ => obeys_pure rfl hleft) fun _ => ?_
    have hread := obeys_advance (S := S) (c := c) (Stream.reaches_advance ht hne)
    refine .round (hread.after fun operator s₁ h₁ hoperator => ?_)
    refine (((h _).behind h₁).here trivial).seq fun right s₂ _ _ hright => ?_
    exact (obeys_combine hoperator hleft hright s₂).seq fun _ _ _ _ he => obeys_pure rfl he

theorem obeys_operations (power : Nat) :
    Obeys S (fun _ => 1) s c (operations x power) (operations y power) (S.expr c) := by
  refine (obeys_unary (h 1)).first fun left s₁ _ h₁ hleft => ?_
  refine obeys_loop (I := S.expr c) (fun left s' _ hs hleft => ?_) hleft
  exact obeys_operation (fun power => (((h power).behind h₁).later hs).weaken) power hleft

end Operators

/-- **What the scheme says holds of every expression that is read.** -/
theorem obeys_exprAt (power : Nat) (s : Stream) :
    Obeys S (fun _ => 1) s c (exprAt power) (exprAt power) (S.expr c) := by
  refine obeys_fix (I := fun _ _ => True) (Q := fun _ => S.expr) ?_ trivial
  intro s' _ again again' hagain power d _
  exact obeys_operations hagain power

theorem obeys_expr (s : Stream) : Obeys S (fun _ => 1) s c expr expr (S.expr c) :=
  obeys_exprAt 1 s

/-- Parsers that agree behind a place obey the scheme that asks for nothing. -/
theorem exprFrom_any {x y : Parser Expr} (h : ∀ s', s.Reaches 1 s' → Agree (fun _ => 1) s' x y) :
    ExprFrom .any 1 s x y :=
  fun s' _ hs _ => (h s' hs).obeys

/-- An expression calls itself for operands in brackets and to the right of operators, behind a
token. -/
theorem descends_operations : Descends (fun _ => 1) operations := by
  intro s again again' h power
  exact (obeys_operations (fun power => exprFrom_any (h power)) power).agree_any

/-- With the parser of expressions in it, the operand of a prefix operator calls itself behind the
operator. -/
theorem descends_signed : Descends (fun _ => 1) (signed expr) := by
  intro s again again' h a
  have hexpr : ExprFrom .any 1 s expr expr := fun s' _ _ _ => obeys_expr s'
  exact (obeys_signed hexpr (fun a => exprFrom_any (h a)) a).agree_any

end EdgeScript.Grammar
