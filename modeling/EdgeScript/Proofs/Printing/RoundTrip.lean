import EdgeScript.Proofs.Printing.Operand

/-!
# Parsing undoes printing

Reading the text of an expression gives the expression, except for the places of its nodes
(`Expr.parsing_undoes_printing`).

The grammar reads an operand and then, as long as they bind tightly enough, operators with their
right operands.  A tree of binary operators has its first operand at the bottom of its left side, so
the proof goes down this side with what the loop will read on the way back up (`takes_bare`): the
operators met there bind less and less tightly, and each right operand ends where the next of them
begins.
-/

set_option autoImplicit false

namespace EdgeScript

open EdgeScript.Parser

/-! ## Operators between operands -/

namespace TokenKind

/-- The token ends an expression that is read at `power`. -/
def EndsAt (power : Nat) (k : TokenKind) : Prop :=
  k.continuesOperand = false ∧ ∀ q ∈ k.precedence?, q < power

theorem endsAt_of_delimits {k : TokenKind} (h : k.delimits = true) (power : Nat) :
    k.EndsAt power := by
  have hnone (q : Nat) (hq : q ∈ none) : q < power := absurd hq (Option.not_mem_none q)
  cases k with
  | symbol s => cases s <;> first | exact Bool.noConfusion h | exact ⟨rfl, hnone⟩
  | eof => exact ⟨rfl, hnone⟩
  | _ => exact Bool.noConfusion h

/-- An operator ends a left operand that binds as tightly. -/
theorem endsAt_of_precedence? {k : TokenKind} {p q : Nat} (h : k.precedence? = some p)
    (hq : p ≤ q) : k.EndsAt (q + 1) := by
  refine ⟨?_, fun r hr => ?_⟩
  · cases k with
    | symbol s => cases s <;> first | rfl | exact absurd h (by simp [precedence?])
    | keyword w => cases w <;> first | rfl | exact absurd h (by simp [precedence?])
    | _ => first | rfl | exact absurd h (by simp [precedence?])
  · obtain rfl : p = r := Option.some.inj (h.symm.trans hr)
    exact Nat.lt_succ_of_le hq

end TokenKind

@[simp]
theorem BinOp.binOp?_token (op : BinOp) : Grammar.binOp? op.token = some op := by
  cases op <;> rfl

@[simp]
theorem BinOp.matchOp?_token (op : BinOp) : Grammar.matchOp? op.token = none := by
  cases op <;> rfl

@[simp]
theorem MatchOp.matchOp?_token (op : MatchOp) : Grammar.matchOp? op.token = some op := by
  cases op <;> rfl

namespace Expr

variable {operator : TokenKind} {p : Nat}

theorem enclosedOnLeft_eq_false_iff (hp : operator.precedence? = some p) (e : Expr) :
    e.enclosedOnLeft operator = false ↔ ∀ q ∈ e.precedence?, p ≤ q := by
  cases h : e.precedence? <;> simp [enclosedOnLeft, hp, h]

theorem enclosedOnRight_eq_false_iff (hp : operator.precedence? = some p) (e : Expr) :
    e.enclosedOnRight operator = false ↔ ∀ q ∈ e.precedence?, p < q := by
  cases h : e.precedence? <;> simp [enclosedOnRight, hp, h]

theorem one_le_of_mem_precedence? (e : Expr) : ∀ q ∈ e.precedence?, 1 ≤ q := by
  intro q hq
  cases e with
  | binary op =>
    obtain ⟨p, hp, hpos⟩ := op.exists_precedence?
    obtain rfl : p = q := Option.some.inj (hp.symm.trans hq)
    exact hpos
  | test op =>
    obtain ⟨p, hp, hpos⟩ := op.exists_precedence?
    obtain rfl : p = q := Option.some.inj (hp.symm.trans hq)
    exact hpos
  | _ => exact absurd hq (Option.not_mem_none q)

end Expr

namespace Grammar

open EdgeScript.TokenKind EdgeScript.Expr

/-- The parser for each power reads the expressions that bind so tightly, in front of what ends
them, as far as less than `bound` tokens are left. -/
def ReadsBelow (E : Nat → Parser Expr) (bound : Nat) : Prop :=
  ∀ {power : Nat} {e : Expr} {ks rest : List TokenKind}, e.Writable →
    Spelled (∀ p ∈ e.precedence?, power ≤ p) e ks → (rest.headD .eof).EndsAt power →
    (ks ++ rest).length < bound → Takes (E power) ks rest (e.Like ·)

variable {E : Nat → Parser Expr} {bound power : Nat} {ks ks' rest : List TokenKind}

theorem ReadsBelow.within (h : ReadsBelow E bound) : ReadsWithin (E 1) bound :=
  fun {e} _ _ he hks hrest hlength =>
    h he (hks.mono fun _ => e.one_le_of_mem_precedence?) (endsAt_of_delimits hrest 1) hlength

theorem takes_combine_binary (op : BinOp) {operator : Token} (hop : operator.kind = op.token)
    {left left' right right' : Expr} (hleft : left.Like left') (hright : right.Like right')
    (span : Span) :
    Takes (combine operator left' right') [] rest (Expr.Like (.binary op left right span) ·) := by
  rw [combine, hop, op.matchOp?_token, op.binOp?_token]
  exact takes_pure (.binary op hleft hright)

theorem takes_combine_test (op : MatchOp) {operator : Token} (hop : operator.kind = op.token)
    {left left' right right' : Expr} (hleft : left.Like left') (hright : right.Like right')
    (span : Span) (hrest : (rest.headD .eof).continuesOperand = false) :
    Takes (combine operator left' right') [] rest
      (Expr.Like (.test op left right none span) ·) := by
  rw [combine, hop, op.matchOp?_token]
  have hcapture : Takes (capture? op) [] rest fun name => name = none := by
    refine (takes_check_of_ne fun h => ?_).next_eq (takes_pure rfl)
    rw [List.nil_append] at h
    rw [h] at hrest
    exact Bool.noConfusion hrest
  exact hcapture.next_eq (takes_pure (.test op hleft hright))

theorem takes_operation_done (hrest : (rest.headD .eof).EndsAt power) (left : Expr) :
    Takes (operation E power left) [] rest fun r => ∃ e, r = .inr e ∧ e = left := by
  refine takes_current.next fun t ht => ?_
  rw [ht, List.nil_append]
  cases hq : (rest.headD .eof).precedence? with
  | none => exact takes_pure ⟨left, rfl, rfl⟩
  | some q => 
    simp only
    rw [if_pos (hrest.2 q hq)]
    exact takes_pure ⟨left, rfl, rfl⟩

section Below

variable (hE : ReadsBelow E bound)
include hE

theorem takes_operation {operator : TokenKind} {p : Nat} (hp : operator.precedence? = some p)
    (hpower : power ≤ p) {right : Expr} (hright : right.Writable)
    (hrest : (rest.headD .eof).EndsAt (p + 1))
    (hbound : (operator :: enclosedIf (right.enclosedOnRight operator) right.kinds ++ rest).length ≤
      bound) {left' : Expr} {I : Expr → Prop}
    (hcombine : ∀ t right', t.kind = operator → right.Like right' →
      Takes (combine t left' right') [] rest I) :
    Takes (operation E power left')
      (operator :: enclosedIf (right.enclosedOnRight operator) right.kinds) rest
      fun r => ∃ e, r = .inl e ∧ I e := by
  refine takes_current.next fun t ht => ?_
  rw [ht, List.cons_append, List.headD_cons, hp]
  simp only
  rw [if_neg (Nat.not_lt.2 hpower)]
  refine (takes_advance operator).after fun t ht => ?_
  rw [← List.append_nil (enclosedIf _ _)]
  refine (hE hright ?_ hrest (Nat.lt_of_succ_le hbound)).bind fun right' hright' => ?_
  · exact (right.spelled_enclosedIf _).mono (right.enclosedOnRight_eq_false_iff hp).1
  · exact (hcombine t right' ht hright').next fun e he => takes_pure ⟨e, rfl, he⟩

/-! ## Down the left side -/

/-- An operand, and what the loop reads behind it. -/
theorem takes_operand {e : Expr} (he : e.Writable) (hks : Spelled (e.precedence? = none) e ks)
    (hnext : ((ks' ++ rest).headD .eof).continuesOperand = false)
    (hbound : (ks ++ (ks' ++ rest)).length ≤ bound)
    {P : Expr → Prop} (hmore : ∀ e', e.Like e' → LoopTakes (operation E power) rest P e' ks') :
    Takes (operations E power) (ks ++ ks') rest P :=
  (takes_unary hE.within he hks hnext hbound).bind fun e' he' => takes_loop (hmore e' he')

/-- Operands with an operator between them, and what the loop reads behind them.  The left operand
is in parentheses, or it is read by `hleft`. -/
theorem takes_operator {operator : TokenKind} {p : Nat} (hp : operator.precedence? = some p)
    (hpower : power ≤ p) {left right : Expr} (hwritable : left.Writable ∧ right.Writable)
    (hnext : ((ks' ++ rest).headD .eof).EndsAt (p + 1))
    (hks : ks = enclosedIf (left.enclosedOnLeft operator) left.kinds ++
      operator :: enclosedIf (right.enclosedOnRight operator) right.kinds)
    (hbound : (ks ++ (ks' ++ rest)).length ≤ bound) {I P : Expr → Prop}
    (hcombine : ∀ t left' right', t.kind = operator → left.Like left' → right.Like right' →
      Takes (combine t left' right') [] (ks' ++ rest) I)
    (hmore : ∀ e', I e' → LoopTakes (operation E power) rest P e' ks')
    (hleft : ∀ {ks'},
      (∀ q ∈ left.precedence?, power ≤ q ∧ ((ks' ++ rest).headD .eof).EndsAt (q + 1)) →
      ((ks' ++ rest).headD .eof).continuesOperand = false →
      (left.kinds ++ (ks' ++ rest)).length ≤ bound →
      (∀ e', left.Like e' → LoopTakes (operation E power) rest P e' ks') →
      Takes (operations E power) (left.kinds ++ ks') rest P) :
    Takes (operations E power) (ks ++ ks') rest P := by
  subst hks
  simp only [List.append_assoc, List.cons_append] at hbound ⊢
  -- from the left operand on, one round of the loop reads the operator and the right operand
  have hloop (left' : Expr) (hleft' : left.Like left') : LoopTakes (operation E power) rest P left'
      (operator :: (enclosedIf (right.enclosedOnRight operator) right.kinds ++ ks')) := by
    refine .round (List.cons_ne_nil _ _) (takes_operation hE hp hpower hwritable.2 hnext ?_
      fun t right' ht hright' => hcombine t left' right' ht hleft' hright') hmore
    simp only [List.length_append, List.length_cons] at hbound ⊢
    omega
  have hoperator : operator.continuesOperand = false := (endsAt_of_precedence? hp (Nat.le_refl p)).1
  cases henclosed : left.enclosedOnLeft operator with
  | true =>
    rw [henclosed] at hbound
    refine takes_operand hE hwritable.1 .enclosed ?_ ?_ hloop
    · exact hoperator
    · simpa [enclosedIf] using hbound
  | false =>
    rw [henclosed] at hbound
    refine hleft (fun q hq => ?_) hoperator (by simpa [enclosedIf] using hbound) hloop
    have hpq := (left.enclosedOnLeft_eq_false_iff hp).1 henclosed q hq
    exact ⟨Nat.le_trans hpower hpq, endsAt_of_precedence? hp hpq⟩

/-- An expression without parentheses around it, and what the loop reads behind it. -/
theorem takes_bare {P : Expr → Prop} : ∀ {e : Expr} {ks' : List TokenKind}, e.Writable →
    (∀ p ∈ e.precedence?, power ≤ p ∧ ((ks' ++ rest).headD .eof).EndsAt (p + 1)) →
    ((ks' ++ rest).headD .eof).continuesOperand = false →
      (e.kinds ++ (ks' ++ rest)).length ≤ bound →
    (∀ e', e.Like e' → LoopTakes (operation E power) rest P e' ks') →
    Takes (operations E power) (e.kinds ++ ks') rest P
  | e, ks', he, hprecedence, hnext, hbound, hmore => by
    -- the recursion goes to the left operand, with the operator in front of what the loop reads
    cases e with
    | binary op left right span =>
      obtain ⟨p, hp, -⟩ := op.exists_precedence?
      obtain ⟨hpower, hend⟩ := hprecedence p hp
      exact takes_operator hE hp hpower he hend rfl hbound
        (fun t left' right' ht hleft' hright' =>
          takes_combine_binary op ht hleft' hright' span) hmore
        (takes_bare he.1)
    | test op subject pattern capture span =>
      obtain ⟨rfl, hsubject, hpattern⟩ := he
      obtain ⟨p, hp, -⟩ := op.exists_precedence?
      obtain ⟨hpower, hend⟩ := hprecedence p hp
      exact takes_operator hE hp hpower ⟨hsubject, hpattern⟩ hend rfl hbound
        (fun t left' right' ht hleft' hright' =>
          takes_combine_test op ht hleft' hright' span hnext) hmore
        (takes_bare hsubject)
    | _ => exact takes_operand hE he (.bare rfl) hnext hbound hmore

end Below

/-- An expression that binds tightly enough is read back, in front of what ends it. -/
theorem takes_exprAt {e : Expr} (he : e.Writable)
    (hks : Spelled (∀ p ∈ e.precedence?, power ≤ p) e ks) (hrest : (rest.headD .eof).EndsAt power) :
    Takes (exprAt power) ks rest (e.Like ·) := by
  refine takes_fix (T := fun power ks rest Q => ∃ e : Expr, e.Writable ∧
    Spelled (∀ p ∈ e.precedence?, power ≤ p) e ks ∧ (rest.headD .eof).EndsAt power ∧ Q = (e.Like ·))
    (fun again {power ks rest Q} h hagain => ?_) ⟨e, he, hks, hrest, rfl⟩
  obtain ⟨e, he, hks, hrest, rfl⟩ := h
  have hE : ReadsBelow again (ks ++ rest).length :=
    fun he hks hrest hlength => hagain ⟨_, he, hks, hrest, rfl⟩ hlength
  have hdone (e' : Expr) (he' : e.Like e') :
      LoopTakes (operation again power) rest (e.Like ·) e' [] := by
    refine .done ((takes_operation_done hrest e').mono fun r hr => ?_)
    obtain ⟨_, rfl, rfl⟩ := hr
    exact ⟨_, rfl, he'⟩
  rw [← List.append_nil ks]
  cases hks with
  | enclosed =>
    refine takes_operand hE he .enclosed ?_ (Nat.le_refl _) hdone
    exact hrest.1
  | bare hpower =>
    refine takes_bare hE he (fun p hp => ⟨hpower p hp, hrest.1, fun q hq => ?_⟩) hrest.1
      (Nat.le_refl _) hdone
    have hqp := Nat.lt_of_lt_of_le (hrest.2 q hq) (hpower p hp)
    exact Nat.lt_succ_of_lt hqp

end Grammar

/-! ## Whole texts -/

theorem Stream.kinds_ofTokens {tokens : List Token} {ks : List TokenKind}
    (h : tokens.map Token.kind = ks ++ [.eof]) : (Stream.ofTokens tokens).kinds = ks := by
  obtain ⟨front, back, rfl, hfront, hback⟩ := List.map_eq_append_iff.1 h
  obtain ⟨last, rfl, hlast⟩ := List.map_eq_singleton_iff.1 hback
  rw [ofTokens, splitEnd, List.getLast?_concat]
  simp only [hlast, if_true, List.dropLast_concat, kinds]
  exact hfront

namespace Expr

open TokenKind

/-- The text is read to its end and gives the expression, except for the places of its nodes. -/
def ReadsAs (text : String) (e : Expr) : Prop :=
  ∀ file, ∃ tokens e' s, tokenize text file = .ok tokens ∧
    Grammar.expr.run (Stream.ofTokens tokens) = .ok (e', s) ∧ s.tokens = [] ∧
    e'.unplaced = e.unplaced

theorem readsAs_source {e : Expr} (he : e.Writable) : ReadsAs e.source e := by
  intro file
  obtain ⟨tokens, htokens, hkinds⟩ := exists_tokenize_textOf he.kinds file
  have htakes : Takes Grammar.expr e.kinds [] (e.Like ·) :=
    Grammar.takes_exprAt he (.bare e.one_le_of_mem_precedence?) (endsAt_of_delimits rfl 1)
  obtain ⟨e', s, hrun, hs, hlike⟩ :=
    htakes.run _ (by rw [List.append_nil, Stream.kinds_ofTokens hkinds])
  exact ⟨tokens, e', s, htokens, hrun, List.map_eq_nil_iff.1 hs, hlike⟩

/-- Operators that bind as tightly as each other group to the left, so no parentheses are written
there. -/
theorem kinds_binary_binary {op op' : BinOp} {p : Nat} (hop : op.token.precedence? = some p)
    (hop' : op'.token.precedence? = some p) {a b c : Expr} (ha : ∀ q ∈ a.precedence?, p < q)
    (hb : ∀ q ∈ b.precedence?, p < q) (hc : ∀ q ∈ c.precedence?, p < q) (span span' : Span) :
    (Expr.binary op' (.binary op a b span) c span').kinds =
      a.kinds ++ op.token :: (b.kinds ++ op'.token :: c.kinds) := by
  have hleft : (Expr.binary op a b span).enclosedOnLeft op'.token = false := by
    refine (enclosedOnLeft_eq_false_iff hop' _).2 fun q hq => ?_
    exact Nat.le_of_eq (Option.some.inj (hop.symm.trans hq))
  have ha' := (a.enclosedOnLeft_eq_false_iff hop).2 fun q hq => Nat.le_of_lt (ha q hq)
  have hb' := (b.enclosedOnRight_eq_false_iff hop).2 hb
  have hc' := (c.enclosedOnRight_eq_false_iff hop').2 hc
  simp [kinds, enclosedIf, hleft, ha', hb', hc']

/-- A negated test is not the test of a negated subject: the prefix operator takes the operand next
to it, unless parentheses say otherwise. -/
theorem kinds_not_test (op : MatchOp) {v p : Expr} (hv : v.precedence? = none)
    (hp : p.precedence? = none) (span span' : Span) :
    (Expr.test op (.unary .not v span) p none span').kinds =
      .symbol .not :: (v.kinds ++ op.token :: p.kinds) ∧
    (Expr.unary .not (.test op v p none span) span').kinds =
      .symbol .not :: inParens (v.kinds ++ op.token :: p.kinds) := by
  obtain ⟨q, hq, -⟩ := op.exists_precedence?
  have hnot : (Expr.unary .not v span).precedence? = none := rfl
  have htest : (Expr.test op v p none span).precedence? = some q := hq
  simp [kinds, enclosedIf, enclosedOnLeft, enclosedOnRight, hv, hp, hnot, htest, UnOp.token]

/-- **Reading undoes writing.**  So operators that bind as tightly as each other group to the left,
and `!` in front of a test negates its subject unless the test is in parentheses. -/
theorem parsing_undoes_printing :
    (∀ e : Expr, e.Writable → ReadsAs e.source e) ∧
    (∀ (op op' : BinOp) (p : Nat), op.token.precedence? = some p → op'.token.precedence? = some p →
      ∀ a b c : Expr, (∀ e ∈ [a, b, c], e.Writable ∧ ∀ q ∈ e.precedence?, p < q) → ∀ span span',
        ReadsAs (String.ofList (textOf (a.kinds ++ op.token :: (b.kinds ++ op'.token :: c.kinds))))
          (.binary op' (.binary op a b span) c span')) ∧
    ∀ (op : MatchOp) (v p : Expr), (∀ e ∈ [v, p], e.Writable ∧ e.precedence? = none) → ∀ span span',
      ReadsAs (String.ofList (textOf (.symbol .not :: (v.kinds ++ op.token :: p.kinds))))
        (.test op (.unary .not v span) p none span') ∧
      ReadsAs (String.ofList (textOf (.symbol .not :: inParens (v.kinds ++ op.token :: p.kinds))))
        (.unary .not (.test op v p none span) span') ∧
      (Expr.test op (.unary .not v span) p none span').unplaced ≠
        (Expr.unary .not (.test op v p none span) span').unplaced := by
  refine ⟨fun e he => readsAs_source he, fun op op' p hop hop' a b c h span span' => ?_,
    fun op v p h span span' => ⟨?_, ?_, Expr.noConfusion⟩⟩
  · simp only [List.forall_mem_cons] at h
    obtain ⟨⟨ha, hap⟩, ⟨hb, hbp⟩, ⟨hc, hcp⟩, -⟩ := h
    rw [← kinds_binary_binary hop hop' hap hbp hcp span span']
    exact readsAs_source ⟨⟨ha, hb⟩, hc⟩
  · simp only [List.forall_mem_cons] at h
    obtain ⟨⟨hv, hvp⟩, ⟨hp, hpp⟩, -⟩ := h
    rw [← (kinds_not_test op hvp hpp span span').1]
    exact readsAs_source ⟨rfl, hv, hp⟩
  · simp only [List.forall_mem_cons] at h
    obtain ⟨⟨hv, hvp⟩, ⟨hp, hpp⟩, -⟩ := h
    rw [← (kinds_not_test op hvp hpp span span').2]
    exact readsAs_source (e := .unary .not (.test op v p none span) span') ⟨rfl, hv, hp⟩

/-- The variable `a`. -/
def varA : Expr := .ident ⟨"a", .none⟩

/-- `(a || b)[0] - -!a - (f(!a matches "\"\\", []) - {(a): [1..2], "k": true})` -/
def nestedOperators : Expr :=
  let test : Expr := .test .pattern (.unary .not varA .none) (.lit (.str "\"\\") .none) none .none
  let interval : Expr := .range (.lit (.int 1) .none) (.lit (.int 2) .none) .none
  .binary .sub
    (.binary .sub
      (.index (.binary .or varA (.ident ⟨"b", .none⟩) .none) (.lit (.int 0) .none) .none)
      (.unary .neg (.unary .not varA .none) .none) .none)
    (.binary .sub (.call ⟨"f", .none⟩ [test, .array [] .none] .none)
      (.dict [(varA, interval), (.lit (.str "k") .none, .lit (.bool true) .none)] .none)
      .none) .none

theorem writable_varA : varA.Writable := ⟨'a', [], by decide⟩

theorem writable_nestedOperators : nestedOperators.Writable := by
  have ha := writable_varA
  have hb : Lexeme.IsIdentifier "b" := ⟨'b', [], by decide⟩
  have hf : Lexeme.IsIdentifier "f" := ⟨'f', [], by decide⟩
  have hint : 0 ≤ (0 : Int64).toInt ∧ 0 ≤ (1 : Int64).toInt ∧ 0 ≤ (2 : Int64).toInt := by decide
  exact ⟨⟨⟨⟨ha, hb⟩, hint.1⟩, ha⟩, ⟨hf, ⟨rfl, ha, trivial⟩, trivial, trivial⟩,
    ha, hint.2, trivial, trivial, trivial⟩

theorem parsing_undoes_printing_nestedOperators :
    nestedOperators.source =
      "( a || b ) [ 0 ] - - ! a - ( f ( ! a matches \"\\\"\\\\\" , [ ] ) - " ++
      "\x7b ( a ) : [ 1 .. 2 ] , \"k\" : true \x7d )" ∧
    nestedOperators.Writable ∧ ReadsAs nestedOperators.source nestedOperators ∧
    ReadsAs "a - a + a" (.binary .add (.binary .sub varA varA .none) varA .none) ∧
    ReadsAs "! a matches a" (.test .pattern (.unary .not varA .none) varA none .none) ∧
    ReadsAs "! ( a matches a )" (.unary .not (.test .pattern varA varA none .none) .none) := by
  have hvarA : varA.precedence? = none := rfl
  have hgroup := parsing_undoes_printing.2.1 .sub .add 8 rfl rfl varA varA varA
    (by simp [writable_varA, hvarA]) .none .none
  have hnot :=
    parsing_undoes_printing.2.2 .pattern varA varA (by simp [writable_varA, hvarA]) .none .none
  exact ⟨by decide, writable_nestedOperators,
    parsing_undoes_printing.1 _ writable_nestedOperators, hgroup, hnot.1, hnot.2.1⟩

end Expr

end EdgeScript
