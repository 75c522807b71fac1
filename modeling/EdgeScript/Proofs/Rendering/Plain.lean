import Mathlib.Data.Int.Range
import Mathlib.Data.List.Forall2
import EdgeScript.Markup.Expr

/-!
# Plain expressions

The expression language does not show everything a script can tell apart: places and captures are
not written, a truth value is written as a number, a range as the list of its integers, and the
negation of a number as a negative number.  `Expr.plain` is what is left of an expression, and it is
written the same way (`Expr.render_plain`).
-/

set_option autoImplicit false

namespace EdgeScript

namespace Expr

/-- The integer as an expression. -/
def number (n : Int) : Expr := .lit (.int (Int64.ofInt n)) .none

/-- The negation of an expression; that of a positive number is a number. -/
def negated : Expr → Expr
  | .lit (.int n) span =>
    if 0 < n.toInt then number (-n.toInt) else .unary .neg (.lit (.int n) span) .none
  | e => .unary .neg e .none

/-- A node whose parts are plain, without what its text does not show. -/
def plainNode : Expr → Expr
  | .lit (.bool b) _ => number (if b then 1 else 0)
  | .lit value _ => .lit value .none
  | .ident id => .ident ⟨id.name, .none⟩
  | .binary op left right _ => .binary op left right .none
  | .unary .neg operand _ => operand.negated
  | .unary op operand _ => .unary op operand .none
  | .test op subject pattern _ _ => .test op subject pattern none .none
  | .call callee args _ => .call ⟨callee.name, .none⟩ args .none
  | .index target key _ => .index target key .none
  | .range (.lit (.int first) _) (.lit (.int last) _) _ =>
    .array ((Int.range first.toInt (last.toInt + 1)).map number) .none
  | .range first last _ => .range first last .none
  | .array elements _ => .array elements .none
  | .dict entries _ => .dict entries .none

/-- What the text of an expression shows of it. -/
def plain (e : Expr) : Expr := bottomUp plainNode e

section Parts

variable {left right e : Expr} {span : Span}

theorem bottomUpAll_plainNode (es : List Expr) : bottomUpAll plainNode es = es.map plain := by
  induction es with
  | nil => rfl
  | cons e es ih => rw [bottomUpAll, ih, List.map_cons, plain]

theorem bottomUpEntries_plainNode (entries : List (Expr × Expr)) :
    bottomUpEntries plainNode entries = entries.map (Prod.map plain plain) := by
  induction entries with
  | nil => rfl
  | cons entry entries ih => rw [bottomUpEntries, ih, List.map_cons, Prod.map, plain, plain]

@[simp] theorem plain_ident (id : Ident) : plain (.ident id) = .ident ⟨id.name, .none⟩ := rfl

@[simp] theorem plain_binary (op : BinOp) :
    plain (.binary op left right span) = .binary op left.plain right.plain .none := rfl

/-- A sign is taken into a literal, which is what its text is read as. -/
@[simp] theorem plain_neg : plain (.unary .neg e span) = e.plain.negated := rfl

theorem plain_unary {op : UnOp} (hop : op ≠ .neg) :
    plain (.unary op e span) = .unary op e.plain .none := by
  cases op with
  | neg => exact absurd rfl hop
  | not | bitNot => rfl

/-- The name of a capture is not part of the text of a test. -/
@[simp] theorem plain_test (op : MatchOp) (capture : Option Ident) :
    plain (.test op left right capture span) = .test op left.plain right.plain none .none := rfl

@[simp] theorem plain_index :
    plain (.index left right span) = .index left.plain right.plain .none :=
  rfl

/-- Of the name of a function only the text is kept. -/
@[simp] theorem plain_call (callee : Ident) (args : List Expr) :
    plain (.call callee args span) = .call ⟨callee.name, .none⟩ (args.map plain) .none := by
  rw [← bottomUpAll_plainNode]
  rfl

@[simp] theorem plain_array (elements : List Expr) :
    plain (.array elements span) = .array (elements.map plain) .none := by
  rw [← bottomUpAll_plainNode]
  rfl

@[simp] theorem plain_dict (entries : List (Expr × Expr)) :
    plain (.dict entries span) = .dict (entries.map (Prod.map plain plain)) .none := by
  rw [← bottomUpEntries_plainNode]
  rfl

end Parts

/-! ## Integers -/

theorem toInt_le_greatestInt (n : Int64) : n.toInt ≤ greatestInt :=
  n.toInt_le

theorem leastInt_le_toInt (n : Int64) : leastInt ≤ n.toInt :=
  n.le_toInt

theorem toInt_ofInt {n : Int} (hge : leastInt ≤ n) (hle : n ≤ greatestInt) :
    (Int64.ofInt n).toInt = n :=
  Int64.toInt_ofInt_of_le hge (Int.lt_add_one_of_le hle)

/-- A range is written with the integers from its first to its last one. -/
theorem rangeElements_eq (first last : Int64) :
    rangeElements first last = Int.range first.toInt (last.toInt + 1) := by
  have hlength : last.toInt - first.toInt + 1 = last.toInt + 1 - first.toInt := by omega
  rw [rangeElements, hlength, Int.range]

/-- The numbers of a range are between its bounds, so they fit into 64 bits. -/
theorem bounds_of_mem_rangeElements {first last : Int64} {n : Int}
    (h : n ∈ rangeElements first last) : leastInt ≤ n ∧ n ≤ greatestInt := by
  rw [rangeElements_eq, Int.mem_range_iff] at h
  have := toInt_le_greatestInt last
  have := leastInt_le_toInt first
  omega

/-- The sign of a positive number is taken into it. -/
theorem negated_number {n : Int} (hpos : 0 < n) (hle : n ≤ greatestInt) :
    (number n).negated = number (-n) := by
  have hn := toInt_ofInt (n := n) (by rw [leastInt]; omega) hle
  rw [number, negated, hn, if_pos hpos]

/-! ## The text of a plain expression -/

theorem bind_eq_ok {α β : Type} {x : Except Error α} {f : α → Except Error β} {b : β} :
    x >>= f = .ok b ↔ ∃ a, x = .ok a ∧ f a = .ok b := by
  cases x with
  | error fault => simp [bind, Except.bind]
  | ok a => simp [bind, Except.bind]

/-- Whether the expression stands in parentheses as an operand. -/
def isEnclosed (e : Expr) : Bool := e.isOperator || e.isNegative

/-- An operand is written in parentheses if it is put together by an operator or has a sign. -/
theorem operandText_expression (e : Expr) (text : String) :
    operandText .expression e text = if e.isEnclosed then parenthesized text else text := by
  simp [operandText, isEnclosed]

theorem prefixedText_expression (e : Expr) (text : String) :
    prefixedText .expression e text = operandText .expression e text := by
  cases h : e.isOperator <;> simp [prefixedText, operandText, h]

/-- A range that is written has integers for bounds. -/
theorem renderRange_eq_ok {ctx : RenderContext} {first last : Expr} {span : Span} {text : String}
    (h : renderRange ctx first last span = .ok text) :
    ∃ a b, plain (.range first last span) = .array ((rangeElements a b).map number) .none ∧
      text = "[" ++ Text.joinWith "," ((rangeElements a b).map toString) ++ "]" := by
  rw [renderRange] at h
  split at h
  · rename_i a b hfirst hlast
    split at h
    · cases h
    · cases h
      obtain ⟨sfirst, rfl⟩ : ∃ s, first = .lit (.int a) s := by
        cases first <;> simp_all [literal?]
      obtain ⟨slast, rfl⟩ : ∃ s, last = .lit (.int b) s := by
        cases last <;> simp_all [literal?]
      refine ⟨a, b, ?_, rfl⟩
      rw [rangeElements_eq]
      rfl
  · cases h

/-- The context in which no function is declared and no range fits. -/
def noContext : RenderContext := ⟨[], 0⟩

/-- The text of the expression is also that of the plain expression, alone and as an operand. -/
structure PlainText (e : Expr) (text : String) : Prop where
  render_eq : e.plain.render noContext .expression = .ok text
  isEnclosed_eq : e.plain.isEnclosed = e.isEnclosed

/-- An expression and its plain form are put in parentheses in the same places. -/
theorem PlainText.operandText_eq {e : Expr} {text : String} (h : PlainText e text) :
    operandText .expression e.plain text = operandText .expression e text := by
  rw [operandText_expression, operandText_expression, h.isEnclosed_eq]

/-- A number that fits into 64 bits is written with its digits, and a sign if it has one. -/
theorem render_number {n : Int} (hge : leastInt ≤ n) (hle : n ≤ greatestInt) (ctx : RenderContext) :
    (number n).render ctx .expression = .ok (toString n) := by
  rw [number, render, Literal.render, integerText, toInt_ofInt hge hle]

theorem renderAll_number {ns : List Int} (h : ∀ n ∈ ns, leastInt ≤ n ∧ n ≤ greatestInt)
    (ctx : RenderContext) : renderAll ctx (ns.map number) = .ok (ns.map toString) := by
  induction ns with
  | nil => rfl
  | cons n ns ih =>
    rw [List.forall_mem_cons] at h
    rw [List.map_cons, renderAll, render_number h.1.1 h.1.2, ih h.2]
    rfl

theorem toString_neg {n : Int} (h : 0 < n) : toString (-n) = "-" ++ toString n := by
  obtain ⟨m, rfl⟩ := Int.eq_succ_of_zero_lt h
  rfl

theorem neg_bounds {n : Int64} (h : 0 < n.toInt) :
    leastInt ≤ -n.toInt ∧ -n.toInt ≤ greatestInt := by
  have := toInt_le_greatestInt n
  simp only [leastInt, greatestInt] at this ⊢
  omega

/-- What a sign is taken into is written with the sign in front. -/
theorem render_negated {e : Expr} {text : String} (h : e.render noContext .expression = .ok text) :
    e.negated.render noContext .expression = .ok ("-" ++ operandText .expression e text) := by
  unfold negated
  split
  · rename_i n span
    split
    · rename_i hn
      rw [render] at h
      cases h
      have hsign : isEnclosed (.lit (.int n) span) = false := by
        simpa [isEnclosed, isOperator, isNegative] using Int.le_of_lt hn
      rw [render_number (neg_bounds hn).1 (neg_bounds hn).2, toString_neg hn,
        operandText_expression, hsign]
      rfl
    · rw [render, h, ← prefixedText_expression]
      rfl
  · rw [render, h, ← prefixedText_expression]
    rfl

/-- A sign makes an operand that is written in parentheses, whether it is an operator or part of a
literal. -/
theorem isEnclosed_negated (e : Expr) : e.negated.isEnclosed = true := by
  unfold negated
  split
  · rename_i n span
    split
    · rename_i hn
      have hvalue := toInt_ofInt (neg_bounds hn).1 (neg_bounds hn).2
      have hsign : isNegative (number (-n.toInt)) = true := by
        rw [number, isNegative, hvalue]
        simpa using hn
      simp [isEnclosed, hsign]
    · rfl
  · rfl

mutual

/-- A plain expression is written like the expression. -/
theorem plainText_render {ctx : RenderContext} : ∀ {e : Expr} {text : String},
    e.render ctx .expression = .ok text → PlainText e text
  | .lit value span, text, h => by
    rw [render] at h
    cases h
    cases value with
    | bool b => cases b <;> exact ⟨rfl, rfl⟩
    | int n | str s => exact ⟨rfl, rfl⟩
  | .ident id, text, h => by
    rw [render] at h
    cases h
    exact ⟨rfl, rfl⟩
  | .binary op left right span, text, h => by
    rw [render] at h
    obtain ⟨l, hl, h⟩ := bind_eq_ok.1 h
    obtain ⟨r, hr, h⟩ := bind_eq_ok.1 h
    rw [if_neg (by simp)] at h
    cases h
    have hleft := plainText_render hl
    have hright := plainText_render hr
    refine ⟨?_, rfl⟩
    rw [plain_binary, render, hleft.render_eq, hright.render_eq, ← hleft.operandText_eq,
      ← hright.operandText_eq]
    simp [bind, Except.bind, pure, Except.pure]
  | .unary op operand span, text, h => by
    rw [render] at h
    obtain ⟨t, ht, h⟩ := bind_eq_ok.1 h
    cases h
    have hoperand := plainText_render ht
    rw [prefixedText_expression, ← hoperand.operandText_eq]
    cases op with
    | neg => exact ⟨render_negated hoperand.render_eq, isEnclosed_negated _⟩
    | not | bitNot =>
      refine ⟨?_, rfl⟩
      rw [plain_unary (by decide), render, hoperand.render_eq, ← prefixedText_expression]
      rfl
  | .test op subject pattern capture span, text, h => by
    rw [render] at h
    obtain ⟨s, hs, h⟩ := bind_eq_ok.1 h
    obtain ⟨p, hp, h⟩ := bind_eq_ok.1 h
    cases h
    have hsubject := plainText_render hs
    have hpattern := plainText_render hp
    refine ⟨?_, rfl⟩
    rw [plain_test, render, hsubject.render_eq, hpattern.render_eq, ← hsubject.operandText_eq,
      ← hpattern.operandText_eq]
    rfl
  | .call callee args span, text, h => by
    rw [render] at h
    split at h
    · cases h
    · obtain ⟨texts, htexts, h⟩ := bind_eq_ok.1 h
      cases h
      refine ⟨?_, by rw [plain_call]; rfl⟩
      rw [plain_call, render, renderAll_plain htexts]
      rfl
  | .index target key span, text, h => by
    cases target with
    | ident id =>
      rw [render] at h
      obtain ⟨k, hk, h⟩ := bind_eq_ok.1 h
      cases h
      refine ⟨?_, rfl⟩
      rw [plain_index, plain_ident, render, (plainText_render hk).render_eq]
      rfl
    | _ =>
      rw [render] at h
      · cases h
      · intro id hid
        cases hid
  | .range first last span, text, h => by
    rw [render] at h
    obtain ⟨a, b, hplain, rfl⟩ := renderRange_eq_ok h
    refine ⟨?_, by rw [hplain]; rfl⟩
    rw [hplain, render, renderAll_number fun n hn => bounds_of_mem_rangeElements hn]
    rfl
  | .array elements span, text, h => by
    rw [render] at h
    obtain ⟨texts, htexts, h⟩ := bind_eq_ok.1 h
    cases h
    refine ⟨?_, by rw [plain_array]; rfl⟩
    rw [plain_array, render, renderAll_plain htexts]
    rfl
  | .dict entries span, text, h => by
    rw [render] at h
    obtain ⟨texts, htexts, h⟩ := bind_eq_ok.1 h
    cases h
    refine ⟨?_, by rw [plain_dict]; rfl⟩
    rw [plain_dict, render, renderEntries_plain htexts]
    rfl

/-- Arguments and elements have the texts of their plain forms. -/
theorem renderAll_plain {ctx : RenderContext} : ∀ {es : List Expr} {texts : List String},
    renderAll ctx es = .ok texts → renderAll noContext (es.map plain) = .ok texts
  | [], texts, h => h
  | e :: es, texts, h => by
    rw [renderAll] at h
    obtain ⟨text, he, h⟩ := bind_eq_ok.1 h
    obtain ⟨rest, hrest, h⟩ := bind_eq_ok.1 h
    cases h
    rw [List.map_cons, renderAll, (plainText_render he).render_eq, renderAll_plain hrest]
    rfl

theorem renderEntries_plain {ctx : RenderContext} :
    ∀ {entries : List (Expr × Expr)} {texts : List String},
      renderEntries ctx entries = .ok texts →
      renderEntries noContext (entries.map (Prod.map plain plain)) = .ok texts
  | [], texts, h => h
  | (key, value) :: entries, texts, h => by
    rw [renderEntries] at h
    obtain ⟨k, hk, h⟩ := bind_eq_ok.1 h
    obtain ⟨v, hv, h⟩ := bind_eq_ok.1 h
    obtain ⟨rest, hrest, h⟩ := bind_eq_ok.1 h
    cases h
    rw [List.map_cons, Prod.map, renderEntries, (plainText_render hk).render_eq,
      (plainText_render hv).render_eq, renderEntries_plain hrest]
    rfl

end

end Expr

end EdgeScript
