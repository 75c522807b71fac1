import EdgeScript.Proofs.Parsing.Expr
import EdgeScript.Proofs.Printing.Takes

/-!
# Reading operands

What stands between binary operators is read back from its tokens: a primary expression, what is
selected from it and the operators in front of it (`takes_unary`).  The grammar reads them by way of
a parser for the expressions inside of brackets, which is a parameter here (`ReadsWithin`).
-/

set_option autoImplicit false

namespace EdgeScript

open EdgeScript.Parser

/-! ## What may follow an expression -/

namespace TokenKind

/-- Whether a token may continue the operand in front of it. -/
def continuesOperand : TokenKind → Bool
  | .str _ | .symbol .openParen | .symbol .openBracket | .symbol .dot | .keyword .as_ => true
  | _ => false

/-- Whether an expression ends in front of the token, whatever its operators are. -/
def delimits : TokenKind → Bool
  | .symbol .closeParen | .symbol .closeBracket | .symbol .closeBrace | .symbol .comma
  | .symbol .colon | .symbol .dotDot | .eof => true
  | _ => false

end TokenKind

/-! ## Operators -/

/-- The token of a binary operator is one that goes on an expression. -/
theorem BinOp.exists_precedence? (op : BinOp) : ∃ p, op.token.precedence? = some p ∧ 1 ≤ p := by
  cases op <;> exact ⟨_, rfl, by decide⟩

theorem MatchOp.exists_precedence? (op : MatchOp) : ∃ p, op.token.precedence? = some p ∧ 1 ≤ p := by
  cases op <;> exact ⟨_, rfl, by decide⟩

/-- The token of a prefix operator is read as this operator. -/
@[simp]
theorem UnOp.unOp?_token (op : UnOp) : Grammar.unOp? op.token = some op := by
  cases op <;> rfl

theorem UnOp.delimits_token (op : UnOp) : op.token.delimits = false := by
  cases op <;> rfl

theorem Literal.delimits_token (value : Literal) : value.token.delimits = false := by
  cases value with
  | bool b => cases b <;> rfl
  | _ => rfl

/-- No literal starts like a prefix operator. -/
theorem Literal.unOp?_token (value : Literal) : Grammar.unOp? value.token = none := by
  cases value with
  | bool b => cases b <;> rfl
  | _ => rfl

namespace Expr

open TokenKind

/-! ## Spellings -/

/-- The tokens are those of the expression: in parentheses or, if it may be `bare`, without. -/
inductive Spelled (bare : Prop) (e : Expr) : List TokenKind → Prop
  | bare (h : bare) : Spelled bare e e.kinds
  | enclosed : Spelled bare e (inParens e.kinds)

theorem Spelled.mono {bare bare' : Prop} {e : Expr} {ks : List TokenKind} (h : Spelled bare e ks)
    (himp : bare → bare') : Spelled bare' e ks := by
  cases h with
  | bare h => exact .bare (himp h)
  | enclosed => exact .enclosed

/-- An expression is spelled with its parentheses, or without if they are not needed. -/
theorem spelled_enclosedIf (e : Expr) (needed : Bool) :
    Spelled (needed = false) e (enclosedIf needed e.kinds) := by
  cases needed with
  | false => exact .bare rfl
  | true => exact .enclosed

/-- An operand has a prefix operator or none at all. -/
theorem Spelled.unary_or_plain {e : Expr} {ks : List TokenKind}
    (h : Spelled (e.precedence? = none) e ks) :
    (∃ op operand span, e = .unary op operand span ∧
      ks = op.token :: enclosedIf operand.precedence?.isSome operand.kinds) ∨
      Spelled (e.isOperator = false) e ks := by
  cases h with
  | enclosed => exact .inr .enclosed
  | bare h =>
    cases e with
    | unary op operand span => exact .inl ⟨op, operand, span, rfl, rfl⟩
    | binary op =>
      obtain ⟨p, hp, -⟩ := op.exists_precedence?
      exact absurd (hp.symm.trans h) (Option.some_ne_none p)
    | test op =>
      obtain ⟨p, hp, -⟩ := op.exists_precedence?
      exact absurd (hp.symm.trans h) (Option.some_ne_none p)
    | _ => exact .inr (.bare rfl)

/-- The tokens start like an expression: not like the end of one and, if it is `plain`, without a
prefix operator. -/
def Starts (plain : Prop) (ks : List TokenKind) : Prop :=
  ∃ k more, ks = k :: more ∧ k.delimits = false ∧ (plain → Grammar.unOp? k = none)

/-- What starts with an expression starts as the expression does. -/
theorem Starts.append {plain plain' bare : Prop} {e : Expr} (h : Starts plain e.kinds)
    {ks : List TokenKind} (hks : Spelled bare e ks) (himp : plain' → bare → plain)
    (ks' : List TokenKind) : Starts plain' (ks ++ ks') := by
  cases hks with
  | bare hbare =>
    obtain ⟨k, more, heq, hk, hop⟩ := h
    exact ⟨k, more ++ ks', by rw [heq, List.cons_append], hk, fun h => hop (himp h hbare)⟩
  | enclosed => exact ⟨_, _, rfl, rfl, fun _ => rfl⟩

/-- No expression starts with a token that ends one, and only one that is put together by operators
may start with a prefix operator. -/
theorem starts_kinds : ∀ e : Expr, Starts (e.isOperator = false) e.kinds
  | .lit value _ => ⟨_, _, rfl, value.delimits_token, fun _ => value.unOp?_token⟩
  | .binary _ left _ _ =>
    (starts_kinds left).append (left.spelled_enclosedIf _) (fun h _ => Bool.noConfusion h) _
  | .test _ subject _ _ _ =>
    (starts_kinds subject).append (subject.spelled_enclosedIf _) (fun h _ => Bool.noConfusion h) _
  | .unary op _ _ => ⟨_, _, rfl, op.delimits_token, fun h => Bool.noConfusion h⟩
  | .index target _ _ => (starts_kinds target).append (target.spelled_enclosedIf _) (fun _ h => h) _
  | .ident _ | .call .. | .range .. | .array .. | .dict .. => ⟨_, _, rfl, rfl, fun _ => rfl⟩

/-- So a list of items never looks empty where an item stands. -/
theorem Starts.exists_ne {plain : Prop} {ks : List TokenKind} (h : Starts plain ks)
    {closing : TokenKind} (hclosing : closing.delimits = true) :
    ∃ k more, ks = k :: more ∧ k ≠ closing ∧ k ≠ .eof := by
  obtain ⟨k, more, rfl, hk, -⟩ := h
  refine ⟨k, more, rfl, ?_, ?_⟩
  · rintro rfl
    exact Bool.noConfusion (hk.symm.trans hclosing)
  · rintro rfl
    exact Bool.noConfusion hk

theorem Starts.headD_ne {plain : Prop} {ks : List TokenKind} (h : Starts plain ks)
    {closing : TokenKind} (hclosing : closing.delimits = true) (rest : List TokenKind) :
    (ks ++ rest).headD .eof ≠ closing := by
  obtain ⟨k, more, rfl, hk, -⟩ := h.exists_ne hclosing
  exact hk

/-- The items of a list behind the first, each with its comma. -/
def moreItems (es : List Expr) : List TokenKind := es.flatMap (.symbol .comma :: ·.kinds)

/-- Items are the first of them and what comes behind it. -/
theorem joined_map_cons (e : Expr) (es : List Expr) :
    joined ((e :: es).map kinds) = e.kinds ++ moreItems es := by
  rw [List.map_cons, joined, List.flatMap_map, moreItems]

/-- Behind an item comes a comma or what follows the list. -/
theorem headD_moreItems {P : TokenKind → Prop} (hcomma : P (.symbol .comma)) {rest : List TokenKind}
    (hrest : P (rest.headD .eof)) (es : List Expr) : P ((moreItems es ++ rest).headD .eof) := by
  cases es with
  | nil => exact hrest
  | cons => exact hcomma

end Expr

namespace Grammar

open EdgeScript.TokenKind EdgeScript.Expr

/-! ## Expressions within brackets -/

/-- The parser reads whole expressions, in front of what ends them, as far as less than `bound`
tokens are left. -/
def ReadsWithin (x : Parser Expr) (bound : Nat) : Prop :=
  ∀ {e : Expr} {ks rest : List TokenKind}, e.Writable → Spelled True e ks →
    (rest.headD .eof).delimits = true → (ks ++ rest).length < bound → Takes x ks rest (e.Like ·)

variable {x : Parser Expr} {bound : Nat} {ks ks' rest : List TokenKind}

/-- A name is read from its token. -/
theorem takes_ident (name : String) : Takes ident [.ident name] rest fun id => id.name = name := by
  refine takes_current.next fun t ht => ?_
  simp only [List.singleton_append, List.headD_cons] at ht
  rw [ht]
  exact (takes_advance _).after fun _ _ => takes_pure rfl

theorem takes_consumeSymbol_of_starts (e : Expr) {s : Symbol}
    (hs : (TokenKind.symbol s).delimits = true) :
    Takes (consumeSymbol s) [] (e.kinds ++ ks ++ rest) fun b => b = false := by
  refine takes_consumeSymbol_of_ne ?_
  rw [List.append_assoc]
  exact e.starts_kinds.headD_ne hs _

/-- A string ends where no other string stands behind it. -/
theorem takes_adjacentStrings (hrest : ∀ s, rest.headD .eof ≠ .str s) (part : String × Span) :
    Takes (adjacentStrings part) [] rest fun whole => whole = part := by
  refine takes_loop (.done (takes_currentKind.next fun kind hkind => ?_))
  cases kind with
  | str s => exact absurd hkind.symm (hrest s)
  | _ => exact takes_pure ⟨part, rfl, rfl⟩

/-! ## Primary expressions -/

/-- A literal is read from its token. -/
theorem takes_primary_lit (value : Literal) (span : Span) (hrest : ∀ s, rest.headD .eof ≠ .str s) :
    Takes (primary x) [value.token] rest (Expr.Like (.lit value span) ·) := by
  refine takes_current.next fun t ht => ?_
  simp only [List.singleton_append, List.headD_cons] at ht
  rw [ht]
  cases value with
  | int n => exact (takes_advance _).after fun _ _ => takes_pure (.lit _ _ _)
  | str s =>
    refine (takes_advance _).after fun _ _ => (takes_adjacentStrings hrest _).next_eq ?_
    exact takes_pure (.lit _ _ _)
  | bool b =>
    cases b with
    | false => exact (takes_advance _).after fun _ _ => takes_pure (.lit _ _ _)
    | true => exact (takes_advance _).after fun _ _ => takes_pure (.lit _ _ _)

theorem takes_primary_ident (id : Ident) :
    Takes (primary x) [.ident id.name] rest (Expr.Like (.ident id) ·) := by
  refine takes_current.next fun t ht => ?_
  simp only [List.singleton_append, List.headD_cons] at ht
  rw [ht]
  exact (takes_ident id.name).after fun id' hid' => takes_pure (.ident hid')

section Within

variable (hx : ReadsWithin x bound)
include hx

/-- An expression in parentheses is read as what stands in them. -/
theorem takes_primary_enclosed {e : Expr} (he : e.Writable)
    (hbound : (inParens e.kinds ++ rest).length ≤ bound) :
    Takes (primary x) (inParens e.kinds) rest (e.Like ·) := by
  refine takes_current.next fun t ht => ?_
  rw [ht]
  refine (takes_advance _).after fun _ _ => (hx he (.bare trivial) rfl ?_).bind fun e' he' => ?_
  · simp only [inParens, List.length_append, List.length_cons, List.length_nil] at hbound ⊢
    omega
  · exact (takes_symbol _).after fun _ _ => takes_pure he'

/-! ### Arrays and ranges -/

/-- One more element of an array is read behind a comma. -/
theorem takes_elementStep {e : Expr} (he : e.Writable) (read : List Expr)
    (hrest : (rest.headD .eof).delimits = true)
    (hbound : (.symbol .comma :: e.kinds ++ rest).length ≤ bound) :
    Takes (elementStep x read) (.symbol .comma :: e.kinds) rest
      fun r => ∃ read', r = .inl read' ∧ ∃ e', e.Like e' ∧ read' = read ++ [e'] := by
  refine (takes_consumeSymbol .comma).after_eq ?_
  refine (takes_check_of_ne (e.starts_kinds.headD_ne rfl rest)).next_eq ?_
  rw [← List.append_nil e.kinds]
  refine (hx he (.bare trivial) hrest ?_).bind fun e' he' => takes_pure ⟨_, rfl, e', he', rfl⟩
  exact Nat.lt_of_succ_le hbound

/-- The elements of an array behind the first. -/
theorem loopTakes_elementStep {es : List Expr} (hes : ∀ e ∈ es, e.Writable) {read : List Expr}
    {Q : List Expr → Prop} (hrest : rest.headD .eof = .symbol .closeBracket)
    (hbound : (moreItems es ++ rest).length ≤ bound)
    (hQ : ∀ es', List.Forall₂ Like es es' → Q (read ++ es')) :
    LoopTakes (elementStep x) rest Q read (moreItems es) := by
  induction es generalizing read with
  | nil =>
    refine .done ((takes_consumeSymbol_of_ne (ne_of_eq_of_ne hrest (by decide))).next_eq ?_)
    exact takes_pure ⟨read, rfl, by simpa using hQ [] .nil⟩
  | cons e es ih =>
    rw [List.forall_mem_cons] at hes
    rw [moreItems, List.flatMap_cons, ← moreItems] at hbound ⊢
    refine .round (List.cons_ne_nil _ _) (takes_elementStep hx hes.1 read ?_ ?_)
      fun read' hread' => ?_
    · exact headD_moreItems (P := (·.delimits = true)) rfl (by rw [hrest]; rfl) es
    · rwa [← List.append_assoc]
    · obtain ⟨e', he', rfl⟩ := hread'
      refine ih hes.2 ?_ fun es' hes' => ?_
      · simp only [List.length_append] at hbound ⊢
        omega
      · rw [List.append_assoc]
        exact hQ (e' :: es') (.cons he' hes')

/-- Behind its opening bracket an array is read with all its elements. -/
theorem takes_arrayOrRange_array {es : List Expr} (hes : ∀ e ∈ es, e.Writable) (start span : Span)
    (hbound : (joined (es.map kinds) ++ .symbol .closeBracket :: rest).length < bound) :
    Takes (arrayOrRange x start) (joined (es.map kinds) ++ [.symbol .closeBracket]) rest
      (Expr.Like (.array es span) ·) := by
  cases es with
  | nil =>
    refine (takes_consumeSymbol .closeBracket).after_eq ?_
    exact takes_spanned fun _ => .array .nil
  | cons e es =>
    rw [List.forall_mem_cons] at hes
    simp only [joined_map_cons, List.append_assoc] at hbound ⊢
    refine (takes_consumeSymbol_of_starts e rfl).next_eq ?_
    -- behind the first element comes a comma or the closing bracket, so this is no range
    have hnext : ∀ P : TokenKind → Prop, P (.symbol .comma) → P (.symbol .closeBracket) →
        P ((moreItems es ++ [TokenKind.symbol .closeBracket] ++ rest).headD .eof) := by
      intro P hcomma hclosing
      rw [List.append_assoc]
      exact headD_moreItems hcomma (by exact hclosing) es
    refine (hx hes.1 (.bare trivial) (hnext (·.delimits = true) rfl rfl) ?_).bind fun e' he' => ?_
    · simpa using hbound
    have hdots := hnext (· ≠ .symbol .dotDot) (by decide) (by decide)
    refine (takes_consumeSymbol_of_ne hdots).next_eq ?_
    have helements : LoopTakes (elementStep x) (.symbol .closeBracket :: rest)
        (List.Forall₂ Like (e :: es)) [e'] (moreItems es) := by
      refine loopTakes_elementStep hx hes.2 rfl ?_ fun es' hes' => .cons he' hes'
      simp only [List.length_append] at hbound ⊢
      omega
    refine (takes_loop helements).bind fun es' hes' => ?_
    exact (takes_symbol _).after fun _ _ => takes_spanned fun _ => .array hes'

/-- Behind its opening bracket a range is told from an array by the dots behind the first bound. -/
theorem takes_arrayOrRange_range {first last : Expr} (hfirst : first.Writable)
    (hlast : last.Writable) (start span : Span)
    (hbound : (first.kinds ++ .symbol .dotDot :: last.kinds ++ .symbol .closeBracket ::
      rest).length < bound) :
    Takes (arrayOrRange x start)
      (first.kinds ++ .symbol .dotDot :: last.kinds ++ [.symbol .closeBracket])
      rest (Expr.Like (.range first last span) ·) := by
  simp only [List.append_assoc, List.cons_append] at hbound ⊢
  refine (takes_consumeSymbol_of_starts first rfl).next_eq ?_
  refine (hx hfirst (.bare trivial) rfl (by simpa using hbound)).bind fun first' hfirst' => ?_
  refine (takes_consumeSymbol .dotDot).after_eq ?_
  refine (hx hlast (.bare trivial) rfl ?_).bind fun last' hlast' => ?_
  · simp only [List.length_append, List.length_cons, List.length_nil] at hbound ⊢
    omega
  · exact (takes_symbol _).after fun _ _ => takes_spanned fun _ => .range hfirst' hlast'

/-! ### Dictionaries -/

/-- A key is a string or stands in parentheses, so it is never taken for a bare name. -/
theorem takes_dictKey {key : Expr} (hkey : key.Writable)
    (hks : Spelled (key.isString = true) key ks)
    (hbound : (ks ++ .symbol .colon :: rest).length < bound) :
    Takes (dictKey x) ks (.symbol .colon :: rest) (key.Like ·) := by
  refine takes_currentKind.next fun kind hkind => ?_
  have htakes : Takes x ks (.symbol .colon :: rest) (key.Like ·) :=
    hx hkey (hks.mono fun _ => trivial) rfl hbound
  cases hks with
  | enclosed =>
    rw [hkind]
    exact htakes
  | bare hstring =>
    cases key with
    | lit value span =>
      cases value with
      | str s =>
        rw [hkind]
        exact htakes
      | _ => exact Bool.noConfusion hstring
    | _ => exact Bool.noConfusion hstring

/-- Entries are read one after the other, each with its key in or out of parentheses. -/
theorem readsItems_entries {entries : List (Expr × Expr)} (hentries : WritableEntries entries) :
    ReadsItems (.symbol .closeBrace)
      (fun _ => do
        let key ← dictKey x
        let _ ← symbol .colon
        let value ← x
        return (key, value))
      (fun entry entry' => entry.1.Like entry'.1 ∧ entry.2.Like entry'.2)
      (fun entry => enclosedIf (!entry.1.isString) entry.1.kinds ++
        .symbol .colon :: entry.2.kinds) bound entries := by
  rw [writableEntries_iff] at hentries
  refine ⟨fun entry hentry => ?_, fun entry hentry read rest' hrest' hlength => ?_⟩
  · have hstarts :
        Starts False
          (enclosedIf (!entry.1.isString) entry.1.kinds ++ .symbol .colon :: entry.2.kinds) :=
      entry.1.starts_kinds.append (entry.1.spelled_enclosedIf _) (fun h _ => h.elim) _
    exact hstarts.exists_ne rfl
  · obtain ⟨hkey, hvalue⟩ := hentries entry hentry
    rw [List.append_assoc] at hlength
    have hspelled := (entry.1.spelled_enclosedIf (!entry.1.isString)).mono (Bool.not_eq_false' _).mp
    refine (takes_dictKey hx hkey hspelled hlength).bind fun key hkey' => ?_
    refine (takes_symbol _).after fun _ _ => ?_
    rw [← List.append_nil entry.2.kinds]
    refine (hx hvalue (.bare trivial) ?_ ?_).bind fun value hvalue' => takes_pure ⟨hkey', hvalue'⟩
    · obtain h | h := hrest' <;> rw [List.nil_append, h] <;> rfl
    · simp only [List.length_append, List.length_cons, List.nil_append] at hlength ⊢
      omega

theorem takes_dict {entries : List (Expr × Expr)} (hentries : WritableEntries entries)
    (start span : Span)
    (hbound : (joined (kindsEntries entries) ++ .symbol .closeBrace :: rest).length < bound) :
    Takes (dict x start) (joined (kindsEntries entries) ++ [.symbol .closeBrace]) rest
      (Expr.Like (.dict entries span) ·) := by
  rw [kindsEntries_eq_map] at hbound ⊢
  have hitems := readsItems_entries hx hentries
  refine (takes_commaList hitems (by decide) rfl hbound).bind fun entries' hentries' => ?_
  exact (takes_symbol _).after fun _ _ => takes_spanned fun _ => .dict hentries'

/-! ### Brackets of some kind -/

theorem takes_primary_array {es : List Expr} (hes : WritableAll es) (span : Span)
    (hbound : ((Expr.array es span).kinds ++ rest).length ≤ bound) :
    Takes (primary x) (Expr.array es span).kinds rest (Expr.Like (.array es span) ·) := by
  rw [writableAll_iff] at hes
  rw [kinds, kindsAll_eq_map, inBrackets] at hbound ⊢
  refine takes_current.next fun t ht => ?_
  rw [ht]
  refine (takes_advance _).after fun _ _ => takes_arrayOrRange_array hx hes _ span ?_
  simp only [List.length_append, List.length_cons, List.length_nil] at hbound ⊢
  omega

theorem takes_primary_range {first last : Expr} (hfirst : first.Writable) (hlast : last.Writable)
    (span : Span) (hbound : ((Expr.range first last span).kinds ++ rest).length ≤ bound) :
    Takes (primary x) (Expr.range first last span).kinds rest
      (Expr.Like (.range first last span) ·) := by
  rw [kinds, inBrackets] at hbound ⊢
  refine takes_current.next fun t ht => ?_
  rw [ht]
  refine (takes_advance _).after fun _ _ => takes_arrayOrRange_range hx hfirst hlast _ span ?_
  simp only [List.length_append, List.length_cons, List.length_nil] at hbound ⊢
  omega

theorem takes_primary_dict {entries : List (Expr × Expr)} (hentries : WritableEntries entries)
    (span : Span) (hbound : ((Expr.dict entries span).kinds ++ rest).length ≤ bound) :
    Takes (primary x) (Expr.dict entries span).kinds rest (Expr.Like (.dict entries span) ·) := by
  rw [kinds, inBraces] at hbound ⊢
  refine takes_current.next fun t ht => ?_
  rw [ht]
  refine (takes_advance _).after fun _ _ => takes_dict hx hentries _ span ?_
  simp only [List.length_append, List.length_cons, List.length_nil] at hbound ⊢
  omega

/-! ## Calls and indices -/

theorem takes_arguments {args : List Expr} (hargs : WritableAll args)
    (hbound : (joined (kindsAll args) ++ .symbol .closeParen :: rest).length < bound) :
    Takes (arguments x) (joined (kindsAll args) ++ [.symbol .closeParen]) rest
      (List.Forall₂ Like args) := by
  rw [writableAll_iff] at hargs
  rw [kindsAll_eq_map] at hbound ⊢
  have hitems : ReadsItems (.symbol .closeParen) (fun _ => x) Like kinds bound args := by
    refine ⟨fun e _ => e.starts_kinds.exists_ne rfl, fun e he read rest' hrest' hlength => ?_⟩
    refine hx (hargs e he) (.bare trivial) ?_ hlength
    obtain h | h := hrest' <;> rw [h] <;> rfl
  refine (takes_commaList hitems (by decide) rfl hbound).bind fun args' hargs' => ?_
  exact (takes_symbol _).after fun _ _ => takes_pure hargs'

/-- Parentheses behind a name make a call of it. -/
theorem takes_selector_call {callee : Ident} {args : List Expr} (hargs : WritableAll args)
    (span : Span) (hbound : (inParens (joined (kindsAll args)) ++ rest).length ≤ bound) {e : Expr}
    (he : Expr.Like (.ident callee) e) :
    Takes (selector x e) (inParens (joined (kindsAll args))) rest
      fun r => ∃ e', r = .inl e' ∧ Expr.Like (.call callee args span) e' := by
  obtain ⟨callee', rfl, hcallee⟩ := he.exists_ident
  refine takes_current.next fun t ht => ?_
  rw [ht]
  refine (takes_advance _).after fun _ _ => ?_
  rw [← List.append_nil (_ ++ [_])]
  refine (takes_arguments hx hargs ?_).bind fun args' hargs' =>
    takes_spanned fun _ => ⟨_, rfl, .call hcallee hargs'⟩
  simp only [inParens, List.length_append, List.length_cons, List.length_nil] at hbound ⊢
  omega

/-- Brackets behind an operand select from it. -/
theorem takes_selector_index {target key : Expr} (hkey : key.Writable) (span : Span)
    (hbound : (inBrackets key.kinds ++ rest).length ≤ bound) {e : Expr} (he : target.Like e) :
    Takes (selector x e) (inBrackets key.kinds) rest
      fun r => ∃ e', r = .inl e' ∧ Expr.Like (.index target key span) e' := by
  refine takes_current.next fun t ht => ?_
  rw [ht]
  refine (takes_advance _).after fun _ _ => (hx hkey (.bare trivial) rfl ?_).bind
    fun key' hkey' => ?_
  · simp only [inBrackets, List.length_append, List.length_cons, List.length_nil] at hbound ⊢
    omega
  · exact (takes_symbol _).after fun _ _ => takes_spanned fun _ => ⟨_, rfl, .index he hkey'⟩

omit hx in
/-- Selection ends in front of a token that does not go on an operand. -/
theorem takes_selector_done (hrest : (rest.headD .eof).continuesOperand = false) (e : Expr) :
    Takes (selector x e) [] rest fun r => ∃ e', r = .inr e' ∧ e' = e := by
  refine takes_current.next fun t ht => ?_
  rw [List.nil_append] at ht
  rw [← ht] at hrest
  obtain ⟨kind, span⟩ := t
  cases kind with
  | symbol s => cases s <;> first | exact Bool.noConfusion hrest | exact takes_pure ⟨e, rfl, rfl⟩
  | _ => exact takes_pure ⟨e, rfl, rfl⟩

/-- A primary expression with what is selected from it, up to where the selection goes on with
`ks'`. -/
theorem takes_selection {P : Expr → Prop} : ∀ {e : Expr} {ks ks' : List TokenKind}, e.Writable →
    Spelled (e.isOperator = false) e ks → (∀ s, (ks' ++ rest).headD .eof ≠ .str s) →
    (ks ++ (ks' ++ rest)).length ≤ bound →
      (∀ e', e.Like e' → LoopTakes (selector x) rest P e' ks') →
    Takes (primary x >>= loop (selector x)) (ks ++ ks') rest P
  | e, ks, ks', he, hks, hnext, hbound, hmore => by
    -- a call and an index are the selections in front of those in `ks'`; the others are primary
    -- themselves
    have hprimary (h : Takes (primary x) ks (ks' ++ rest) (e.Like ·)) :
        Takes (primary x >>= loop (selector x)) (ks ++ ks') rest P :=
      h.bind fun e' he' => takes_loop (hmore e' he')
    cases hks with
    | enclosed => exact hprimary (takes_primary_enclosed hx he hbound)
    | bare hop =>
      cases e with
      | lit value span => exact hprimary (takes_primary_lit value span hnext)
      | ident id => exact hprimary (takes_primary_ident id)
      | range first last span => exact hprimary (takes_primary_range hx he.1 he.2 span hbound)
      | array es span => exact hprimary (takes_primary_array hx he span hbound)
      | dict entries span => exact hprimary (takes_primary_dict hx he span hbound)
      | call callee args span =>
        rw [kinds] at hbound ⊢
        refine (takes_primary_ident callee).after fun e' he' => takes_loop ?_
        refine .round (List.cons_ne_nil _ _) (takes_selector_call hx he.2 span ?_ he') hmore
        exact Nat.le_of_succ_le hbound
      | index target key span =>
        rw [kinds, List.append_assoc] at hbound ⊢
        refine takes_selection he.1 (target.spelled_enclosedIf _) (fun s => TokenKind.noConfusion)
          (by rwa [List.append_assoc]) fun e' he' => ?_
        refine .round (List.cons_ne_nil _ _) (takes_selector_index hx he.2 span ?_ he') hmore
        simp only [List.length_append] at hbound ⊢
        omega
      | binary | unary | test => exact Bool.noConfusion hop

omit hx in
theorem loopTakes_selector_done (hrest : (rest.headD .eof).continuesOperand = false) {e e' : Expr}
    (he : e.Like e') : LoopTakes (selector x) rest (e.Like ·) e' [] := by
  refine .done ((takes_selector_done hrest e').mono fun r hr => ?_)
  obtain ⟨_, rfl, rfl⟩ := hr
  exact ⟨_, rfl, he⟩

/-! ## Prefix operators -/

/-- An operand is read back: a primary expression with what is selected from it, behind its prefix
operators. -/
theorem takes_unary {e : Expr} (he : e.Writable) (hks : Spelled (e.precedence? = none) e ks)
    (hrest : (rest.headD .eof).continuesOperand = false) (hbound : (ks ++ rest).length ≤ bound) :
    Takes (unary x) ks rest (e.Like ·) := by
  refine takes_fix (T := fun _ ks rest Q => ∃ e : Expr, e.Writable ∧
    Spelled (e.precedence? = none) e ks ∧
    (rest.headD .eof).continuesOperand = false ∧ (ks ++ rest).length ≤ bound ∧ Q = (e.Like ·))
    (fun again {_ ks rest Q} h hagain => ?_) ⟨e, he, hks, hrest, hbound, rfl⟩
  obtain ⟨e, he, hks, hrest, hbound, rfl⟩ := h
  refine takes_currentKind.next fun kind hkind => ?_
  obtain ⟨op, operand, span, rfl, rfl⟩ | hplain := hks.unary_or_plain
  · have hop : unOp? kind = some op := by
      rw [hkind]
      exact op.unOp?_token
    rw [hop]
    refine (takes_advance _).after fun t _ => ?_
    rw [← List.append_nil (enclosedIf _ _)]
    refine (hagain ⟨operand, he, ?_, hrest, Nat.le_of_succ_le hbound, rfl⟩
      (Nat.lt_succ_self _)).bind
      fun operand' hoperand' => takes_pure (.unary op hoperand')
    exact (operand.spelled_enclosedIf _).mono (by simp)
  · have hop : unOp? kind = none := by
      have hstarts : Starts True (ks ++ rest) := e.starts_kinds.append hplain (fun _ h => h) rest
      obtain ⟨k, more, heq, -, hk⟩ := hstarts
      rw [hkind, heq]
      exact hk trivial
    rw [hop, ← List.append_nil ks]
    refine takes_selection hx he hplain (fun s hs => ?_) hbound fun e' he' =>
      loopTakes_selector_done hrest he'
    rw [List.nil_append] at hs
    rw [hs] at hrest
    exact Bool.noConfusion hrest

end Within

end Grammar

end EdgeScript
