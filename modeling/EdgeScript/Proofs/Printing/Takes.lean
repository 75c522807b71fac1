import EdgeScript.Proofs.Parsing.Scheme
import EdgeScript.Proofs.Printing.Expr

/-!
# Parsers that take given tokens

`Takes x ks rest P` says that a parser succeeds on given tokens: from any stream that starts with
the kinds `ks` and goes on with `rest`, `x` takes exactly `ks` and gives what `P` says.  Places do
not matter, so a stream is known by the kinds of its tokens.

Recursion and repetition come with rules in which no fuel is left.  A parser that calls itself may
be taken to do so rightly on all shorter streams (`takes_fix`), and a loop is followed round by
round (`LoopTakes`).
-/

set_option autoImplicit false

namespace EdgeScript

namespace Stream

/-- The kinds of the tokens that are left. -/
def kinds (s : Stream) : List TokenKind := s.tokens.map Token.kind

theorem kind_current (s : Stream) : s.current.kind = s.kinds.headD .eof := by
  rw [current, kinds]
  cases s.tokens <;> rfl

theorem kinds_advance (s : Stream) : s.advance.kinds = s.kinds.tail := by
  rw [advance, kinds, kinds]
  cases h : s.tokens with
  | nil => simp [h]
  | cons t rest => rfl

end Stream

namespace Parser

variable {α β : Type}

/-- In front of `rest`, the parser takes the tokens `ks` and gives what `P` says. -/
structure Takes (x : Parser α) (ks rest : List TokenKind) (P : α → Prop) : Prop where
  run : ∀ s : Stream, s.kinds = ks ++ rest → ∃ a s', x.run s = .ok (a, s') ∧ s'.kinds = rest ∧ P a

variable {x : Parser α} {f : α → Parser β} {ks ks' rest : List TokenKind} {P : α → Prop}
  {Q : β → Prop}

theorem takes_pure {a : α} (h : P a) : Takes (pure a) [] rest P :=
  ⟨fun s hs => ⟨a, s, rfl, hs, h⟩⟩

theorem Takes.bind (hx : Takes x ks (ks' ++ rest) P) (hf : ∀ a, P a → Takes (f a) ks' rest Q) :
    Takes (x >>= f) (ks ++ ks') rest Q := by
  refine ⟨fun s hs => ?_⟩
  obtain ⟨a, t, hrun, ht, ha⟩ := hx.run s (by rw [hs, List.append_assoc])
  obtain ⟨b, u, hrun', hu, hb⟩ := (hf a ha).run t ht
  refine ⟨b, u, ?_, hu, hb⟩
  rw [StateT.run_bind, hrun]
  exact hrun'

/-- Behind a parser that takes nothing. -/
theorem Takes.next (hx : Takes x [] (ks ++ rest) P) (hf : ∀ a, P a → Takes (f a) ks rest Q) :
    Takes (x >>= f) ks rest Q :=
  hx.bind hf

/-- Behind a parser that takes a single token. -/
theorem Takes.after {k : TokenKind} (hx : Takes x [k] (ks ++ rest) P)
    (hf : ∀ a, P a → Takes (f a) ks rest Q) : Takes (x >>= f) (k :: ks) rest Q :=
  hx.bind hf

/-- Behind a parser that takes nothing and gives a known value. -/
theorem Takes.next_eq {a : α} (hx : Takes x [] (ks ++ rest) (· = a)) (hf : Takes (f a) ks rest Q) :
    Takes (x >>= f) ks rest Q :=
  hx.next fun b hb => by rwa [hb]

/-- Behind a parser that takes a single token and gives a known value. -/
theorem Takes.after_eq {k : TokenKind} {a : α} (hx : Takes x [k] (ks ++ rest) (· = a))
    (hf : Takes (f a) ks rest Q) : Takes (x >>= f) (k :: ks) rest Q :=
  hx.after fun b hb => by rwa [hb]

theorem Takes.mono {P' : α → Prop} (h : Takes x ks rest P) (hP : ∀ a, P a → P' a) :
    Takes x ks rest P' := by
  refine ⟨fun s hs => ?_⟩
  obtain ⟨a, s', hrun, hs', ha⟩ := h.run s hs
  exact ⟨a, s', hrun, hs', hP a ha⟩

/-! ## Single tokens -/

theorem takes_current : Takes current [] rest fun t => t.kind = rest.headD .eof :=
  ⟨fun s hs => ⟨s.current, s, rfl, hs, by rw [s.kind_current, hs, List.nil_append]⟩⟩

theorem takes_currentKind : Takes currentKind [] rest fun kind => kind = rest.headD .eof :=
  ⟨fun s hs => ⟨s.current.kind, s, rfl, hs, by rw [s.kind_current, hs, List.nil_append]⟩⟩

theorem takes_spanFrom (start : Span) : Takes (spanFrom start) [] rest fun _ => True :=
  ⟨fun s hs => ⟨_, s, rfl, hs, trivial⟩⟩

theorem takes_advance (k : TokenKind) : Takes advance [k] rest fun t => t.kind = k := by
  refine ⟨fun s hs => ⟨s.current, s.advance, rfl, ?_, ?_⟩⟩
  · rw [s.kinds_advance, hs]
    rfl
  · rw [s.kind_current, hs]
    rfl

theorem takes_check (kind : TokenKind) :
    Takes (check kind) [] rest fun b => b = (rest.headD .eof == kind) :=
  takes_currentKind.next fun _ hk => takes_pure (by rw [hk, List.nil_append])

theorem takes_check_of_ne {kind : TokenKind} (h : rest.headD .eof ≠ kind) :
    Takes (check kind) [] rest fun b => b = false :=
  (takes_check kind).mono fun _ hb => by rw [hb, beq_false_of_ne h]

theorem takes_atEnd : Takes atEnd [] rest fun b => b = (rest.headD .eof == .eof) := takes_check .eof

theorem takes_symbol (s : Symbol) : Takes (symbol s) [.symbol s] rest fun _ => True := by
  refine (takes_check _).next fun b hb => ?_
  rw [hb, if_pos (by simp)]
  exact (takes_advance _).mono fun _ _ => trivial

theorem takes_consumeSymbol (s : Symbol) :
    Takes (consumeSymbol s) [.symbol s] rest fun b => b = true := by
  refine (takes_check _).next fun b hb => ?_
  rw [hb, if_pos (by simp)]
  exact (takes_advance _).after fun _ _ => takes_pure rfl

theorem takes_consumeSymbol_of_ne {s : Symbol} (h : rest.headD .eof ≠ .symbol s) :
    Takes (consumeSymbol s) [] rest fun b => b = false := by
  refine (takes_check _).next fun b hb => ?_
  rw [hb, if_neg (by simpa using h)]
  exact takes_pure rfl

/-- A node is made of its parts at the end of its text. -/
theorem takes_spanned {start : Span} {g : Span → α} (h : ∀ span, P (g span)) :
    Takes (do return g (← spanFrom start)) [] rest P :=
  (takes_spanFrom start).next fun span _ => takes_pure (h span)

/-! ## Recursion -/

/-- A parser that calls itself.  `T` are the calls that are to succeed; each may rely on those on
shorter streams. -/
theorem takes_fix {body : (α → Parser β) → α → Parser β}
    {T : α → List TokenKind → List TokenKind → (β → Prop) → Prop}
    (h : ∀ again {a ks rest Q}, T a ks rest Q →
      (∀ {a' ks' rest' Q'}, T a' ks' rest' Q' → (ks' ++ rest').length < (ks ++ rest).length →
        Takes (again a') ks' rest' Q') → Takes (body again a) ks rest Q)
    {a : α} (ha : T a ks rest Q) : Takes (fix body a) ks rest Q := by
  -- fuel for as many rounds as there are tokens is enough, since every call leaves less than there
  -- were
  have hfixAt (fuel : Nat) : ∀ {a ks rest Q}, T a ks rest Q → (ks ++ rest).length < fuel →
      Takes (fixAt body fuel a) ks rest Q := by
    induction fuel with
    | zero => exact fun _ hfuel => absurd hfuel (Nat.not_lt_zero _)
    | succ fuel ih => exact fun ht hfuel => h _ ht fun ht' hlength => ih ht' (by omega)
  refine ⟨fun s hs => ?_⟩
  have hlength : (ks ++ rest).length < s.tokens.length + 1 := by
    rw [← hs, Stream.kinds, List.length_map]
    exact Nat.lt_succ_self _
  exact (hfixAt (s.tokens.length + 1) ha hlength).run s hs

/-- The rounds of a loop that takes the tokens `ks` from the state `a` on: each but the last takes a
token. -/
inductive LoopTakes (step : α → Parser (α ⊕ β)) (rest : List TokenKind) (Q : β → Prop) :
    α → List TokenKind → Prop
  | done {a : α} {ks : List TokenKind} (h : Takes (step a) ks rest fun r => ∃ b, r = .inr b ∧ Q b) :
      LoopTakes step rest Q a ks
  | round {a : α} {ks ks' : List TokenKind} {I : α → Prop} (hne : ks ≠ [])
      (h : Takes (step a) ks (ks' ++ rest) fun r => ∃ a', r = .inl a' ∧ I a')
      (more : ∀ a', I a' → LoopTakes step rest Q a' ks') : LoopTakes step rest Q a (ks ++ ks')

theorem takes_loop {step : α → Parser (α ⊕ β)} {a : α} (h : LoopTakes step rest Q a ks) :
    Takes (loop step a) ks rest Q := by
  refine takes_fix (T := fun a ks rest Q => LoopTakes step rest Q a ks)
    (fun again {a ks rest Q} h hagain => ?_) h
  cases h with
  | done h =>
    rw [← List.append_nil ks]
    refine Takes.bind (by rwa [List.nil_append]) fun r hr => ?_
    obtain ⟨b, rfl, hb⟩ := hr
    exact takes_pure hb
  | round hne h more =>
    refine h.bind fun r hr => ?_
    obtain ⟨a', rfl, ha'⟩ := hr
    refine hagain (more a' ha') ?_
    simp only [List.length_append]
    have hpos := List.length_pos_iff.2 hne
    omega

/-! ## Lists -/

section CommaList

variable {γ : Type} {closing : TokenKind} {item : List α → Parser α} {R : γ → α → Prop}
  {text : γ → List TokenKind} {bound : Nat}

/-- Each of the items is read from its text, in front of a comma and in front of the end of the
list.  A text does not start like the end of the list, and `bound` limits how much is left to be
read. -/
structure ReadsItems (closing : TokenKind) (item : List α → Parser α) (R : γ → α → Prop)
    (text : γ → List TokenKind) (bound : Nat) (xs : List γ) : Prop where
  starts : ∀ x ∈ xs, ∃ k ks, text x = k :: ks ∧ k ≠ closing ∧ k ≠ .eof
  takes : ∀ x ∈ xs, ∀ read rest, rest.headD .eof = .symbol .comma ∨ rest.headD .eof = closing →
    (text x ++ rest).length < bound → Takes (item read) (text x) rest (R x)

theorem ReadsItems.tail {x : γ} {xs : List γ} (h : ReadsItems closing item R text bound (x :: xs)) :
    ReadsItems closing item R text bound xs :=
  ⟨fun y hy => h.starts y (.tail _ hy), fun y hy => h.takes y (.tail _ hy)⟩

theorem takes_commaStep_done (hrest : rest.headD .eof = closing) (read : List α) :
    Takes (commaStep closing item read) [] rest fun r => ∃ ys, r = .inr ys ∧ ys = read := by
  refine (takes_check closing).next fun b hb => takes_atEnd.next fun c _ => ?_
  rw [hb, List.nil_append, hrest, if_pos (by simp)]
  exact takes_pure ⟨read, rfl, rfl⟩

/-- An item is read, and then what follows decides. -/
theorem takes_commaStep {x : γ} {xs : List γ} (h : ReadsItems closing item R text bound (x :: xs))
    (read : List α) {Q : List α ⊕ List α → Prop}
    (hnext : (ks ++ rest).headD .eof = .symbol .comma ∨ (ks ++ rest).headD .eof = closing)
    (hbound : (text x ++ (ks ++ rest)).length < bound)
    (hcomma : ∀ y, R x y → Takes (do
      if ← consumeSymbol .comma then return .inl (read ++ [y])
      else return .inr (read ++ [y])) ks rest Q) :
    Takes (commaStep closing item read) (text x ++ ks) rest Q := by
  obtain ⟨k, ks', htext, hk, heof⟩ := h.starts x List.mem_cons_self
  refine (takes_check closing).next fun b hb => takes_atEnd.next fun c hc => ?_
  have hgo : ¬ (b || c) = true := by
    rw [hb, hc, htext]
    simp [hk, heof]
  rw [if_neg hgo]
  exact (h.takes x List.mem_cons_self read _ hnext hbound).bind hcomma

/-- The items of a list from one of them on, behind those in `read`. -/
theorem loopTakes_commaStep (hclosing : closing ≠ .symbol .comma)
    (hrest : rest.headD .eof = closing) {Q : List α → Prop} {x : γ} {xs : List γ}
    (h : ReadsItems closing item R text bound (x :: xs)) {read : List α}
    (hbound : (text x ++ xs.flatMap (.symbol .comma :: text ·) ++ rest).length < bound)
    (hQ : ∀ ys, List.Forall₂ R (x :: xs) ys → Q (read ++ ys)) :
    LoopTakes (commaStep closing item) rest Q read
      (text x ++ xs.flatMap (.symbol .comma :: text ·)) := by
  induction xs generalizing x read with
  | nil =>
    refine .done (takes_commaStep h read (.inr hrest) (by simpa using hbound) fun y hy => ?_)
    refine (takes_consumeSymbol_of_ne (by rwa [List.flatMap_nil, List.nil_append, hrest])).next_eq
      ?_
    exact takes_pure ⟨_, rfl, hQ [y] (.cons hy .nil)⟩
  | cons x' xs ih =>
    rw [List.flatMap_cons, List.cons_append, ← List.singleton_append, ← List.append_assoc]
    rw [List.flatMap_cons] at hbound
    refine .round (I := fun read' => ∃ y, R x y ∧ read' = read ++ [y]) (by simp)
      (takes_commaStep h read (.inl rfl) (by simpa using hbound) fun y hy => ?_)
        fun read' hread' => ?_
    · refine (takes_consumeSymbol .comma).after_eq ?_
      exact takes_pure ⟨_, rfl, y, hy, rfl⟩
    · obtain ⟨y, hy, rfl⟩ := hread'
      refine ih h.tail ?_ fun ys hys => ?_
      · simp only [List.length_append, List.length_cons] at hbound ⊢
        omega
      · rw [List.append_assoc]
        exact hQ (y :: ys) (.cons hy hys)

/-- A list is read as the items it is written from. -/
theorem takes_commaList {xs : List γ} (h : ReadsItems closing item R text bound xs)
    (hclosing : closing ≠ .symbol .comma) (hrest : rest.headD .eof = closing)
    (hbound : (TokenKind.joined (xs.map text) ++ rest).length < bound) :
    Takes (commaList closing item) (TokenKind.joined (xs.map text)) rest (List.Forall₂ R xs) := by
  rw [commaList_eq_loop]
  cases xs with
  | nil =>
    refine takes_loop (.done ((takes_commaStep_done hrest []).mono fun r hr => ?_))
    obtain ⟨ys, hr, rfl⟩ := hr
    exact ⟨[], hr, .nil⟩
  | cons x xs =>
    simp only [List.map_cons, TokenKind.joined, List.flatMap_map] at hbound ⊢
    exact takes_loop (loopTakes_commaStep hclosing hrest h hbound fun ys hys => hys)

end CommaList

end Parser

end EdgeScript
