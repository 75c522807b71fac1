import Mathlib.Data.List.Basic
import EdgeScript.Proofs.Parsing.Stmt

/-!
# Parsing ends

The tokens of a script, with its end behind them, are numbered (`Stream.closed`), and a stream
stands at one of them (`Stream.At`).  Reading moves a stream to a later token, and never past the
end.  Every part of the grammar, every round of its loops and every call that a part makes of itself
goes on from where it stands, so that the recursion is no deeper than the number of tokens.
-/

set_option autoImplicit false

namespace EdgeScript

/-! ## Places among the tokens -/

namespace Stream

/-- A token list with the end of the script behind it, unless it has one. -/
def closed (tokens : List Token) : List Token :=
  if tokens.getLast?.any fun t => t.kind == .eof then tokens
  else
    let last := (tokens.getLast?.map Token.span).getD Span.none
    tokens ++ [⟨.eof, ⟨last.stop, last.stop, last.file⟩⟩]

/-- The stream stands at a token of the list, all tokens from there on are left, and the token in
front of it was read last; at the first token nothing was. -/
structure At (all : List Token) (pos : Nat) (s : Stream) : Prop where
  lt_length : pos < all.length
  drop_eq : all.drop pos = s.tokens ++ [⟨.eof, s.finish⟩]
  previous_eq : all[pos - 1]?.map Token.span = some s.previous

theorem closed_eq (tokens : List Token) :
    closed tokens = (splitEnd tokens).1 ++ [⟨.eof, (splitEnd tokens).2⟩] := by
  rw [closed, splitEnd]
  cases hlast : tokens.getLast? with
  | none =>
    obtain rfl := List.getLast?_eq_none_iff.1 hlast
    rfl
  | some last =>
    by_cases heof : last.kind = .eof
    · obtain ⟨front, rfl⟩ := List.getLast?_eq_some_iff.1 hlast
      obtain ⟨kind, span⟩ := last
      obtain rfl : kind = .eof := heof
      simp
    · simp [heof]

theorem at_ofTokens (tokens : List Token) : (ofTokens tokens).At (closed tokens) 0 := by
  rw [closed_eq]
  refine ⟨by simp, rfl, ?_⟩
  show _ = some (((splitEnd tokens).1.head?.map Token.span).getD (splitEnd tokens).2)
  cases (splitEnd tokens).1 <;> rfl

variable {all : List Token} {pos n : Nat} {s s' : Stream}

theorem At.length_eq (h : s.At all pos) : all.length = pos + s.tokens.length + 1 := by
  have hlength := congrArg List.length h.drop_eq
  have hlt := h.lt_length
  simp only [List.length_drop, List.length_append, List.length_cons, List.length_nil] at hlength
  omega

theorem At.getElem?_add (h : s.At all pos) (i : Nat) :
    all[pos + i]? = (s.tokens ++ [⟨.eof, s.finish⟩])[i]? := by
  rw [← h.drop_eq, List.getElem?_drop]

theorem At.current_eq (h : s.At all pos) : all[pos]? = some s.current := by
  rw [← Nat.add_zero pos, h.getElem?_add, current]
  cases s.tokens <;> rfl

/-- The index of the token behind the current one; behind the end there is the end. -/
theorem At.min_eq (h : s.At all pos) :
    min (pos + 1) (all.length - 1) = pos + min 1 s.tokens.length := by
  have hlength := h.length_eq
  omega

theorem At.peekKind_eq (h : s.At all pos) :
    all[min (pos + 1) (all.length - 1)]?.map Token.kind = some s.peekKind := by
  rw [h.min_eq, h.getElem?_add, peekKind]
  rcases s.tokens with _ | ⟨t, _ | ⟨t', rest⟩⟩ <;> simp

theorem At.read {front : List Token} (h : s.At all pos) (htokens : s.tokens = front ++ s'.tokens)
    (hfinish : s'.finish = s.finish)
    (hprevious : s'.previous = (front.getLast?.map Token.span).getD s.previous) :
    s'.At all (pos + front.length) := by
  refine ⟨?_, ?_, ?_⟩
  · rw [h.length_eq, htokens, List.length_append]
    omega
  · rw [← List.drop_drop, h.drop_eq, htokens, hfinish, List.append_assoc, List.drop_left]
  · rcases List.eq_nil_or_concat' front with rfl | ⟨init, t, rfl⟩
    · rw [hprevious]
      exact h.previous_eq
    · have hindex : pos + (init ++ [t]).length - 1 = pos + init.length := by simp
      rw [hprevious, hindex, h.getElem?_add, htokens]
      simp

/-- Reading moves on among the tokens. -/
theorem At.reaches (h : s.At all pos) (hs : s.Reaches n s') :
    ∃ pos', pos + n ≤ pos' ∧ s'.At all pos' := by
  obtain ⟨front, htokens, hfinish, hlength, hprevious⟩ := hs
  exact ⟨pos + front.length, Nat.add_le_add_left hlength pos, h.read htokens hfinish hprevious⟩

theorem At.advance (h : s.At all pos) : s.advance.At all (min (pos + 1) (all.length - 1)) := by
  rw [h.min_eq]
  cases htokens : s.tokens with
  | nil =>
    rw [Stream.advance, htokens]
    exact h
  | cons t rest =>
    have hlength : min 1 (t :: rest).length = [t].length := by simp
    rw [hlength]
    refine h.read ?_ ?_ ?_ <;> simp [Stream.advance, htokens]

end Stream

namespace Parser

variable {α β : Type}

/-- Where a parser succeeds, it ends at a token as many places further on as `n` says, or more. -/
def Moves (all : List Token) (n : α → Nat) (x : Parser α) : Prop :=
  ∀ pos s a s', s.At all pos → x.run s = .ok (a, s') → ∃ pos', pos + n a ≤ pos' ∧ s'.At all pos'

theorem Agree.moves {n : α → Nat} {x : Parser α} (h : ∀ s, Agree n s x x) (all : List Token) :
    x.Moves all n :=
  fun _ s a s' hs hrun => hs.reaches ((h s).reaches a s' hrun)

/-- The recursion of a parser ends: `body` calls it behind the place of its own call, its equation
says what it does, and it is unfolded at most once for every token that is left, and for the end. -/
structure Ends (k : β → Nat) (f : α → Parser β) (body : (α → Parser β) → α → Parser β) : Prop where
  descends : Descends k body
  eq_iff : ∀ g, g = f ↔ ∀ a, g a = body g a
  depth_le : ∀ a s fuel, s.tokens.length < fuel → (fixAt body fuel a).run s = (f a).run s

theorem Descends.ends {k : β → Nat} {body : (α → Parser β) → α → Parser β} (h : Descends k body) :
    Ends k (fix body) body :=
  ⟨h, h.eq_fix_iff, fun a _ _ hfuel => (h.agree_fixAt_fix a hfuel).run_eq⟩

end Parser

namespace Grammar

open EdgeScript.Parser

/-! ## The parts of the grammar -/

/-- The parts of the grammar, with the parsers of expressions and statements in them. -/
inductive Production : {α : Type} → Parser α → Prop
  | ident : Production ident
  | adjacentStrings (read : String × Span) : Production (adjacentStrings read)
  | arrayOrRange (start : Span) : Production (arrayOrRange expr start)
  | dictKey : Production (dictKey expr)
  | dict (start : Span) : Production (dict expr start)
  | primary : Production (primary expr)
  | arguments : Production (arguments expr)
  | unary : Production (unary expr)
  | capture? (op : MatchOp) : Production (capture? op)
  | combine (operator : Token) (left right : Expr) : Production (combine operator left right)
  | exprAt (power : Nat) : Production (exprAt power)
  | endStatement : Production endStatement
  | declaration : Production declaration
  | returnStmt (place : Place) : Production (returnStmt place)
  | breakStmt (place : Place) : Production (breakStmt place)
  | forceValue : Production forceValue
  | requirePath : Production requirePath
  | requireForce : Production requireForce
  | requireStmt : Production requireStmt
  | nextOptionKey (isFirst : Bool) : Production (nextOptionKey isFirst)
  | inclusionOption (read : List InclusionOption) : Production (inclusionOption read)
  | inclusion (kind : InclusionKind) : Production (inclusion kind)
  | assignTarget (e : Expr) : Production (assignTarget e)
  | assignedValue (e : Expr) (t : Token) (op : AssignOp) : Production (assignedValue e t op)
  | exprStmt (start : Span) (e : Expr) : Production (exprStmt start e)
  | exprOrAssignment : Production exprOrAssignment
  | statements (place : Place) : Production (statements (statement place))
  | block (place : Place) : Production (block (statement place))
  | body (place : Place) : Production (body (statement place))
  | defaultValue : Production defaultValue
  | param (read : List Param) : Production (param read)
  | inlineMark : Production inlineMark
  | function : Production (function statement)
  | condition : Production condition
  | branch (place : Place) : Production (branch (statement place))
  | branches (place : Place) : Production (branches (statement place))
  | ifChain (place : Place) : Production (ifChain (statement place))
  | loopVar : Production loopVar
  | forLoop (place : Place) : Production (forLoop statement place)
  | handler (place : Place) : Production (handler (statement place))
  | attempt (place : Place) : Production (attempt (statement place))
  | statement (place : Place) : Production (statement place)
  | program : Production program

/-- The rounds of the loops of the grammar: of a script (`program_eq_loop`), a block
(`statements_eq_loop`), the lists with commas in them (`commaList_eq_loop`, `dict_eq`), an array
(`arrayOrRange_eq`), the operators of an expression, what is selected from an operand, strings in a
row (`adjacentStrings_eq_loop`) and a chain (`branches_eq_loop`). -/
inductive Round : {α β : Type} → (α → Parser (α ⊕ β)) → Prop
  | program : Round programStep
  | block (place : Place) : Round (statementStep (statement place))
  | params : Round (commaStep (.symbol .closeParen) param)
  | options : Round (commaStep (.symbol .closeParen) inclusionOption)
  | arguments : Round (commaStep (.symbol .closeParen) fun _ => expr)
  | elements : Round (elementStep expr)
  | entries : Round (commaStep (.symbol .closeBrace) fun _ => entry expr)
  | operators (power : Nat) : Round (operation exprAt power)
  | selectors : Round (selector expr)
  | strings : Round stringStep
  | branches (place : Place) : Round (branchStep (statement place))

/-- The parts of the grammar go on from where they stand. -/
theorem Production.agree {α : Type} {x : Parser α} (h : Production x) (s : Stream) :
    Agree (fun _ => 0) s x x := by
  have hexpr {n : Nat} : ExprFrom .any n s expr expr := fun s' _ _ _ => obeys_expr s'
  have hstmt {n : Nat} (place : Place) :
      StmtFrom .any n s place (Grammar.statement place) (Grammar.statement place) :=
    fun s' _ _ hc => obeys_statement place hc s'
  have hread := s.reaches_advance_zero
  have hc : Scheme.any.outside s.captures := trivial
  have hplain (e : Expr) : Scheme.any.plain e := ⟨none, none, trivial, trivial⟩
  have htoken (t : Token) : Scheme.any.token t := ⟨trivial, fun _ _ => trivial⟩
  cases h with
  | ident => exact (obeys_ident s).weaken.agree_any
  | adjacentStrings read => exact (obeys_adjacentStrings trivial s).agree_any
  | arrayOrRange start => exact (obeys_arrayOrRange hexpr trivial).agree_any
  | dictKey => exact (obeys_dictKey hexpr).weaken.agree_any
  | dict start => exact (obeys_dict hexpr trivial).agree_any
  | primary => exact (obeys_primary hexpr).weaken.agree_any
  | arguments => exact (obeys_arguments hexpr).agree_any
  | unary => exact (obeys_unary hexpr).weaken.agree_any
  | capture? op => exact (obeys_capture? op s).agree_any
  | combine operator left right =>
    exact (obeys_combine (b := none) (c := none) (htoken operator) trivial trivial s).agree_any
  | exprAt power => exact (obeys_exprAt power s).weaken.agree_any
  | endStatement => exact (obeys_endStatement s).agree_any
  | declaration => exact (obeys_declaration .top hread hc).agree_any
  | returnStmt place => exact (obeys_returnStmt hread hc).agree_any
  | breakStmt place => exact (obeys_breakStmt hread hc).agree_any
  | forceValue => exact (obeys_forceValue s).agree_any
  | requirePath => exact (obeys_requirePath s).agree_any
  | requireForce => exact (obeys_requireForce s).agree_any
  | requireStmt => exact (obeys_requireStmt .top hread hc).agree_any
  | nextOptionKey isFirst => exact (obeys_nextOptionKey isFirst s).agree_any
  | inclusionOption read => exact (obeys_inclusionOption read hc s).weaken.agree_any
  | inclusion kind => exact (obeys_inclusion .top hread kind hc).agree_any
  | assignTarget e => exact (obeys_assignTarget (hplain e) s).agree_any
  | assignedValue e t op =>
    exact (obeys_assignedValue (b := none) trivial trivial (htoken t) op s).agree_any
  | exprStmt start e => exact (obeys_exprStmt .top trivial hc (hplain e) s).agree_any
  | exprOrAssignment => exact (obeys_exprOrAssignment .top hc s).weaken.agree_any
  | statements place => exact (obeys_statements (hstmt place) hc).agree_any
  | block place => exact (obeys_block (hstmt place) hc).weaken.agree_any
  | body place => exact (obeys_body (hstmt place) hc).weaken.agree_any
  | defaultValue => exact (obeys_defaultValue s).agree_any
  | param read => exact (obeys_param read s).weaken.agree_any
  | inlineMark => exact (obeys_inlineMark s).agree_any
  | function => exact (obeys_function hstmt .top hread hc).agree_any
  | condition => exact (obeys_condition s).weaken.agree_any
  | branch place => exact (obeys_branch (hstmt place) hc).weaken.agree_any
  | branches place => exact (obeys_branches (hstmt place) hc).weaken.agree_any
  | ifChain place => exact (obeys_ifChain (hstmt place) hc).weaken.agree_any
  | loopVar => exact (obeys_loopVar s).agree_any
  | forLoop place => exact (obeys_forLoop hstmt hread hc).agree_any
  | handler place => exact (obeys_handler (hstmt place) hc).agree_any
  | attempt place => exact (obeys_attempt hread (hstmt place) hc).agree_any
  | statement place => exact (obeys_statement place hc s).weaken.agree_any
  | program => exact (obeys_program hc s).agree_any

/-- What a list reads in a round, nothing being known of its items. -/
theorem agree_commaStep {α : Type} {P : α → Option Nat → Prop} {closing : TokenKind}
    {item : List α → Parser α} {read : List α} {s : Stream}
    (h : Obeys .any (fun _ => 1) s s.captures (item read) (item read) P) :
    Agree perRound s (commaStep closing item read) (commaStep closing item read) :=
  (obeys_commaStep (I := fun _ _ => True) trivial
    (h.mono (fun _ => Nat.le_refl 1) fun _ _ _ => trivial)).agree_any

/-- A round of a loop reads a token, unless it is the last. -/
theorem Round.agree {α β : Type} {step : α → Parser (α ⊕ β)} (h : Round step) (a : α) (s : Stream) :
    Agree perRound s (step a) (step a) := by
  have hexpr {n : Nat} : ExprFrom .any n s expr expr := fun s' _ _ _ => obeys_expr s'
  have hstmt {n : Nat} (place : Place) :
      StmtFrom .any n s place (Grammar.statement place) (Grammar.statement place) :=
    fun s' _ _ hc => obeys_statement place hc s'
  have hc : Scheme.any.outside s.captures := trivial
  cases h with
  | program => exact (obeys_programStep hc (fun _ _ => trivial) s).agree_any
  | block place => exact (obeys_statementStep (hstmt place) hc fun _ _ => trivial).agree_any
  | params => exact agree_commaStep (obeys_param a s)
  | options => exact agree_commaStep (obeys_inclusionOption a hc s)
  | arguments => exact agree_commaStep (obeys_expr s)
  | elements =>
    have hread : Scheme.any.exprs s.captures a s.captures := .of_forall_mem fun _ _ => trivial
    exact (obeys_elementStep hexpr hread).agree_any
  | entries => exact agree_commaStep (obeys_entry hexpr)
  | operators power =>
    have hexprAt (power : Nat) : ExprFrom .any 1 s (exprAt power) (exprAt power) :=
      fun s' _ _ _ => obeys_exprAt power s'
    exact (obeys_operation (b := none) hexprAt power trivial).agree_any
  | selectors => exact (obeys_selector (b := none) hexpr trivial).agree_any
  | strings => exact (obeys_stringStep trivial s).agree_any
  | branches place =>
    have hread : ∀ b ∈ a, Scheme.any.branch place b :=
      fun _ _ => ⟨trivial, ⟨none, trivial⟩, fun _ _ => trivial⟩
    exact (obeys_branchStep (hstmt place) hc hread).round.agree_any

theorem Round.descends {α β : Type} {step : α → Parser (α ⊕ β)} (h : Round step) :
    Descends (fun _ => 0) (rounds step) :=
  descends_rounds h.agree

/-- **Parsing ends on every token list.**  The parser starts at the first token, with the end of the
script behind them all.  At each place the tokens that it looks at are in the list, and reading one
moves on, or stays at the end.  No part of the grammar leaves the list; a statement, an operand and
an expression read a token, and so does each round of a loop that is not the last one.  The parts
that call themselves, and the loops, do so behind their own place alone. -/
theorem parsing_terminates (tokens : List Token) :
    ∃ all, all = Stream.closed tokens ∧ all.getLast?.map Token.kind = some .eof ∧
      (Stream.ofTokens tokens).At all 0 ∧
      (∀ pos (s : Stream), s.At all pos →
        all[pos]? = some s.current ∧ all[pos - 1]?.map Token.span = some s.previous ∧
        all[min (pos + 1) (all.length - 1)]?.map Token.kind = some s.peekKind ∧
        s.advance.At all (min (pos + 1) (all.length - 1))) ∧
      (∀ (α : Type) (x : Parser α), Production x → x.Moves all fun _ => 0) ∧
      (∀ place, (statement place).Moves all fun _ => 1) ∧ (unary expr).Moves all (fun _ => 1) ∧
      (∀ power, (exprAt power).Moves all fun _ => 1) ∧
      (∀ (α β : Type) (step : α → Parser (α ⊕ β)), Round step →
        (∀ a, (step a).Moves all perRound) ∧ Ends (fun _ => 0) (loop step) (rounds step)) ∧
      Ends (fun _ => 1) statement statementWith ∧ Ends (fun _ => 1) exprAt operations ∧
      Ends (fun _ => 1) (fun _ => unary expr) (signed expr) := by
  refine ⟨_, rfl, ?_, Stream.at_ofTokens tokens, fun pos s hs => ?_, fun α x hx => ?_,
    fun place => ?_, ?_, fun power => ?_,
    fun α β step hstep => ⟨fun a => ?_, hstep.descends.ends⟩, ?_, ?_, ?_⟩
  · rw [Stream.closed_eq, List.getLast?_concat]
    rfl
  · exact ⟨hs.current_eq, hs.previous_eq, hs.peekKind_eq, hs.advance⟩
  · exact Agree.moves hx.agree _
  · exact Agree.moves (fun s => (obeys_statement place trivial s).agree_any) _
  · exact Agree.moves (fun s => (obeys_unary fun s' _ _ _ => obeys_expr s').agree_any) _
  · exact Agree.moves (fun s => (obeys_exprAt power s).agree_any) _
  · exact Agree.moves (hstep.agree a) _
  · exact descends_statementWith.ends
  · exact descends_operations.ends
  · exact descends_signed.ends

/-- A token list without an end, and one without tokens. -/
theorem parsing_terminates_unclosed :
    (∃ s', (statement .top).run (.ofTokens [⟨.symbol .semicolon, ⟨0, 1, 0⟩⟩]) = .ok (none, s') ∧
      ∃ pos, 1 ≤ pos ∧ s'.At (Stream.closed [⟨.symbol .semicolon, ⟨0, 1, 0⟩⟩]) pos) ∧
    ∃ s', (programStep []).run (.ofTokens []) = .ok (.inr [], s') ∧
      ∃ pos, s'.At (Stream.closed []) pos := by
  constructor
  · obtain ⟨all, rfl, -, hstart, -, -, hstmt, -⟩ :=
      parsing_terminates [⟨.symbol .semicolon, ⟨0, 1, 0⟩⟩]
    refine ⟨_, rfl, ?_⟩
    obtain ⟨pos, hpos, hs⟩ := hstmt .top 0 _ _ _ hstart rfl
    exact ⟨pos, by omega, hs⟩
  · obtain ⟨all, rfl, -, hstart, -, -, -, -, -, hround, -⟩ := parsing_terminates []
    refine ⟨_, rfl, ?_⟩
    obtain ⟨pos, -, hs⟩ := (hround _ _ _ .program).1 [] 0 _ _ _ hstart rfl
    exact ⟨pos, hs⟩

end Grammar

end EdgeScript
