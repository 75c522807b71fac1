import EdgeScript.Token.Lexer

/-!
# Token streams and parsers

A `Stream` is what is left of a script's tokens.  Its last token, the end of the script, is kept
apart and is never read away, so there is always a current token.  A `Parser` reads from the front
of a stream or fails.

## Recursion

Parsers call themselves on shorter streams only.  `Parser.fix` ties the knot: it hands its body to
itself as often as there are tokens, which is often enough for a body that reads a token before it
calls itself.  `Parser.loop` repeats a step in the same way.
-/

set_option autoImplicit false

namespace EdgeScript

/-- The tokens that are left of a script. -/
structure Stream where
  /-- The place of the token read last; at the start, that of the first token. -/
  previous : Span
  /-- The tokens in front of the end of the script. -/
  tokens : List Token
  /-- The place of the end of the script. -/
  finish : Span
  /-- How many captures the condition being read has; `none` outside of a condition. -/
  captures : Option Nat
deriving Repr

namespace Stream

/-- The end of a token list: the place of its last token if that is the end of the script, and the
end of its last token otherwise. -/
def splitEnd (tokens : List Token) : List Token × Span :=
  match tokens.getLast? with
  | none => ([], Span.none)
  | some last =>
    if last.kind = .eof then (tokens.dropLast, last.span)
    else (tokens, ⟨last.span.stop, last.span.stop, last.span.file⟩)

/-- The stream of a token list, which need not end with the end of the script. -/
def ofTokens (tokens : List Token) : Stream :=
  let (front, finish) := splitEnd tokens
  ⟨(front.head?.map Token.span).getD finish, front, finish, none⟩

/-- The token to be read next. -/
def current (s : Stream) : Token :=
  match s.tokens with
  | t :: _ => t
  | [] => ⟨.eof, s.finish⟩

/-- The kind of the token behind the current one. -/
def peekKind (s : Stream) : TokenKind :=
  match s.tokens with
  | _ :: t :: _ => t.kind
  | _ => .eof

/-- The stream behind the current token; the end of the script stays. -/
def advance (s : Stream) : Stream :=
  match s.tokens with
  | t :: rest => { s with previous := t.span, tokens := rest }
  | [] => s

end Stream

/-- Something read from the front of a token stream. -/
abbrev Parser := StateT Stream (Except Error)

namespace Parser

/-- The token to be read next. -/
def current : Parser Token := return (← get).current

/-- The kind of the token to be read next. -/
def currentKind : Parser TokenKind := return (← get).current.kind

/-- The kind of the token behind the current one. -/
def peekKind : Parser TokenKind := return (← get).peekKind

/-- The place of the token read last. -/
def previousSpan : Parser Span := return (← get).previous

/-- Reads one token, whatever it is. -/
def advance : Parser Token := do
  let s ← get
  set s.advance
  return s.current

/-- Whether the current token is of the given kind. -/
def check (kind : TokenKind) : Parser Bool := return (← currentKind) == kind

/-- Whether the script ends here. -/
def atEnd : Parser Bool := check .eof

/-- Fails at the current token, where something else was expected. -/
def unexpected {α : Type} (expected : String) : Parser α := do
  let t ← current
  throw (.unexpectedToken expected t.kind t.span)

/-- Fails because of a construct in the wrong place. -/
def misplaced {α : Type} (what : Misplacement) (span : Span) : Parser α :=
  throw (.misplaced what span)

/-- Reads a token of the given kind. -/
def expect (kind : TokenKind) : Parser Token := do
  if ← check kind then advance else unexpected kind.describe

/-- Reads a symbol. -/
def symbol (s : Symbol) : Parser Token := expect (.symbol s)

/-- Reads a token of the given kind if it comes next; the answer tells whether it did. -/
def consume (kind : TokenKind) : Parser Bool := do
  if ← check kind then
    let _ ← advance
    return true
  else return false

/-- Reads a symbol if it comes next. -/
def consumeSymbol (s : Symbol) : Parser Bool := consume (.symbol s)

/-- The least span from `start` to the token read last. -/
def spanFrom (start : Span) : Parser Span := return start.merge (← previousSpan)

/-! ## Recursion -/

/-- `body` handed to itself `fuel` times. -/
def fixAt {α β : Type} (body : (α → Parser β) → α → Parser β) : Nat → α → Parser β
  | 0, _ => unexpected "fewer tokens"
  | fuel + 1, a => body (fixAt body fuel) a

/-- `body` handed to itself, for a body that reads a token before it calls itself. -/
def fix {α β : Type} (body : (α → Parser β) → α → Parser β) (a : α) : Parser β := do
  fixAt body ((← get).tokens.length + 1) a

/-- Repeats `step` as long as it gives a new state (`Sum.inl`), until it gives a result. -/
def loop {α β : Type} (step : α → Parser (α ⊕ β)) : α → Parser β :=
  fix fun again a => do
    match ← step a with
    | .inl a => again a
    | .inr b => return b

/-- Items separated by commas up to, and without, the token `closing`; a comma may follow the last
one.  Each item may look at those in front of it. -/
def commaList {α : Type} (closing : TokenKind) (item : List α → Parser α) : Parser (List α) :=
  loop (fun read => do
    if (← check closing) || (← atEnd) then return .inr read
    let x ← item read
    if ← consumeSymbol .comma then return .inl (read ++ [x])
    else return .inr (read ++ [x])) []

end Parser

end EdgeScript
