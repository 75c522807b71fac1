import EdgeScript.Token.Lexeme

/-!
# The lexer

A `Lexer` stands at a place of a source text.  `Lexer.next` reads the token there and moves behind
it, also when the token is faulty, so that reading can go on; `Lexer.all` reads up to the end of the
text, which is itself a token.
-/

set_option autoImplicit false

namespace EdgeScript

/-- A place in a source text. -/
structure Lexer where
  /-- The number of the source unit. -/
  file : Nat
  /-- The whole text. -/
  text : List Char
  /-- The bytes in front of the place. -/
  offset : Nat
  /-- The text from the place on. -/
  rest : List Char
deriving Repr

namespace Lexer

/-- The start of a text. -/
def ofText (text : String) (file : Nat) : Lexer :=
  ⟨file, text.toList, 0, text.toList⟩

/-- Back to the start of the text. -/
def reset (l : Lexer) : Lexer :=
  { l with offset := 0, rest := l.text }

/-- Moves over `n` characters. -/
def advance (l : Lexer) (n : Nat) : Lexer :=
  { l with offset := l.offset + utf8Length (l.rest.take n), rest := l.rest.drop n }

/-- The span from one place to another. -/
def spanTo (l l' : Lexer) : Span :=
  ⟨l.offset, l'.offset, l.file⟩

/-- Reads the token at a place that has no blanks or comments in front. -/
def token (l : Lexer) : Except Error Token × Lexer :=
  match l.rest with
  | [] => (.ok ⟨.eof, l.spanTo l⟩, l)
  | c :: cs =>
    let lexeme := Lexeme.read c cs
    let l' := l.advance (lexeme.more + 1)
    match lexeme.kind with
    | .ok kind => (.ok ⟨kind, l.spanTo l'⟩, l')
    | .error fault => (.error (.lex fault (l.spanTo l')), l')

/-- Reads the next token.  A comment without an end takes the rest of the text. -/
def next (l : Lexer) : Except Error Token × Lexer :=
  match Trivia.skip 0 l.rest with
  | .ok n => (l.advance n).token
  | .error n =>
    let done := l.advance l.rest.length
    (.error (.lex .unterminatedComment ((l.advance n).spanTo done)), done)

@[simp] theorem length_rest_advance (l : Lexer) (n : Nat) :
    (l.advance n).rest.length = l.rest.length - n := by
  simp [advance]

/-- Reading a token other than the end of the text moves on. -/
theorem length_rest_token {l l' : Lexer} {t : Token} (h : l.token = (.ok t, l'))
    (ht : t.kind ≠ .eof) : l'.rest.length < l.rest.length := by
  rw [token] at h
  split at h
  · simp only [Prod.mk.injEq, Except.ok.injEq] at h
    exact absurd (by rw [← h.1]) ht
  · rename_i c cs hrest
    dsimp only at h
    split at h
    · simp only [Prod.mk.injEq] at h
      rw [← h.2, length_rest_advance, hrest, List.length_cons]
      omega
    · simp at h

theorem length_rest_next {l l' : Lexer} {t : Token} (h : l.next = (.ok t, l'))
    (ht : t.kind ≠ .eof) : l'.rest.length < l.rest.length := by
  rw [next] at h
  split at h
  · have := length_rest_token h ht
    rw [length_rest_advance] at this
    omega
  · simp at h

/-- Reads all tokens from a place on; the last one is the end of the text. -/
def all (l : Lexer) : Except Error (List Token) × Lexer :=
  match h : l.next with
  | (.error e, l') => (.error e, l')
  | (.ok t, l') =>
    if ht : t.kind = .eof then (.ok [t], l')
    else
      have := length_rest_next h ht
      match all l' with
      | (.ok ts, l'') => (.ok (t :: ts), l'')
      | (.error e, l'') => (.error e, l'')
termination_by l.rest.length

end Lexer

/-- The tokens of a text. -/
def tokenize (text : String) (file : Nat) : Except Error (List Token) :=
  (Lexer.ofText text file).all.1

end EdgeScript
