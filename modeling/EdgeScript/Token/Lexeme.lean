import EdgeScript.Error
import EdgeScript.Text.Letter
import EdgeScript.Text.Blank

/-!
# Reading one token

The token at the head of a text, whatever its place: `Lexeme.read` gives what it is (or what is
wrong with it) and how many characters it takes.  Blanks and comments between tokens are counted by
`Trivia.skip`.  Both look at the text alone, so a token means the same wherever it stands.

## Counting instead of cutting

Every reader returns the number of characters it takes after the first one.  A token therefore
takes at least one character, by construction, and the lexer always moves on.
-/

set_option autoImplicit false

namespace EdgeScript

/-! ## Blanks and comments -/

namespace Trivia

/-- The blanks between tokens. -/
def isBlank (c : Char) : Bool :=
  c == ' ' || c == '\t' || c == '\r' || c == '\n'

/-- The mark that makes a line comment part of the output. -/
def isOutputComment (cs : List Char) : Bool :=
  ['/', '/', '#', '#', '#'].isPrefixOf cs

/-- How many characters of a block comment's inside and end there are, `none` if it has no end. -/
def blockLength? : List Char → Option Nat
  | [] => none
  | '*' :: '/' :: _ => some 2
  | _ :: cs => (blockLength? cs).map (· + 1)

/-- A comment at the head of a text. -/
inductive Comment where
  | absent
  /-- A comment that takes this many characters after the first one. -/
  | complete (more : Nat)
  | unclosed
deriving DecidableEq, Repr

/-- The comment at the head of a text, if it is one that is skipped. -/
def leadingComment : List Char → Comment
  | '/' :: '/' :: cs =>
    if isOutputComment ('/' :: '/' :: cs) then .absent
    else .complete (1 + (cs.takeWhile (· != '\n')).length)
  | '/' :: '*' :: cs =>
    match blockLength? cs with
    | some n => .complete (1 + n)
    | none => .unclosed
  | _ => .absent

/-- How many characters of blanks and comments are in front of the next token, after the first
`pass` characters, which belong to a comment already seen.  The error is the number of characters
in front of a comment that has no end. -/
def skip : Nat → List Char → Except Nat Nat
  | _, [] => .ok 0
  | pass + 1, _ :: cs =>
    match skip pass cs with
    | .ok n => .ok (n + 1)
    | .error n => .error (n + 1)
  | 0, c :: cs =>
    if isBlank c then
      match skip 0 cs with
      | .ok n => .ok (n + 1)
      | .error n => .error (n + 1)
    else
      match leadingComment (c :: cs) with
      | .absent => .ok 0
      | .unclosed => .error 0
      | .complete more =>
        match skip more cs with
        | .ok n => .ok (n + 1)
        | .error n => .error (n + 1)

end Trivia

/-- What was read at the head of a text. -/
structure Lexeme where
  kind : Except LexFault TokenKind
  /-- How many characters it takes after the first one. -/
  more : Nat
deriving Repr

namespace Lexeme

/-! ## Names and numbers -/

/-- Whether a name may start with the character. -/
def isNameStart (c : Char) : Bool :=
  Text.isLetter c || c == '_' || c == '$'

/-- Whether a name may go on with the character. -/
def isNamePart (c : Char) : Bool :=
  Text.isLetterOrNumeral c || c == '_' || c == '$'

/-- The name or keyword that starts with `c`. -/
def readName (c : Char) (cs : List Char) : Lexeme :=
  let tail := cs.takeWhile isNamePart
  let name := String.ofList (c :: tail)
  match Keyword.ofText? name with
  | some k => ⟨.ok (.keyword k), tail.length⟩
  | none => ⟨.ok (.ident name), tail.length⟩

/-- The value of a digit in a base of at most sixteen. -/
def digitValue? (base : Nat) (c : Char) : Option Nat :=
  let value :=
    if c.isDigit then c.toNat - '0'.toNat
    else if 'a' ≤ c && c ≤ 'f' then c.toNat - 'a'.toNat + 10
    else if 'A' ≤ c && c ≤ 'F' then c.toNat - 'A'.toNat + 10
    else base
  if value < base then some value else none

/-- The number that digits stand for, with `read` the value of those in front. -/
def digitsValue? (base : Nat) (read : Nat) : List Char → Option Nat
  | [] => some read
  | c :: cs =>
    match digitValue? base c with
    | some d => digitsValue? base (read * base + d) cs
    | none => none

/-- The 64-bit integer that digits stand for; there must be one, and underscores do not count. -/
def integer? (base : Nat) (cs : List Char) : Option Int64 :=
  match cs.filter (· != '_') with
  | [] => none
  | digits =>
    match digitsValue? base 0 digits with
    | some n => if n ≤ 9223372036854775807 then some (Int64.ofNat n) else none
    | none => none

/-- Whether a text goes on with a point and a digit, as a fraction does and a range does not. -/
def startsFraction : List Char → Bool
  | '.' :: d :: _ => d.isDigit
  | _ => false

/-- Letters and numerals that stick to a number. -/
def stuckLetters : List Char → List Char
  | [] => []
  | c :: cs =>
    if Text.isLetterOrNumeral c then
      c :: cs.takeWhile fun c => Text.isLetterOrNumeral c || c == '_'
    else []

/-- The number whose digits start after the first `mark` characters of `cs`. -/
def readDigits (base mark : Nat) (cs : List Char) : Lexeme :=
  let body := cs.drop mark
  let digits := body.takeWhile fun c => (digitValue? base c).isSome || c == '_'
  let after := body.drop digits.length
  if base == 10 && startsFraction after then
    let fraction := (after.drop 1).takeWhile fun c => c.isDigit || c == '_'
    let length := mark + digits.length + 1 + fraction.length
    ⟨.error (.floatLiteral (String.ofList (cs.take length))), length - 1⟩
  else
    let stuck := stuckLetters after
    let length := mark + digits.length + stuck.length
    match integer? base (digits ++ stuck) with
    | some value => ⟨.ok (.int value), length - 1⟩
    | none => ⟨.error (.invalidNumber (String.ofList (cs.take length))), length - 1⟩

/-- The number that starts with the digit `c`: decimal, or hexadecimal after `0x`. -/
def readNumber (c : Char) (cs : List Char) : Lexeme :=
  if c == '0' && (cs.head? == some 'x' || cs.head? == some 'X') then readDigits 16 2 (c :: cs)
  else readDigits 10 0 (c :: cs)

/-! ## Strings -/

/-- What a backslash and a character stand for. -/
def unescape (c : Char) : Char :=
  if c = 'n' then '\n'
  else if c = 'r' then '\r'
  else if c = 't' then '\t'
  else if c = '0' then Char.ofNat 0
  else c

/-- The value of a string from behind its opening quote, `none` without a closing one, and the
number of characters up to the closing quote or the end of the text. -/
def stringBody (quote : Char) : List Char → Option (List Char) × Nat
  | [] => (none, 0)
  | '\\' :: [] => (none, 1)
  | '\\' :: c :: cs =>
    let (value, n) := stringBody quote cs
    (value.map (unescape c :: ·), n + 2)
  | c :: cs =>
    if c = quote then (some [], 1)
    else
      let (value, n) := stringBody quote cs
      (value.map (c :: ·), n + 1)

/-- The value of a raw string from behind its three opening quotes, and its length likewise. -/
def rawBody : List Char → Option (List Char) × Nat
  | [] => (none, 0)
  | '\'' :: '\'' :: '\'' :: _ => (some [], 3)
  | c :: cs =>
    let (value, n) := rawBody cs
    (value.map (c :: ·), n + 1)

/-- The string token with the given value. -/
def ofString (value : Option (List Char)) (more : Nat) : Lexeme :=
  match value with
  | some cs => ⟨.ok (.str (String.ofList cs)), more⟩
  | none => ⟨.error .unterminatedString, more⟩

/-- The string that starts with `quote`; three single quotes start a raw one. -/
def readString (quote : Char) (cs : List Char) : Lexeme :=
  if quote == '\'' && ['\'', '\''].isPrefixOf cs then
    let (value, n) := rawBody (cs.drop 2)
    ofString value (2 + n)
  else
    let (value, n) := stringBody quote cs
    ofString value n

/-! ## Comments that are carried into the output -/

/-- The characters from behind a line's end to behind the mark of a comment that goes on. -/
def continuation? (cs : List Char) : Option Nat :=
  let gap := cs.takeWhile fun c => c == ' ' || c == '\t' || c == '\r'
  if Trivia.isOutputComment (cs.drop gap.length) then some (gap.length + 5) else none

/-- The lines of a comment, from behind its first mark and after the first `pass` characters, which
lie between a line's end and the next mark; and the number of characters they take. -/
def commentLines : Nat → List Char → List (List Char) × Nat
  | _, [] => ([[]], 0)
  | pass + 1, _ :: cs =>
    let (lines, n) := commentLines pass cs
    (lines, n + 1)
  | 0, c :: cs =>
    if c = '\n' then
      match continuation? cs with
      | some gap =>
        let (lines, n) := commentLines gap cs
        ([] :: lines, n + 1)
      | none => ([[]], 0)
    else
      let (lines, n) := commentLines 0 cs
      match lines with
      | [] => ([[c]], n + 1)
      | line :: rest => ((c :: line) :: rest, n + 1)

/-- The text of a comment: one line loses the blanks in front, several lose the indent that they
share. -/
def commentText : List (List Char) → List Char
  | [line] => Text.dropBlanks line
  | lines =>
    let indents := lines.map fun line => (line.takeWhile Text.isWhiteSpace).length
    let shared := indents.min?.getD 0
    List.intercalate ['\n'] (lines.map (·.drop shared))

/-- The comment that starts with the mark at the head of the text; `cs` is the text behind the
mark's first character. -/
def readComment (cs : List Char) : Lexeme :=
  let (lines, n) := commentLines 0 (cs.drop 4)
  let text := commentText (lines.map Text.dropTrailingBlanks)
  ⟨.ok (.comment (String.ofList text)), 4 + n⟩

/-! ## Any token -/

/-- The symbol at the head of the text. -/
def readSymbol (c : Char) (cs : List Char) : Lexeme :=
  match Symbol.spellings.find? fun (spelling, _) => spelling.isPrefixOf (c :: cs) with
  | some (spelling, symbol) => ⟨.ok (.symbol symbol), spelling.length - 1⟩
  | none => ⟨.error (.unexpectedChar c), 0⟩

/-- The token at the head of the text `c :: cs`. -/
def read (c : Char) (cs : List Char) : Lexeme :=
  if Trivia.isOutputComment (c :: cs) then readComment cs
  else if isNameStart c then readName c cs
  else if c.isDigit then readNumber c cs
  else if c == '\'' || c == '"' then readString c cs
  else readSymbol c cs

end Lexeme

end EdgeScript
