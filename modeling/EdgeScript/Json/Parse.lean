import EdgeScript.Json

/-!
# Reading JSON

`Json.parse?` reads a text that holds exactly one JSON value.  Strings may hold no control
characters, escaped surrogates must come in pairs, and numbers have no leading zeros.
-/

set_option autoImplicit false

namespace EdgeScript.Json

/-- The blanks between the parts of a value. -/
def isGap (c : Char) : Bool :=
  c == ' ' || c == '\t' || c == '\n' || c == '\r'

/-- The text without the blanks in front. -/
def skipGap (cs : List Char) : List Char := cs.dropWhile isGap

/-- The value of a hexadecimal digit. -/
def hexDigit? (c : Char) : Option Nat :=
  if '0' ≤ c && c ≤ '9' then some (c.toNat - '0'.toNat)
  else if 'a' ≤ c && c ≤ 'f' then some (c.toNat - 'a'.toNat + 10)
  else if 'A' ≤ c && c ≤ 'F' then some (c.toNat - 'A'.toNat + 10)
  else none

/-- The number that four hexadecimal digits stand for. -/
def hexUnit? (a b c d : Char) : Option Nat := do
  let a ← hexDigit? a
  let b ← hexDigit? b
  let c ← hexDigit? c
  let d ← hexDigit? d
  return ((a * 16 + b) * 16 + c) * 16 + d

/-- What a backslash and a letter other than `u` stand for. -/
def escape? (c : Char) : Option Char :=
  if c = '"' || c = '\\' || c = '/' then some c
  else if c = 'b' then some (Char.ofNat 8)
  else if c = 'f' then some (Char.ofNat 12)
  else if c = 'n' then some '\n'
  else if c = 'r' then some '\r'
  else if c = 't' then some '\t'
  else none

/-- Whether a number is the first half of a pair. -/
def isHighSurrogate (n : Nat) : Bool := 0xd800 ≤ n && n < 0xdc00

/-- Whether a number is the second half of a pair. -/
def isLowSurrogate (n : Nat) : Bool := 0xdc00 ≤ n && n < 0xe000

/-- The value of a string from behind its opening quote, and the text behind the closing one.
`high` is the first half of a pair whose second half has to follow. -/
def stringTail : Option Nat → List Char → Option (List Char × List Char)
  | _, [] => none
  | none, '"' :: cs => some ([], cs)
  | high, '\\' :: 'u' :: a :: b :: c :: d :: cs =>
    match hexUnit? a b c d, high with
    | none, _ => none
    | some n, none =>
      if isHighSurrogate n then stringTail (some n) cs
      else if isLowSurrogate n then none
      else
        match stringTail none cs with
        | some (value, rest) => some (Char.ofNat n :: value, rest)
        | none => none
    | some n, some h =>
      if isLowSurrogate n then
        match stringTail none cs with
        | some (value, rest) =>
          some (Char.ofNat (0x10000 + (h - 0xd800) * 0x400 + (n - 0xdc00)) :: value, rest)
        | none => none
      else none
  | none, '\\' :: c :: cs =>
    match escape? c, stringTail none cs with
    | some e, some (value, rest) => some (e :: value, rest)
    | _, _ => none
  | none, c :: cs =>
    if c.toNat < 0x20 || c == '\\' then none
    else
      match stringTail none cs with
      | some (value, rest) => some (c :: value, rest)
      | none => none
  | some _, _ :: _ => none

/-- At least one digit, and the text behind the digits. -/
def digits? (cs : List Char) : Option (List Char × List Char) :=
  let ds := cs.takeWhile Char.isDigit
  if ds.isEmpty then none else some (ds, cs.drop ds.length)

/-- The sign of a number, if it has one. -/
def sign : List Char → List Char × List Char
  | '-' :: cs => (['-'], cs)
  | cs => ([], cs)

/-- The part of a number in front of a point or an exponent: no zero leads other digits. -/
def whole? (cs : List Char) : Option (List Char × List Char) :=
  match digits? cs with
  | some ('0' :: _ :: _, _) => none
  | other => other

/-- The point of a number and the digits behind it, if there is a point. -/
def fraction? : List Char → Option (List Char × List Char)
  | '.' :: cs =>
    match digits? cs with
    | some (ds, rest) => some ('.' :: ds, rest)
    | none => none
  | cs => some ([], cs)

/-- The exponent of a number, if it has one. -/
def exponent? : List Char → Option (List Char × List Char)
  | c :: cs =>
    if c = 'e' || c = 'E' then
      let (mark, cs) :=
        match cs with
        | '+' :: cs => (['+'], cs)
        | '-' :: cs => (['-'], cs)
        | cs => ([], cs)
      match digits? cs with
      | some (ds, rest) => some (c :: mark ++ ds, rest)
      | none => none
    else some ([], c :: cs)
  | [] => some ([], [])

/-- A number and the text behind it. -/
def number? (cs : List Char) : Option (Json × List Char) := do
  let (minus, cs) := sign cs
  let (whole, cs) ← whole? cs
  let (fraction, cs) ← fraction? cs
  let (exponent, cs) ← exponent? cs
  return (.number (String.ofList (minus ++ whole ++ fraction ++ exponent)), cs)

/-- The text behind a word, if the text starts with it. -/
def word? (word : List Char) (cs : List Char) : Option (List Char) :=
  if word.isPrefixOf cs then some (cs.drop word.length) else none

mutual

/-- The value at the head of a text and the text behind it.  Each step down takes at least one
character, so the length of the text is fuel enough. -/
def value? : Nat → List Char → Option (Json × List Char)
  | 0, _ => none
  | fuel + 1, cs =>
    match skipGap cs with
    | [] => none
    | '"' :: cs =>
      match stringTail none cs with
      | some (value, rest) => some (.string (String.ofList value), rest)
      | none => none
    | '[' :: cs =>
      match skipGap cs with
      | ']' :: rest => some (.array [], rest)
      | cs =>
        match elements? fuel cs with
        | some (vs, rest) => some (.array vs, rest)
        | none => none
    | '\x7b' :: cs =>
      match skipGap cs with
      | '\x7d' :: rest => some (.object [], rest)
      | cs =>
        match members? fuel cs with
        | some (ms, rest) => some (.object ms, rest)
        | none => none
    | 't' :: cs => (word? ['r', 'u', 'e'] cs).map fun rest => (.bool true, rest)
    | 'f' :: cs => (word? ['a', 'l', 's', 'e'] cs).map fun rest => (.bool false, rest)
    | 'n' :: cs => (word? ['u', 'l', 'l'] cs).map fun rest => (.null, rest)
    | cs => number? cs

/-- The elements of an array up to its closing bracket. -/
def elements? : Nat → List Char → Option (List Json × List Char)
  | 0, _ => none
  | fuel + 1, cs =>
    match value? fuel cs with
    | none => none
    | some (v, cs) =>
      match skipGap cs with
      | ']' :: rest => some ([v], rest)
      | ',' :: cs =>
        match elements? fuel cs with
        | some (vs, rest) => some (v :: vs, rest)
        | none => none
      | _ => none

/-- The members of an object up to its closing brace. -/
def members? : Nat → List Char → Option (List (String × Json) × List Char)
  | 0, _ => none
  | fuel + 1, cs =>
    match skipGap cs with
    | '"' :: cs =>
      match stringTail none cs with
      | none => none
      | some (key, cs) =>
        match skipGap cs with
        | ':' :: cs =>
          match value? fuel cs with
          | none => none
          | some (v, cs) =>
            match skipGap cs with
            | '\x7d' :: rest => some ([(String.ofList key, v)], rest)
            | ',' :: cs =>
              match members? fuel cs with
              | some (ms, rest) => some ((String.ofList key, v) :: ms, rest)
              | none => none
            | _ => none
        | _ => none
    | _ => none

end

/-- The one JSON value that a text holds. -/
def parse? (text : String) : Option Json :=
  match value? (text.toList.length + 1) text.toList with
  | some (v, rest) => if (skipGap rest).isEmpty then some v else none
  | none => none

end EdgeScript.Json
