import EdgeScript.Source
import EdgeScript.Text.Quoted

/-!
# Tokens

The words of a script: keywords, symbols, names, numbers, strings, comments that are carried into
the output, and the end of the text.  `Keyword.ofText?` and `Symbol.spellings` are the two tables
that the lexer reads by, and `TokenKind.precedence?` is the table that expressions are grouped by.
-/

set_option autoImplicit false

namespace EdgeScript

/-- The reserved words. -/
inductive Keyword where
  | function | return_ | if_ | else_ | for_ | of_ | break_ | try_ | catch_ | except_
  | let_ | var_ | const_ | true_ | false_ | require_ | include_ | eval_ | force_ | as_
  | matches_ | matchesI | has | hasI
deriving DecidableEq, Repr

namespace Keyword

/-- Every keyword. -/
def all : List Keyword :=
  [.function, .return_, .if_, .else_, .for_, .of_, .break_, .try_, .catch_, .except_,
    .let_, .var_, .const_, .true_, .false_, .require_, .include_, .eval_, .force_, .as_,
    .matches_, .matchesI, .has, .hasI]

/-- How a keyword is written. -/
def text : Keyword → String
  | .function => "function"
  | .return_ => "return"
  | .if_ => "if"
  | .else_ => "else"
  | .for_ => "for"
  | .of_ => "of"
  | .break_ => "break"
  | .try_ => "try"
  | .catch_ => "catch"
  | .except_ => "except"
  | .let_ => "let"
  | .var_ => "var"
  | .const_ => "const"
  | .true_ => "true"
  | .false_ => "false"
  | .require_ => "require"
  | .include_ => "include"
  | .eval_ => "eval"
  | .force_ => "force"
  | .as_ => "as"
  | .matches_ => "matches"
  | .matchesI => "matches_i"
  | .has => "has"
  | .hasI => "has_i"

/-- The keyword that is written so, if there is one. -/
def ofText? (s : String) : Option Keyword :=
  all.find? fun k => k.text == s

end Keyword

/-- Operators and punctuation. -/
inductive Symbol where
  | plus | minus | star | slash | percent
  | assign | eqEq | notEq | less | lessEq | greater | greaterEq
  | andAnd | orOr | not | and | or | caret | tilde | shiftLeft | shiftRight
  | plusEq | minusEq | starEq | slashEq | percentEq | plusPlus | minusMinus
  | dot | dotDot
  | openParen | closeParen | openBrace | closeBrace | openBracket | closeBracket
  | comma | colon | semicolon
deriving DecidableEq, Repr

namespace Symbol

/-- How a symbol is shown. -/
def text : Symbol → String
  | .plus => "+"
  | .minus => "-"
  | .star => "*"
  | .slash => "/"
  | .percent => "%"
  | .assign => "="
  | .eqEq => "=="
  | .notEq => "!="
  | .less => "<"
  | .lessEq => "<="
  | .greater => ">"
  | .greaterEq => ">="
  | .andAnd => "&&"
  | .orOr => "||"
  | .not => "!"
  | .and => "&"
  | .or => "|"
  | .caret => "^"
  | .tilde => "~"
  | .shiftLeft => "<<"
  | .shiftRight => ">>"
  | .plusEq => "+="
  | .minusEq => "-="
  | .starEq => "*="
  | .slashEq => "/="
  | .percentEq => "%="
  | .plusPlus => "++"
  | .minusMinus => "--"
  | .dot => "."
  | .dotDot => ".."
  | .openParen => "("
  | .closeParen => ")"
  | .openBrace => "\x7b"
  | .closeBrace => "\x7d"
  | .openBracket => "["
  | .closeBracket => "]"
  | .comma => ","
  | .colon => ":"
  | .semicolon => ";"

/-- How symbols are written, with the longer spellings in front of their own beginnings, so that
the first one that fits is the longest.  Equality has two spellings. -/
def spellings : List (List Char × Symbol) :=
  [ (['=', '=', '='], .eqEq), (['!', '=', '='], .notEq),
    (['+', '='], .plusEq), (['+', '+'], .plusPlus), (['-', '='], .minusEq),
    (['-', '-'], .minusMinus), (['*', '='], .starEq), (['/', '='], .slashEq),
    (['%', '='], .percentEq), (['=', '='], .eqEq), (['!', '='], .notEq), (['<', '='], .lessEq),
    (['<', '<'], .shiftLeft), (['>', '='], .greaterEq), (['>', '>'], .shiftRight),
    (['&', '&'], .andAnd), (['|', '|'], .orOr), (['.', '.'], .dotDot),
    (['+'], .plus), (['-'], .minus), (['*'], .star), (['/'], .slash), (['%'], .percent),
    (['='], .assign), (['!'], .not), (['<'], .less), (['>'], .greater), (['&'], .and),
    (['|'], .or), (['^'], .caret), (['~'], .tilde), (['.'], .dot), (['('], .openParen),
    ([')'], .closeParen), (['\x7b'], .openBrace), (['\x7d'], .closeBrace), (['['], .openBracket),
    ([']'], .closeBracket), ([','], .comma), ([':'], .colon), ([';'], .semicolon) ]

end Symbol

/-- What a token is. -/
inductive TokenKind where
  | keyword (k : Keyword)
  | symbol (s : Symbol)
  | ident (name : String)
  | int (value : Int64)
  | str (value : String)
  /-- A comment that is carried into the output. -/
  | comment (text : String)
  | eof
deriving DecidableEq, Repr

/-- A token and its place. -/
structure Token where
  kind : TokenKind
  span : Span
deriving DecidableEq, Repr

namespace TokenKind

/-- How messages speak of a token. -/
def describe : TokenKind → String
  | .keyword k => "`" ++ k.text ++ "`"
  | .symbol s => "`" ++ s.text ++ "`"
  | .ident name => "identifier `" ++ name ++ "`"
  | .int value => "number `" ++ toString value.toInt ++ "`"
  | .str value => "string " ++ Text.quoted value
  | .comment text => "ESI comment " ++ Text.quoted text
  | .eof => "`end of file`"

/-- How tightly a binary operator binds; more is tighter. -/
def precedence? : TokenKind → Option Nat
  | .symbol .orOr => some 1
  | .symbol .andAnd => some 2
  | .symbol .eqEq | .symbol .notEq | .symbol .less | .symbol .lessEq | .symbol .greater
  | .symbol .greaterEq => some 3
  | .keyword .matches_ | .keyword .matchesI | .keyword .has | .keyword .hasI => some 3
  | .symbol .or => some 4
  | .symbol .caret => some 5
  | .symbol .and => some 6
  | .symbol .shiftLeft | .symbol .shiftRight => some 7
  | .symbol .plus | .symbol .minus => some 8
  | .symbol .star | .symbol .slash | .symbol .percent => some 9
  | _ => none

end TokenKind

end EdgeScript
