import EdgeScript.Markup
import EdgeScript.Text.Search

/-!
# Writing strings in markup

A string can stand in four places of the markup, each with rules of its own: in an expression it is
quoted (`quoteString`), in text with variables the characters that would be interpreted are escaped
(`escapeText`), and in attributes a double quote is written as a call or, in comments, as an entity.
-/

set_option autoImplicit false

namespace EdgeScript

namespace Markup

/-! ## Expressions -/

/-- Backslashes in front of backslashes and single quotes. -/
def escapeQuotes : List Char → List Char
  | [] => []
  | c :: cs =>
    if c = '\\' || c = '\'' then '\\' :: c :: escapeQuotes cs else c :: escapeQuotes cs

/-- Whether a string is written between three quotes, without escapes: it has something to escape,
and no quotes where they would be taken for the end. -/
def isRaw (cs : List Char) : Bool :=
  (cs.contains '\'' || cs.contains '\\') && !Text.occursIn ['\'', '\'', '\''] cs &&
    cs.head? != some '\'' && cs.getLast? != some '\''

/-- A string as it is written in an expression. -/
def quoteString (cs : List Char) : List Char :=
  if isRaw cs then ['\'', '\'', '\''] ++ cs ++ ['\'', '\'', '\'']
  else '\'' :: (escapeQuotes cs ++ ['\''])

/-! ## Text with variables -/

/-- The start of a tag. -/
def tagStart : List Char := ['<', 'e', 's', 'i', ':']

/-- Whether a character has to be escaped, given the text it starts. -/
def isInterpreted (c : Char) (cs : List Char) : Bool :=
  c == '\\' || c == '$' || tagStart.isPrefixOf (c :: cs)

/-- Backslashes in front of backslashes, dollar signs and tags. -/
def escapeText : List Char → List Char
  | [] => []
  | c :: cs => if isInterpreted c cs then '\\' :: c :: escapeText cs else c :: escapeText cs

/-! ## Attributes -/

/-- The text with every double quote replaced. -/
def replaceQuotes (replacement : String) (s : String) : String :=
  String.join (s.toList.map fun c => if c = '"' then replacement else c.toString)

end Markup

/-- An attribute whose value is processed: a double quote in it is written as a call. -/
def Attribute.processed (name value : String) : Attribute :=
  ⟨name, Markup.replaceQuotes "$dquote()" value⟩

end EdgeScript
