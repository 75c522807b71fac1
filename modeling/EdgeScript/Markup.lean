/-!
# Markup

A piece of Edge Side Includes markup is text or one of its tags, with attributes and perhaps with
content.  `Markup.text` writes it out; nothing but this function puts tags and quotes into the
output.
-/

set_option autoImplicit false

namespace EdgeScript

/-- An attribute of a tag; the value is written as it is. -/
structure Attribute where
  name : String
  value : String
deriving DecidableEq, Repr

/-- The attribute with a blank in front and its value in double quotes. -/
def Attribute.text (a : Attribute) : String :=
  " " ++ a.name ++ "=\"" ++ a.value ++ "\""

/-- The attributes of a tag, written out. -/
def Attribute.textAll (attributes : List Attribute) : String :=
  String.join (attributes.map Attribute.text)

/-- A piece of markup. -/
inductive Markup where
  | plain (text : String)
  /-- A tag without content. -/
  | leaf (tag : String) (attributes : List Attribute)
  | element (tag : String) (attributes : List Attribute) (content : List Markup)
deriving Repr

namespace Markup

mutual

/-- The markup, written out. -/
def text : Markup → String
  | .plain text => text
  | .leaf tag attributes => "<esi:" ++ tag ++ Attribute.textAll attributes ++ "/>"
  | .element tag attributes content =>
    "<esi:" ++ tag ++ Attribute.textAll attributes ++ ">" ++ textAll content ++
      "</esi:" ++ tag ++ ">"

/-- Pieces of markup, written one after the other. -/
def textAll : List Markup → String
  | [] => ""
  | m :: rest => text m ++ textAll rest

end

end Markup

end EdgeScript
