import EdgeScript.Text.Quoted

/-!
# Outlines

An `Outline` shows a value as a tree of named parts, one part a line, each level four blanks deeper
than the one around it.  `Outline.text` writes it.
-/

set_option autoImplicit false

namespace EdgeScript

/-- A value laid out by its parts. -/
inductive Outline where
  /-- A part that is shown by one word. -/
  | word (text : String)
  /-- A name and what it is applied to. -/
  | apply (name : String) (parts : List Outline)
  /-- A name and its fields. -/
  | record (name : String) (fields : List (String × Outline))
  | list (elements : List Outline)
deriving Repr, Inhabited

namespace Outline

/-- A text in quotes. -/
def string (s : String) : Outline := .word (Text.quoted s)

def nat (n : Nat) : Outline := .word (toString n)

def bool : Bool → Outline
  | true => .word "true"
  | false => .word "false"

/-- A value that may be missing. -/
def option : Option Outline → Outline
  | none => .word "None"
  | some value => .apply "Some" [value]

/-- The start of a line at a depth. -/
def line (depth : Nat) : String :=
  "\n" ++ String.ofList (List.replicate (4 * depth) ' ')

/-- Brackets around parts on lines of their own. -/
def bracketed (opening closing : String) (depth : Nat) (parts : List String) : String :=
  opening ++ String.join (parts.map fun part => line (depth + 1) ++ part ++ ",") ++ line depth ++
    closing

mutual

/-- The text of an outline that stands at a depth. -/
def textAt (depth : Nat) : Outline → String
  | .word text => text
  | .apply name parts => bracketed (name ++ "(") ")" depth (textsAt (depth + 1) parts)
  | .record name fields => bracketed (name ++ " \x7b") "\x7d" depth (fieldsAt (depth + 1) fields)
  | .list [] => "[]"
  | .list (e :: es) => bracketed "[" "]" depth (textAt (depth + 1) e :: textsAt (depth + 1) es)

/-- The texts of outlines that stand at a depth. -/
def textsAt (depth : Nat) : List Outline → List String
  | [] => []
  | o :: os => textAt depth o :: textsAt depth os

/-- The texts of fields that stand at a depth. -/
def fieldsAt (depth : Nat) : List (String × Outline) → List String
  | [] => []
  | (name, o) :: fields => (name ++ ": " ++ textAt depth o) :: fieldsAt depth fields

end

/-- The text of an outline. -/
def text (o : Outline) : String := textAt 0 o

end Outline

end EdgeScript
