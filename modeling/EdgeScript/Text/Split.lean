/-!
# Cutting text at a separator

`Text.splitOn` cuts a list of characters at every occurrence of one character; `Text.joinWith`
puts the pieces together again.
-/

set_option autoImplicit false

namespace EdgeScript.Text

/-- The pieces between the occurrences of `sep`; a text without `sep` is its own only piece. -/
def splitOn (sep : Char) : List Char → List (List Char)
  | [] => [[]]
  | c :: cs =>
    if c = sep then [] :: splitOn sep cs
    else
      match splitOn sep cs with
      | [] => [[c]]
      | piece :: pieces => (c :: piece) :: pieces

/-- The texts with `sep` between neighbours. -/
def joinWith (sep : String) : List String → String
  | [] => ""
  | [s] => s
  | s :: rest => s ++ sep ++ joinWith sep rest

end EdgeScript.Text
