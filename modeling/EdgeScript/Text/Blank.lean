import EdgeScript.Text.CodePointSet

/-!
# White space at the ends of a line

The property White_Space of the Unicode standard, and the two functions that drop it from the ends
of a line of text.
-/

set_option autoImplicit false

namespace EdgeScript.Text

/-- The white space code points. -/
def whiteSpace : CodePointSet :=
  [ 0x9, 0xe, 0x20, 0x21, 0x85, 0x86, 0xa0, 0xa1, 0x1680, 0x1681, 0x2000, 0x200b, 0x2028, 0x202a,
    0x202f, 0x2030, 0x205f, 0x2060, 0x3000, 0x3001 ]

/-- Whether a character is white space. -/
def isWhiteSpace (c : Char) : Bool :=
  whiteSpace.contains c.toNat

/-- The characters without the white space in front. -/
def dropBlanks (cs : List Char) : List Char :=
  cs.dropWhile isWhiteSpace

/-- The characters without the white space at the end. -/
def dropTrailingBlanks (cs : List Char) : List Char :=
  (cs.reverse.dropWhile isWhiteSpace).reverse

end EdgeScript.Text
