/-!
# Lines of a text

Offsets count UTF-8 bytes, while lines and columns are counted by people.  `Text.lineStarts` lists
the offsets at which the lines of a text start.  The line of an offset is found among them by a
binary search (`Text.search`), and its column by counting the characters between the start of the
line and the offset (`Text.slice?`).

Each of these steps can fail, and `Text.lineColumn?` fails with them: the offset may lie in front of
the first line start, the line may not be in the table, and the stretch may not be one of whole
characters.
-/

set_option autoImplicit false

namespace EdgeScript.Text

/-! ## Searching sorted numbers -/

/-- What a search for a key comes to: the index of the key, or the index at which it would have to
be put in. -/
inductive Sought where
  | found (i : Nat)
  | missing (i : Nat)
deriving DecidableEq, Repr

/-- Halves the `size` entries from `base` on until one is left.  Entries that are greater than the
key are left out from the right, others from the left. -/
def narrow (entries : Array Nat) (key base size : Nat) (h : base + size ≤ entries.size) : Nat :=
  if hsize : 1 < size then
    have hmid : base + size / 2 < entries.size := by omega
    if key < entries[base + size / 2] then narrow entries key base (size - size / 2) (by omega)
    else narrow entries key (base + size / 2) (size - size / 2) (by omega)
  else base
termination_by size

/-- A binary search in sorted entries. -/
def search (entries : Array Nat) (key : Nat) : Sought :=
  let i := narrow entries key 0 entries.size (Nat.le_of_eq (Nat.zero_add _))
  match entries[i]? with
  | none => .missing 0
  | some entry =>
    if entry = key then .found i
    else if entry < key then .missing (i + 1)
    else .missing i

/-! ## Lines -/

/-- The offsets behind the line ends of a text that starts at `offset`. -/
def lineStartsFrom (offset : Nat) : List Char → List Nat
  | [] => []
  | c :: cs =>
    let next := offset + c.utf8Size
    if c = '\n' then next :: lineStartsFrom next cs else lineStartsFrom next cs

/-- The offsets of the first characters of all lines.  A text that ends with a line end has an empty
last line. -/
def lineStarts (text : String) : Array Nat :=
  (0 :: lineStartsFrom 0 text.toList).toArray

/-- The line of an offset, counted from zero: the one that starts there, or else the one in front of
the place where such a line would be. -/
def lineIndex? (starts : Array Nat) (offset : Nat) : Option Nat :=
  match search starts offset with
  | .found i => some i
  | .missing 0 => none
  | .missing (i + 1) => some i

/-! ## Columns -/

/-- The text cut behind its first `n` bytes, unless this is inside of a character or behind the
end. -/
def splitBytes? : Nat → List Char → Option (List Char × List Char)
  | 0, cs => some ([], cs)
  | _ + 1, [] => none
  | n + 1, c :: cs =>
    if n + 1 < c.utf8Size then none
    else (splitBytes? (n + 1 - c.utf8Size) cs).map fun cut => (c :: cut.1, cut.2)

/-- The characters of a stretch of a text, if it lies in the text and starts and ends between
characters. -/
def slice? (text : List Char) (start stop : Nat) : Option (List Char) :=
  (splitBytes? stop text).bind fun cut => (splitBytes? start cut.1).map Prod.snd

/-- Line and column of an offset, counted from one. -/
def lineColumn? (text : String) (offset : Nat) : Option (Nat × Nat) := do
  let line ← lineIndex? (lineStarts text) offset
  let start ← (lineStarts text)[line]?
  let passed ← slice? text.toList start offset
  return (line + 1, passed.length + 1)

end EdgeScript.Text
