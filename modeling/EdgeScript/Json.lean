import EdgeScript.Text.Split
import EdgeScript.Text.Quoted

/-!
# JSON values and their text

Reports are written, and options are read, as JSON.  A number is kept as it is written, because only
its spelling tells an integer from other numbers, and the members of an object keep their order and
their repetitions, so that a reader can refuse them.

`Json.compact` writes a value on one line, `Json.pretty` over several with two blanks a level.
-/

set_option autoImplicit false

namespace EdgeScript

/-- A JSON value. -/
inductive Json where
  | null
  | bool (value : Bool)
  /-- A number, as it is written. -/
  | number (text : String)
  | string (value : String)
  | array (elements : List Json)
  | object (members : List (String × Json))
deriving Repr, Inhabited

namespace Json

/-- The JSON number of a natural number. -/
def ofNat (n : Nat) : Json := .number (toString n)

/-- The string, or null. -/
def ofOption (s : Option String) : Json :=
  match s with
  | some s => .string s
  | none => .null

/-- A character inside a JSON string: quotes, backslashes and controls are escaped. -/
def escapedChar (c : Char) : String :=
  if c = '"' then "\\\""
  else if c = '\\' then "\\\\"
  else if c = '\n' then "\\n"
  else if c = '\r' then "\\r"
  else if c = '\t' then "\\t"
  else if c.toNat = 8 then "\\b"
  else if c.toNat = 12 then "\\f"
  else if c.toNat < 16 then "\\u000" ++ Text.hexDigits c.toNat
  else if c.toNat < 32 then "\\u00" ++ Text.hexDigits c.toNat
  else c.toString

/-- A JSON string literal. -/
def quote (s : String) : String :=
  "\"" ++ String.join (s.toList.map escapedChar) ++ "\""

mutual

/-- The value on one line without blanks. -/
def compact : Json → String
  | .null => "null"
  | .bool true => "true"
  | .bool false => "false"
  | .number text => text
  | .string value => quote value
  | .array elements => "[" ++ Text.joinWith "," (compactAll elements) ++ "]"
  | .object members => "\x7b" ++ Text.joinWith "," (compactMembers members) ++ "\x7d"

/-- The texts of the elements of an array. -/
def compactAll : List Json → List String
  | [] => []
  | v :: vs => compact v :: compactAll vs

/-- The texts of the members of an object. -/
def compactMembers : List (String × Json) → List String
  | [] => []
  | (key, v) :: members => (quote key ++ ":" ++ compact v) :: compactMembers members

end

/-- A new line and the blanks in front of what stands on it. -/
def newline (depth : Nat) : String :=
  "\n" ++ String.ofList (List.replicate (2 * depth) ' ')

/-- The parts between brackets, each on a line of its own one level deeper; nothing stands between
the brackets of an empty list. -/
def layout (opening closing : String) (depth : Nat) (parts : List String) : String :=
  match parts with
  | [] => opening ++ closing
  | parts =>
    opening ++ newline (depth + 1) ++ Text.joinWith ("," ++ newline (depth + 1)) parts ++
      newline depth ++ closing

mutual

/-- The value over several lines, `depth` levels deep. -/
def prettyAt (depth : Nat) : Json → String
  | .array elements => layout "[" "]" depth (prettyAll (depth + 1) elements)
  | .object members => layout "\x7b" "\x7d" depth (prettyMembers (depth + 1) members)
  | .null => "null"
  | .bool true => "true"
  | .bool false => "false"
  | .number text => text
  | .string value => quote value

/-- The texts of the elements of an array. -/
def prettyAll (depth : Nat) : List Json → List String
  | [] => []
  | v :: vs => prettyAt depth v :: prettyAll depth vs

/-- The texts of the members of an object. -/
def prettyMembers (depth : Nat) : List (String × Json) → List String
  | [] => []
  | (key, v) :: members => (quote key ++ ": " ++ prettyAt depth v) :: prettyMembers depth members

end

/-- The value over several lines. -/
def pretty (v : Json) : String := prettyAt 0 v

/-- The value of the first member with the given name. -/
def get? (v : Json) (key : String) : Option Json :=
  match v with
  | .object members => members.lookup key
  | _ => none

end Json

end EdgeScript
