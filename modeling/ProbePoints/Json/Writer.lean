import ProbePoints.Json.Basic

/-!
# Writing JSON

Two texts of a JSON value. `compact` leaves out all blanks and puts the members of an object in the order of their
keys, so that it does not depend on how they were written. `indented` keeps the order of members and puts each
element on a line of its own.
-/

namespace ProbePoints.Json

/-! ### Strings -/

/-- The text of a character inside a string. -/
def escape (c : Char) : List Char :=
  if c = '"' then ['\\', '"']
  else if c = '\\' then ['\\', '\\']
  else if c = '\t' then ['\\', 't']
  else if c = '\n' then ['\\', 'n']
  else if c = '\r' then ['\\', 'r']
  else if c.toNat < 32 then
    ['\\', 'u', '0', '0', Nat.digitChar (c.toNat / 16), Nat.digitChar (c.toNat % 16)]
  else [c]

/-- The text of a string. -/
def quote (s : String) : String := String.ofList ('"' :: s.toList.flatMap escape ++ ['"'])

/-! ### Compact text -/

mutual

/-- The text of a value without blanks, members in the order of their keys. -/
def compact : Json → String
  | .null => "null"
  | .bool value => if value then "true" else "false"
  | .int value => toString value
  | .real value => value.text
  | .str value => quote value
  | .arr items => "[" ++ ",".intercalate (compactItems items) ++ "]"
  | .obj members =>
    let sorted := (compactMembers members).mergeSort (fun a b => decide (a.1 ≤ b.1))
    "\x7b" ++ ",".intercalate (sorted.map fun (key, text) => quote key ++ ":" ++ text) ++ "\x7d"

/-- The texts of the items of an array. -/
def compactItems : List Json → List String
  | [] => []
  | item :: rest => compact item :: compactItems rest

/-- The keys of an object with the texts of their values. -/
def compactMembers : List (String × Json) → List (String × String)
  | [] => []
  | (key, value) :: rest => (key, compact value) :: compactMembers rest

end

/-! ### Indented text -/

/-- A line break and the blanks that open a line at a depth. -/
def newline (depth : Nat) : String := "\n" ++ String.ofList (List.replicate (2 * depth) ' ')

/-- Elements between brackets, each on its own line one level deeper. -/
def bracketed (depth : Nat) (left right : String) (elements : List String) : String :=
  if elements.isEmpty then left ++ right
  else left ++ newline (depth + 1) ++ ("," ++ newline (depth + 1)).intercalate elements ++ newline depth ++ right

mutual

/-- The text of a value that starts at a depth. -/
def indentedAt (depth : Nat) : Json → String
  | .null => "null"
  | .bool value => if value then "true" else "false"
  | .int value => toString value
  | .real value => value.text
  | .str value => quote value
  | .arr items => bracketed depth "[" "]" (indentedItems (depth + 1) items)
  | .obj members => bracketed depth "\x7b" "\x7d" (indentedMembers (depth + 1) members)

/-- The texts of the items of an array. -/
def indentedItems (depth : Nat) : List Json → List String
  | [] => []
  | item :: rest => indentedAt depth item :: indentedItems depth rest

/-- The texts of the members of an object. -/
def indentedMembers (depth : Nat) : List (String × Json) → List String
  | [] => []
  | (key, value) :: rest => (quote key ++ ": " ++ indentedAt depth value) :: indentedMembers depth rest

end

/-- The text of a value with one element a line. -/
def indented (value : Json) : String := indentedAt 0 value

end ProbePoints.Json
