import ProbePoints.Binary64

/-!
# JSON values

The data of documents and reports. Numbers come in two kinds: integers, and doubles for everything else. An object
keeps its members in the order in which they were written.
-/

namespace ProbePoints

/-- A JSON value. -/
inductive Json where
  | null
  | bool (value : Bool)
  | int (value : Int)
  | real (value : Binary64)
  | str (value : String)
  | arr (items : List Json)
  | obj (members : List (String × Json))
  deriving Repr

namespace Json

/-- The members of an object. -/
abbrev Members := List (String × Json)

/-- The integers that a signed word of 64 bits holds. -/
def IsWord (n : Int) : Prop := -9223372036854775808 ≤ n ∧ n ≤ 9223372036854775807

instance (n : Int) : Decidable (IsWord n) := inferInstanceAs (Decidable (_ ∧ _))

/-- The value of a truth value. -/
def bool? : Json → Option Bool
  | .bool value => some value
  | _ => none

/-- The value of a string. -/
def str? : Json → Option String
  | .str value => some value
  | _ => none

/-- The value of an integer, or of a double that is one. -/
def integer? : Json → Option Int
  | .int value => some value
  | .real value => value.integer?.filter (fun n => decide (IsWord n))
  | _ => none

/-- The items of an array. -/
def items? : Json → Option (List Json)
  | .arr items => some items
  | _ => none

/-- The members of an object. -/
def members? : Json → Option Members
  | .obj members => some members
  | _ => none

namespace Members

/-- The value of a member. -/
def get? (members : Members) (key : String) : Option Json := members.lookup key

/-- The value of a member that is a truth value. -/
def bool? (members : Members) (key : String) : Option Bool := (members.get? key).bind Json.bool?

/-- The value of a member that is a string. -/
def str? (members : Members) (key : String) : Option String := (members.get? key).bind Json.str?

/-- The value of a member that is an integer. -/
def integer? (members : Members) (key : String) : Option Int := (members.get? key).bind Json.integer?

/-- The items of a member that is an array. -/
def items? (members : Members) (key : String) : Option (List Json) := (members.get? key).bind Json.items?

/-- The members of a member that is an object. -/
def members? (members : Members) (key : String) : Option Members := (members.get? key).bind Json.members?

end Members

end Json

end ProbePoints
