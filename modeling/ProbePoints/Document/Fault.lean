import ProbePoints.Message

/-!
# Faults of documents

Why a document cannot be read as a class. A fault is a cause; `message` has the wording. Every message ends before its
first NUL character, and the messages of an element are cut before they are put into the message of its method.
-/

namespace ProbePoints.Document

/-- Why one element of a method cannot be read. -/
inductive ElementFault where
  | invalidField (field : String)
  | missingConstant
  | outsideRange (field : String) (value low high : Int)
  | unknownKind (kind : String)
  | unknownOpcode (mnemonic : String)
  | unknownFrame (kind : String)
  | unknownType (name : String)
  | reservedLabel (name : String)
  | labelEntries (field : String)
  | slotShape
  | slotField
  | emptyTable (low high : Int)
  | tableSize (low high : Int) (found : Nat)
  | wideKey
  | keyCount (keys targets : Nat)
  deriving DecidableEq, Repr

namespace ElementFault

/-- The wording of a fault. -/
def wording : ElementFault → String
  | .invalidField field => s!"missing or invalid field '{field}'"
  | .missingConstant => "missing field 'constant'"
  | .outsideRange field value low high => s!"field '{field}' value {value} is outside [{low}, {high}]"
  | .unknownKind kind => s!"unknown node kind '{kind}'"
  | .unknownOpcode mnemonic => s!"unknown opcode '{mnemonic}'"
  | .unknownFrame kind => s!"unknown frame type '{kind}'"
  | .unknownType name => s!"unknown verification type '{name}'"
  | .reservedLabel name => s!"label name '{name}' uses the reserved prefix '~'"
  | .labelEntries field => s!"entries of '{field}' must be label names"
  | .slotShape => "frame entries must be strings or objects"
  | .slotField => "frame entry needs an 'object' or 'uninitialized' field"
  | .emptyTable low high => s!"tableswitch range [{low}, {high}] is empty"
  | .tableSize low high found =>
    s!"tableswitch over [{low}, {high}] needs {high - low + 1} targets, found {found}"
  | .wideKey => "lookupswitch keys must be 32-bit integers"
  | .keyCount keys targets => s!"lookupswitch has {keys} keys but {targets} targets"

/-- The message of a fault. -/
def message (fault : ElementFault) : String := beforeNul fault.wording

end ElementFault

/-- Where in a method an element stands. -/
inductive Place where
  | instruction (index : Nat)
  | range (index : Nat)
  deriving DecidableEq, Repr

/-- The text of a place. -/
def Place.text : Place → String
  | .instruction index => s!"instruction {index}"
  | .range index => s!"try-catch block {index}"

/-- Why a document cannot be read. -/
inductive Fault where
  | unreadable (path reason : String)
  | malformed
  | notObject
  | noMethods
  | methodShape
  | noName
  | noInstructions (method : String)
  | elementShape (method : String) (place : Place)
  | element (method : String) (place : Place) (faults : List ElementFault)
  deriving DecidableEq, Repr

/-- The message of a fault. -/
def Fault.message : Fault → String
  | .unreadable path reason => s!"error reading json file '{beforeNul path}': {beforeNul reason}"
  | .malformed => "malformed JSON text"
  | .notObject => "top-level JSON value must be an object"
  | .noMethods => "class object has no 'methods' array"
  | .methodShape => "'methods' entries must be objects"
  | .noName => (ElementFault.invalidField "name").message
  | .noInstructions method => beforeNul s!"method '{method}' has no 'instructions' array"
  | .elementShape method place => beforeNul s!"method '{method}' {place.text}: expected an object"
  | .element method place faults =>
    let messages := "\n".intercalate (faults.map ElementFault.message)
    beforeNul s!"method '{method}' {place.text}: {messages}"

end ProbePoints.Document
