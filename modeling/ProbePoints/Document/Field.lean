import ProbePoints.Document.Fault
import ProbePoints.Json.Writer
import ProbePoints.Method

/-!
# Fields of document objects

Readers for the fields of one object. A reader gives a value or the faults it found. Readers in sequence stop at the
first fault; `both` runs two readers that do not depend on each other and keeps the faults of both.
-/

namespace ProbePoints.Document

open Json (Members)

/-- The outcome of reading a part of an element. -/
abbrev Read (α : Type) := Except (List ElementFault) α

/-- Refuses a part for one reason. -/
def refuse {α : Type} (fault : ElementFault) : Read α := .error [fault]

/-- Both outcomes, or the faults of both. -/
def both {α β : Type} : Read α → Read β → Read (α × β)
  | .ok a, .ok b => .ok (a, b)
  | .ok _, .error faults => .error faults
  | .error faults, .ok _ => .error faults
  | .error first, .error second => .error (first ++ second)

/-- A field that holds a string which is not empty. -/
def text (members : Members) (field : String) : Read String :=
  match members.str? field with
  | some value => if value.isEmpty then refuse (.invalidField field) else .ok value
  | none => refuse (.invalidField field)

/-- A field that holds an integer between two bounds. -/
def integer (members : Members) (field : String) (low high : Int) : Read Int :=
  match members.integer? field with
  | some value => if value < low ∨ high < value then refuse (.outsideRange field value low high) else .ok value
  | none => refuse (.invalidField field)

/-- The least signed integer of 32 bits. -/
def minInt32 : Int := -2147483648

/-- The greatest signed integer of 32 bits. -/
def maxInt32 : Int := 2147483647

/-- A field that holds a signed integer of 32 bits. -/
def int32 (members : Members) (field : String) : Read Int := integer members field minInt32 maxInt32

/-- A field that holds an unsigned integer of 16 bits. -/
def uint16 (members : Members) (field : String) : Read UInt16 :=
  return UInt16.ofNat (← integer members field 0 65535).toNat

/-- A field that holds a signed integer of 16 bits. -/
def int16 (members : Members) (field : String) : Read Int16 :=
  return Int16.ofInt (← integer members field (-32768) 32767)

/-- A field that holds an unsigned integer of 32 bits. -/
def uint32 (members : Members) (field : String) : Read UInt32 :=
  return UInt32.ofNat (← integer members field 0 4294967295).toNat

/-- A label name as documents may use it: generated names are reserved. -/
def plainLabel (name : String) : Read String :=
  if name.toList.head? = some Label.generatedMark then refuse (.reservedLabel name) else .ok name

/-- A field that holds a label name. -/
def label (members : Members) (field : String) : Read String := do
  plainLabel (← text members field)

/-- An entry of a list of label names. -/
def labelEntry (field : String) (entry : Json) : Read String :=
  match entry.str? with
  | some name => if name.isEmpty then refuse (.labelEntries field) else plainLabel name
  | none => refuse (.labelEntries field)

/-- A field that holds a list of label names. -/
def labels (members : Members) (field : String) : Read (List String) :=
  match members.items? field with
  | some entries => entries.mapM (labelEntry field)
  | none => refuse (.invalidField field)

/-- The field that holds a mnemonic. -/
def opcode (members : Members) : Read Opcode := do
  let mnemonic ← text members "opcode"
  match Opcode.ofName? mnemonic with
  | some op => .ok op
  | none => refuse (.unknownOpcode mnemonic)

/-- The fields that name a member of a class. -/
def member (members : Members) : Read Member := do
  let ((owner, name), descriptor) ←
    both (both (text members "owner") (text members "name")) (text members "descriptor")
  return { owner, name, descriptor }

end ProbePoints.Document
