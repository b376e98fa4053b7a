import ProbePoints.Document.Element
import ProbePoints.Json.Reader

/-!
# Classes in documents

A class is an object with a list of methods, and a method is an object with a list of nodes and, optionally, a list
of protected ranges. The labels of a method are numbered in the order of first mention.
-/

namespace ProbePoints

namespace Document

open Json (Members)

/-- Reads one element of a method at a place. -/
def element {α : Type} (method : String) (place : Place) (read : Members → Read α) (value : Json) :
    Except Fault α :=
  match value.members? with
  | none => .error (.elementShape method place)
  | some members => (read members).mapError (.element method place)

/-- Reads the elements of a list in order, each at its place. -/
def elements {α : Type} (method : String) (place : Nat → Place) (read : Members → Read α)
    (values : List Json) : Except Fault (List α) :=
  values.zipIdx.mapM fun (value, index) => element method (place index) read value

/-- A method with named labels. -/
def body (members : Members) : Except Fault (Body String) := do
  let name ← (text members "name").mapError fun _ => .noName
  let descriptor := (members.str? "descriptor").getD ""
  match members.items? "instructions" with
  | none => .error (.noInstructions name)
  | some instructions =>
    let nodes ← elements name .instruction node instructions
    let ranges ← elements name .range protectedRange ((members.items? "try_catch_blocks").getD [])
    return { name, descriptor, nodes, ranges }

end Document

open Document (Fault)

/-- Reads a method. -/
def Method.ofDocument (members : Json.Members) : Except Fault Method :=
  (Document.body members).map Body.number

namespace ClassUnit

/-- Reads a class. -/
def ofDocument (members : Json.Members) : Except Fault ClassUnit := do
  let name := (members.str? "class").getD ""
  match members.items? "methods" with
  | none => .error .noMethods
  | some entries =>
    let methods ← entries.mapM fun entry =>
      match entry.members? with
      | none => .error .methodShape
      | some method => Method.ofDocument method
    return { name, methods }

/-- Reads a class from the text of a document. -/
def ofText (text : String) : Except Fault ClassUnit :=
  match Json.ofText? text with
  | none => .error .malformed
  | some (.obj members) => ofDocument members
  | some _ => .error .notObject

end ClassUnit

end ProbePoints
