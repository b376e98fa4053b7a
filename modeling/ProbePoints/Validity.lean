import ProbePoints.Method
import ProbePoints.Rejection

/-!
# Validity of methods

The first violation of a method: a label placed twice comes before any other, then the labels of protected ranges, then
the nodes in stream order, an opcode before the labels it refers to.
-/

namespace ProbePoints

/-- The first element of a list that occurs before it, in the list or among those seen. -/
def firstRepeat? {α : Type} [DecidableEq α] (seen : List α) : List α → Option α
  | [] => none
  | a :: rest => if a ∈ seen then some a else firstRepeat? (a :: seen) rest

/-- The labels of a range, in order. -/
def ProtectedRange.labels {α : Type} (range : ProtectedRange α) : List α :=
  [range.start, range.stop, range.handler]

namespace Method

/-- The first of some labels that is not among those placed. -/
def unplaced? (m : Method) (placed : List Label) (referrer : Referrer) (labels : List Label) : Option Violation :=
  (labels.find? (fun label => decide (label ∉ placed))).map fun label =>
    .unplaced referrer (m.displayName label)

/-- The violation of a range. -/
def rangeViolation? (m : Method) (placed : List Label) (range : ProtectedRange Label) : Option Violation :=
  m.unplaced? placed .range range.labels

/-- The violation of a node. -/
def nodeViolation? (m : Method) (placed : List Label) : Node Label → Option Violation
  | .insn instruction =>
    if instruction.Fits then m.unplaced? placed (.instruction instruction.opcode) instruction.targets
    else some (.wrongForm instruction.opcode instruction.form)
  | .line mark => m.unplaced? placed .line [mark.start]
  | .label _ | .frame _ => none

/-- The label that is placed a second time first. -/
def repeatViolation? (m : Method) : Option Violation :=
  (firstRepeat? [] (placements m.nodes)).map fun label => .placedTwice (m.displayName label)

/-- The first violation of a method. -/
def violation? (m : Method) : Option Violation :=
  let placed := placements m.nodes
  m.repeatViolation? <|> m.ranges.findSome? (m.rangeViolation? placed)
    <|> m.nodes.findSome? (m.nodeViolation? placed)

/-- Refuses a method that has a violation. -/
def check (m : Method) : Except Rejection Unit :=
  match m.violation? with
  | some violation => .error (.inconsistent violation m.name)
  | none => .ok ()

end Method

end ProbePoints
