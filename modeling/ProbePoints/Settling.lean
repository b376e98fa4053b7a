import ProbePoints.Method
import ProbePoints.Rejection

/-!
# Frame boundaries

A line mark directly before a frame would have its label share the position of the frame. Such a mark is moved behind
the frame, to a new label that a `nop` keeps apart from it; this repeats while another frame follows. Once all marks are
settled, the operand stacks of frames that refer to the old label of a moved mark refer to its new one.
-/

namespace ProbePoints

/-- What came of settling the line marks of a stream. -/
structure Settled where
  /-- The stream after all moves. -/
  nodes : List (Node Label)
  /-- The old and the new label of each move, in stream order. -/
  moves : List (Label × Label) := []
  /-- The line mark that could not be moved, because its label stands nowhere. -/
  stuck : Option (LineMark Label) := none
  deriving DecidableEq, Repr

namespace Settled

/-- Puts nodes before the stream. -/
def prepend (nodes : List (Node Label)) (settled : Settled) : Settled :=
  { settled with nodes := nodes ++ settled.nodes }

/-- Adds an earlier move. -/
def precede (old new : Label) (settled : Settled) : Settled :=
  { settled with moves := (old, new) :: settled.moves }

end Settled

/-- The instruction that keeps a new label apart from the frame before it. -/
def spacer : Node Label := .insn (.plain .nop)

/-- Settles a stream that follows a line mark, if one is `pending`. The labels in `placed` stand somewhere, and new
labels are numbered from `next` on. -/
def settle (placed : List Label) (next : Nat) : Option (LineMark Label) → List (Node Label) → Settled
  | none, [] => { nodes := [] }
  | none, .line mark :: rest => settle placed next (some mark) rest
  | none, node :: rest => (settle placed next none rest).prepend [node]
  | some mark, [] => { nodes := [.line mark] }
  | some mark, .line later :: rest => (settle placed next (some later) rest).prepend [.line mark]
  | some mark, .frame shape :: rest =>
    if mark.start ∈ placed then
      let fresh : Label := ⟨next⟩
      ((settle (fresh :: placed) (next + 1) (some { mark with start := fresh }) rest).prepend
        [.frame shape, spacer, .label fresh]).precede mark.start fresh
    else
      { nodes := .line mark :: .frame shape :: rest, stuck := some mark }
  | some mark, node :: rest => (settle placed next none rest).prepend [.line mark, node]

/-! ### Frames after the moves -/

/-- The label that stands for another after some moves. The last move of a label counts, and it counts once. -/
def replacement (moves : List (Label × Label)) (label : Label) : Label :=
  (moves.reverse.lookup label).getD label

/-- A slot after some moves. -/
def Slot.moved (moves : List (Label × Label)) : Slot Label → Slot Label
  | .uninitialized site => .uninitialized (replacement moves site)
  | slot => slot

/-- A node after some moves: only the operand stacks of frames change. -/
def Node.moved (moves : List (Label × Label)) : Node Label → Node Label
  | .frame shape => .frame { shape with stack := shape.stack.map (Slot.moved moves) }
  | node => node

/-! ### Normalization -/

/-- What an operation that changes a method leaves behind, whether or not it succeeds. -/
structure Outcome (α : Type) where
  method : Method
  result : Except Rejection α

namespace Method

/-- The line marks of a method, settled. -/
def settled (m : Method) : Settled := settle (placements m.nodes) m.numLabels none m.nodes

/-- A method with a new stream and with names for new labels. -/
def extend (m : Method) (nodes : List (Node Label)) (fresh : List Label) : Method :=
  { m with nodes, labels := m.labels ++ fresh.map Label.generatedName }

/-- Moves every line mark that stands directly before a frame and counts the moves. On failure the moves made so far
stay, but frames keep their labels. -/
def normalize (m : Method) : Outcome Nat :=
  let settled := m.settled
  let fresh := settled.moves.map Prod.snd
  match settled.stuck with
  | none =>
    { method := m.extend (settled.nodes.map (Node.moved settled.moves)) fresh
      result := .ok settled.moves.length }
  | some mark =>
    let method := m.extend settled.nodes fresh
    { method
      result := .error (.inconsistent (.unplacedLine mark.number (method.displayName mark.start)) m.name) }

end Method

end ProbePoints
