import ProbePoints.Instruction

/-!
# Method bodies

A method body is a stream of nodes with the ranges its exception handlers protect. `Method` numbers its labels and
keeps their display names; a label it has to invent gets a name that starts with `~`. `Body.number` turns a body
with named labels into one with numbered labels, in the order of first mention.
-/

namespace ProbePoints

/-- A range of the stream whose exceptions, or those of class `caught`, go to a handler. -/
structure ProtectedRange (α : Type) where
  start : α
  stop : α
  handler : α
  caught : Option String
  deriving DecidableEq, Repr

/-- A method with its ranges and its stream. -/
structure Body (α : Type) where
  name : String
  descriptor : String
  nodes : List (Node α) := []
  ranges : List (ProtectedRange α) := []
  deriving DecidableEq, Repr

/-- A method whose labels are numbered. The display name of label `i` is the `i`-th of `labels`. -/
structure Method extends Body Label where
  labels : List String := []
  deriving DecidableEq, Repr

/-- A class with its methods. -/
structure ClassUnit where
  name : String
  methods : List Method
  deriving DecidableEq, Repr

/-- The labels a stream places, in stream order. -/
def placements {α : Type} (nodes : List (Node α)) : List α := nodes.filterMap Node.placed?

namespace Label

/-- The first character of the names of generated labels. No loaded label has a name that starts with it. -/
def generatedMark : Char := '~'

/-- The display name of a generated label. -/
def generatedName (label : Label) : String := generatedMark.toString ++ toString label.id

end Label

namespace Method

/-- The number of labels handed out so far. -/
def numLabels (m : Method) : Nat := m.labels.length

/-- The label that is handed out next. -/
def nextLabel (m : Method) : Label := ⟨m.numLabels⟩

/-- The display name of a label. -/
def displayName (m : Method) (label : Label) : String := m.labels.getD label.id "<unknown>"

/-- Hands out a new label. An empty name asks for a generated one. -/
def freshLabel (m : Method) (name : String) : Label × Method :=
  let label := m.nextLabel
  let name := if name.isEmpty then label.generatedName else name
  (label, { m with labels := m.labels ++ [name] })

/-- Visits the ranges and then the nodes of a method, in order. -/
def visitM {f : Type → Type} [Monad f] (m : Method) (onRange : ProtectedRange Label → f Unit)
    (onNode : Node Label → f Unit) : f Unit := do
  m.ranges.forM onRange
  m.nodes.forM onNode

end Method

/-! ### Numbering labels -/

/-- The label with a name: the one that has it, or a new one. -/
def intern (name : String) : StateM (List String) Label := fun names =>
  match names.idxOf? name with
  | some id => (⟨id⟩, names)
  | none => (⟨names.length⟩, names ++ [name])

/-- Replaces the labels of a range. -/
def ProtectedRange.relabelM {α β : Type} {m : Type → Type} [Monad m] (f : α → m β)
    (range : ProtectedRange α) : m (ProtectedRange β) := do
  let start ← f range.start
  let stop ← f range.stop
  let handler ← f range.handler
  return { start, stop, handler, caught := range.caught }

/-- Replaces the labels of a body, those of the stream before those of the ranges. -/
def Body.relabelM {α β : Type} {m : Type → Type} [Monad m] (f : α → m β) (body : Body α) : m (Body β) := do
  let nodes ← body.nodes.mapM (·.relabelM f)
  let ranges ← body.ranges.mapM (·.relabelM f)
  return { name := body.name, descriptor := body.descriptor, nodes, ranges }

/-- Numbers the labels of a body in the order of first mention. -/
def Body.number (body : Body String) : Method :=
  let (numbered, labels) := (body.relabelM intern).run []
  { toBody := numbered, labels }

end ProbePoints
