import ProbePoints.Marks
import ProbePoints.Method

/-!
# The scan of a method

One pass over a method that marks its labels. The state knows whether control can run on into the position at hand,
whether no instruction came yet, and the line mark in force. Each element of the method takes the state one step
further; the only way to fail is an instruction of a subroutine, and then the state stays as it was. `ofMethod` gives
the last state and `trace` all of them.
-/

namespace ProbePoints

/-- The state of a scan. -/
structure Scan where
  /-- Control can run on from the instruction before. -/
  fallsThrough : Bool := false
  /-- No instruction came yet. -/
  atEntry : Bool := true
  /-- The line mark in force. -/
  line : Option (LineMark Label) := none
  /-- The marks so far. -/
  marks : MarkTable := {}
  deriving DecidableEq, Repr

namespace Scan

/-- Takes in a protected range. The start of the range and its handler can both be reached from elsewhere. -/
def range (scan : Scan) (range : ProtectedRange Label) : Scan :=
  { scan with marks := (scan.marks.noteTarget range.start).noteTarget range.handler }

/-- Passes an opcode, unless it belongs to a subroutine. -/
def pass (scan : Scan) (op : Opcode) : Except Opcode Scan :=
  if op.flow = .subroutine then .error op
  else .ok { scan with fallsThrough := op.flow.continues, atEntry := false }

/-- Notes a call on the line in force. -/
def call (scan : Scan) : Scan :=
  match scan.line with
  | some mark => { scan with marks := scan.marks.noteCall mark.start mark.number }
  | none => scan

/-- Takes in what the operands of an instruction say. -/
def operands (scan : Scan) : Instruction Label → Scan
  | .method .. | .invokeDynamic .. => scan.call
  | .jump _ target => { scan with marks := scan.marks.noteTarget target }
  | .tableSwitch _ _ fallback targets | .lookupSwitch fallback _ targets =>
    { scan with marks := scan.marks.noteSwitch (fallback :: targets) }
  | _ => scan

/-- Arrives at a label. The first label of a method can be reached by calling the method. -/
def place (scan : Scan) (label : Label) : Scan :=
  let marks := if scan.atEntry then scan.marks.noteTarget label else scan.marks
  { scan with marks := if scan.fallsThrough then marks.noteSuccessor label else marks }

/-- Takes in a node. -/
def step (scan : Scan) : Node Label → Except Opcode Scan
  | .insn instruction => return (← scan.pass instruction.opcode).operands instruction
  | .label here => .ok (scan.place here)
  | .frame _ => .ok scan
  | .line mark => .ok { scan with line := some mark }

/-- The state after all ranges of a method. -/
def ofRanges (m : Method) : Scan := m.ranges.foldl range {}

/-- The scan of a whole method: its ranges, then its nodes. -/
def ofMethod (m : Method) : Except Opcode Scan := m.nodes.foldlM step (ofRanges m)

/-! ### Traces -/

/-- The states of a scan after each element it takes in, and the opcode that ended it early. -/
structure Trace where
  states : List Scan := []
  refused : Option Opcode := none
  deriving DecidableEq, Repr

/-- The states after each node. -/
def traceNodes (scan : Scan) : List (Node Label) → Trace
  | [] => {}
  | node :: rest =>
    match scan.step node with
    | .error op => { refused := some op }
    | .ok next =>
      let later := next.traceNodes rest
      { later with states := next :: later.states }

/-- The states after each range. -/
def traceRanges (scan : Scan) : List (ProtectedRange Label) → List Scan
  | [] => []
  | first :: rest => scan.range first :: (scan.range first).traceRanges rest

/-- The states of the scan of a method. -/
def trace (m : Method) : Trace :=
  let nodes := (ofRanges m).traceNodes m.nodes
  { nodes with states := traceRanges {} m.ranges ++ nodes.states }

end Scan

end ProbePoints
