import ProbePoints.Opcode

/-!
# Instructions and stream elements

A method body is a stream of nodes: instructions, label placements, frames and line marks. The types are generic
in what stands for a label, so that one type serves both for bodies that name their labels and for bodies that
number them. `relabelM` replaces the labels of an element from left to right.
-/

namespace ProbePoints

/-- A position inside a method body, known by the number under which the body handed it out. The number has no bound.
A handle of 32 bits, with two values that tables keep for themselves, does the same in bodies of fewer than 4294967294
labels. -/
structure Label where
  id : Nat
  deriving DecidableEq, Repr

/-! ### Frames -/

/-- A verification type that needs no further data. -/
inductive BasicType where
  | top | int | float | long | double | null | uninitializedThis
  deriving DecidableEq, Repr

namespace BasicType

/-- The name of a verification type in listings and documents. -/
def name : BasicType → String
  | .top => "top"
  | .int => "int"
  | .float => "float"
  | .long => "long"
  | .double => "double"
  | .null => "null"
  | .uninitializedThis => "uninitialized_this"

/-- Every verification type. -/
def all : List BasicType := [.top, .int, .float, .long, .double, .null, .uninitializedThis]

/-- The verification type with a name. -/
def ofName? (name : String) : Option BasicType := all.find? (fun type => type.name == name)

end BasicType

/-- One slot of a frame: a basic type, a class type, or the site of the instruction that made a value
which is not initialized yet. -/
inductive Slot (α : Type) where
  | basic (type : BasicType)
  | object (name : String)
  | uninitialized (site : α)
  deriving DecidableEq, Repr

/-- How a frame is encoded. -/
inductive FrameKind where
  | new | full | append | chop | same | same1
  deriving DecidableEq, Repr

namespace FrameKind

/-- The name of a frame encoding in listings and documents. -/
def name : FrameKind → String
  | .new => "new"
  | .full => "full"
  | .append => "append"
  | .chop => "chop"
  | .same => "same"
  | .same1 => "same1"

/-- Every frame encoding. -/
def all : List FrameKind := [.new, .full, .append, .chop, .same, .same1]

/-- The frame encoding with a name. -/
def ofName? (name : String) : Option FrameKind := all.find? (fun kind => kind.name == name)

end FrameKind

/-- The types of the local variables and of the operand stack at one point of the stream. -/
structure Frame (α : Type) where
  kind : FrameKind
  locals : List (Slot α)
  stack : List (Slot α)
  deriving DecidableEq, Repr

/-! ### Nodes -/

/-- A line mark: the code from `start` on belongs to the source line `number`. -/
structure LineMark (α : Type) where
  number : UInt32
  start : α
  deriving DecidableEq, Repr

/-- A reference to a field or a method of a class. -/
structure Member where
  owner : String
  name : String
  descriptor : String
  deriving DecidableEq, Repr

/-- An instruction with its operands. The opcode need not fit the operand form: `Instruction.Fits` says when it does. -/
inductive Instruction (α : Type) where
  | plain (op : Opcode)
  | int (op : Opcode) (operand : Int32)
  | var (op : Opcode) (index : UInt16)
  | type (op : Opcode) (name : String)
  | field (op : Opcode) (member : Member)
  | method (op : Opcode) (member : Member) (onInterface : Bool)
  | invokeDynamic (name descriptor bootstrap : String)
  | jump (op : Opcode) (target : α)
  | ldc (constant : String)
  | iinc (index : UInt16) (amount : Int16)
  | tableSwitch (low high : Int32) (fallback : α) (targets : List α)
  | lookupSwitch (fallback : α) (keys : List Int32) (targets : List α)
  | multiArray (descriptor : String) (dimensions : UInt8)
  deriving DecidableEq, Repr

/-- One element of the stream. -/
inductive Node (α : Type) where
  | insn (instruction : Instruction α)
  | label (here : α)
  | frame (shape : Frame α)
  | line (mark : LineMark α)
  deriving DecidableEq, Repr

namespace Instruction

variable {α : Type}

/-- The opcode of an instruction. -/
def opcode : Instruction α → Opcode
  | .plain op | .int op _ | .var op _ | .type op _ | .field op _ | .method op _ _ | .jump op _ => op
  | .invokeDynamic .. => .invokedynamic
  | .ldc _ => .ldc
  | .iinc .. => .iinc
  | .tableSwitch .. => .tableswitch
  | .lookupSwitch .. => .lookupswitch
  | .multiArray .. => .multianewarray

/-- The operand form of an instruction. -/
def form : Instruction α → Form
  | .plain _ => .plain
  | .int .. => .int
  | .var .. => .var
  | .type .. => .type
  | .field .. => .field
  | .method .. => .method
  | .invokeDynamic .. => .invokeDynamic
  | .jump .. => .jump
  | .ldc _ => .ldc
  | .iinc .. => .iinc
  | .tableSwitch .. => .tableSwitch
  | .lookupSwitch .. => .lookupSwitch
  | .multiArray .. => .multiArray

/-- The labels an instruction may pass control to, in operand order. -/
def targets : Instruction α → List α
  | .jump _ target => [target]
  | .tableSwitch _ _ fallback targets | .lookupSwitch fallback _ targets => fallback :: targets
  | _ => []

/-- The opcode of the instruction takes the operands it has. -/
def Fits (insn : Instruction α) : Prop := insn.opcode.form = insn.form

instance (insn : Instruction α) : Decidable insn.Fits := inferInstanceAs (Decidable (_ = _))

end Instruction

namespace Node

variable {α : Type}

/-- The opcode of a node, if it is an instruction. -/
def opcode? : Node α → Option Opcode
  | .insn instruction => some instruction.opcode
  | _ => none

/-- The operand form of a node, if it is an instruction. -/
def form? : Node α → Option Form
  | .insn instruction => some instruction.form
  | _ => none

/-- The label a node places, if it places one. -/
def placed? : Node α → Option α
  | .label here => some here
  | _ => none

end Node

/-! ### Replacing labels -/

section Relabel

variable {α β : Type} {m : Type → Type} [Monad m]

/-- Replaces the label of a slot. -/
def Slot.relabelM (f : α → m β) : Slot α → m (Slot β)
  | .basic type => pure (.basic type)
  | .object name => pure (.object name)
  | .uninitialized site => return .uninitialized (← f site)

/-- Replaces the labels of a frame, locals before stack. -/
def Frame.relabelM (f : α → m β) (frame : Frame α) : m (Frame β) := do
  let locals ← frame.locals.mapM (·.relabelM f)
  let stack ← frame.stack.mapM (·.relabelM f)
  return { kind := frame.kind, locals, stack }

/-- Replaces the label of a line mark. -/
def LineMark.relabelM (f : α → m β) (mark : LineMark α) : m (LineMark β) :=
  return { number := mark.number, start := ← f mark.start }

/-- Replaces the labels of an instruction; a switch has its fallback replaced first. -/
def Instruction.relabelM (f : α → m β) : Instruction α → m (Instruction β)
  | .plain op => pure (.plain op)
  | .int op operand => pure (.int op operand)
  | .var op index => pure (.var op index)
  | .type op name => pure (.type op name)
  | .field op member => pure (.field op member)
  | .method op member onInterface => pure (.method op member onInterface)
  | .invokeDynamic name descriptor bootstrap => pure (.invokeDynamic name descriptor bootstrap)
  | .jump op target => return .jump op (← f target)
  | .ldc constant => pure (.ldc constant)
  | .iinc index amount => pure (.iinc index amount)
  | .tableSwitch low high fallback targets => do
    let fallback ← f fallback
    return .tableSwitch low high fallback (← targets.mapM f)
  | .lookupSwitch fallback keys targets => do
    let fallback ← f fallback
    return .lookupSwitch fallback keys (← targets.mapM f)
  | .multiArray descriptor dimensions => pure (.multiArray descriptor dimensions)

/-- Replaces the labels of a node. -/
def Node.relabelM (f : α → m β) : Node α → m (Node β)
  | .insn instruction => return .insn (← instruction.relabelM f)
  | .label here => return .label (← f here)
  | .frame shape => return .frame (← shape.relabelM f)
  | .line mark => return .line (← mark.relabelM f)

end Relabel

end ProbePoints
