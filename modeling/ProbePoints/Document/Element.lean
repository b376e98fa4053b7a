import ProbePoints.Document.Field

/-!
# Elements of a method in a document

Readers for the nodes of a stream and for protected ranges. Labels stay names here; the method numbers them once all
of it is read.
-/

namespace ProbePoints.Document

open Json (Members)

/-! ### Switches -/

/-- A switch over a range of consecutive keys. -/
def tableSwitch (members : Members) : Read (Instruction String) := do
  let (low, high) ← both (int32 members "min") (int32 members "max")
  if high < low then
    refuse (.emptyTable low high)
  let fallback ← label members "default"
  let targets ← labels members "targets"
  if (targets.length : Int) ≠ high - low + 1 then
    refuse (.tableSize low high targets.length)
  return .tableSwitch (Int32.ofInt low) (Int32.ofInt high) fallback targets

/-- A key of a lookup switch. -/
def switchKey (entry : Json) : Read Int32 :=
  match entry.integer? with
  | some key => if key < minInt32 ∨ maxInt32 < key then refuse .wideKey else .ok (Int32.ofInt key)
  | none => refuse .wideKey

/-- The keys of a lookup switch. -/
def switchKeys (members : Members) : Read (List Int32) :=
  match members.items? "keys" with
  | some entries => entries.mapM switchKey
  | none => refuse (.invalidField "keys")

/-- A switch over keys that are listed beside their targets. -/
def lookupSwitch (members : Members) : Read (Instruction String) := do
  let fallback ← label members "default"
  let targets ← labels members "targets"
  let keys ← switchKeys members
  if keys.length ≠ targets.length then
    refuse (.keyCount keys.length targets.length)
  return .lookupSwitch fallback keys targets

/-! ### Frames -/

/-- A slot given as an object. -/
def slotObject (members : Members) : Read (Slot String) :=
  match members.str? "object" with
  | some name => .ok (.object name)
  | none =>
    match members.get? "uninitialized" with
    | some _ => return .uninitialized (← label members "uninitialized")
    | none => refuse .slotField

/-- A slot of a frame. -/
def slot : Json → Read (Slot String)
  | .str name =>
    match BasicType.ofName? name with
    | some type => .ok (.basic type)
    | none => refuse (.unknownType name)
  | .obj members => slotObject members
  | _ => refuse .slotShape

/-- One half of a frame, empty if the field holds no list. -/
def slots (members : Members) (field : String) : Read (List (Slot String)) :=
  ((members.items? field).getD []).mapM slot

/-- A frame. -/
def frame (members : Members) : Read (Frame String) := do
  let name ← text members "type"
  match FrameKind.ofName? name with
  | none => refuse (.unknownFrame name)
  | some kind =>
    let locals ← slots members "locals"
    let stack ← slots members "stack"
    return { kind, locals, stack }

/-! ### Nodes -/

/-- The call of a method. Unless the document says so, only `invokeinterface` calls a method of an interface. -/
def call (members : Members) : Read (Instruction String) := do
  let op ← opcode members
  let callee ← member members
  return .method op callee ((members.bool? "interface").getD (op = .invokeinterface))

/-- A call site that is linked when it is reached. -/
def dynamicCall (members : Members) : Read (Instruction String) := do
  let (name, descriptor) ← both (text members "name") (text members "descriptor")
  return .invokeDynamic name descriptor ((members.str? "bootstrap").getD "")

/-- The text of a constant: a string stands for itself, any other value for its compact text. -/
def constantText : Json → String
  | .str value => value
  | value => value.compact

/-- An instruction that loads a constant. -/
def constant (members : Members) : Read (Instruction String) :=
  match members.get? "constant" with
  | some value => .ok (.ldc (constantText value))
  | none => refuse .missingConstant

/-- The creation of an array with several dimensions. -/
def multiArray (members : Members) : Read (Instruction String) := do
  let descriptor ← text members "descriptor"
  let dimensions ← integer members "dimensions" 1 255
  return .multiArray descriptor (UInt8.ofNat dimensions.toNat)

/-- A line mark. -/
def lineMark (members : Members) : Read (LineMark String) := do
  let number ← uint32 members "line"
  let start ← label members "start"
  return { number, start }

/-- A node, by the name of its kind. -/
def nodeOfKind (members : Members) : String → Read (Node String)
  | "insn" => return .insn (.plain (← opcode members))
  | "int" => do
    let op ← opcode members
    return .insn (.int op (Int32.ofInt (← int32 members "operand")))
  | "var" => do
    let op ← opcode members
    return .insn (.var op (← uint16 members "var"))
  | "type" => do
    let op ← opcode members
    return .insn (.type op (← text members "type"))
  | "field" => do
    let op ← opcode members
    return .insn (.field op (← member members))
  | "method" => return .insn (← call members)
  | "invokedynamic" => return .insn (← dynamicCall members)
  | "jump" => do
    let op ← opcode members
    return .insn (.jump op (← label members "target"))
  | "label" => return .label (← label members "name")
  | "ldc" => return .insn (← constant members)
  | "iinc" => do
    let index ← uint16 members "var"
    return .insn (.iinc index (← int16 members "increment"))
  | "tableswitch" => return .insn (← tableSwitch members)
  | "lookupswitch" => return .insn (← lookupSwitch members)
  | "multianewarray" => return .insn (← multiArray members)
  | "frame" => return .frame (← frame members)
  | "line" => return .line (← lineMark members)
  | kind => refuse (.unknownKind kind)

/-- The names of the kinds of nodes. -/
def nodeKinds : List String :=
  ["insn", "int", "var", "type", "field", "method", "invokedynamic", "jump", "label", "ldc", "iinc", "tableswitch",
    "lookupswitch", "multianewarray", "frame", "line"]

/-- Every name is that of a kind of nodes or of none. -/
@[elab_as_elim]
theorem kindCases {motive : String → Prop} (insn : motive "insn") (int : motive "int") (var : motive "var")
    (type : motive "type") (field : motive "field") (method : motive "method")
    (invokeDynamic : motive "invokedynamic") (jump : motive "jump") (label : motive "label") (ldc : motive "ldc")
    (iinc : motive "iinc") (tableSwitch : motive "tableswitch") (lookupSwitch : motive "lookupswitch")
    (multiArray : motive "multianewarray") (frame : motive "frame") (line : motive "line")
    (unknown : ∀ kind, kind ∉ nodeKinds → motive kind) (kind : String) : motive kind := by
  by_cases known : kind ∈ nodeKinds
  · have each : ∀ kind ∈ nodeKinds, motive kind := by
      simp only [nodeKinds, List.forall_mem_cons]
      exact ⟨insn, int, var, type, field, method, invokeDynamic, jump, label, ldc, iinc, tableSwitch, lookupSwitch,
        multiArray, frame, line, fun kind none => absurd none List.not_mem_nil⟩
    exact each kind known
  · exact unknown kind known

theorem nodeOfKind_of_not_mem {kind : String} (unknown : kind ∉ nodeKinds) (members : Members) :
    nodeOfKind members kind = refuse (.unknownKind kind) := by
  rw [nodeOfKind]
  all_goals
    rintro rfl
    exact absurd (by decide) unknown

/-- A node of the stream. -/
def node (members : Members) : Read (Node String) := do
  nodeOfKind members (← text members "kind")

/-- A protected range. -/
def protectedRange (members : Members) : Read (ProtectedRange String) := do
  let ((start, stop), handler) ←
    both (both (label members "start") (label members "end")) (label members "handler")
  return { start, stop, handler, caught := members.str? "type" }

end ProbePoints.Document
