import ProbePoints.Method

/-!
# Listings

The readable text of a method: a header, the protected ranges, and the stream with labels flush left. Every line
ends with a line feed.
-/

namespace ProbePoints

/-- What stands before an instruction. -/
def margin : String := "    "

/-- The text of a slot. -/
def Slot.text (m : Method) : Slot Label → String
  | .basic type => type.name
  | .object name => name
  | .uninitialized site => "uninitialized(" ++ m.displayName site ++ ")"

/-- The text of the slots of one half of a frame. -/
def slotsText (m : Method) (slots : List (Slot Label)) : String :=
  "[" ++ " ".intercalate (slots.map (·.text m)) ++ "]"

/-- One arm of a switch. -/
def armLine (m : Method) (key : String) (target : Label) : String :=
  margin ++ margin ++ key ++ ": " ++ m.displayName target

/-- The arms of a table switch: consecutive keys from `low` on. -/
def tableArms (m : Method) (low : Int) (targets : List Label) : List String :=
  targets.mapIdx fun i target => armLine m (toString (low + i)) target

/-- The arms of a lookup switch: keys and targets side by side, as far as both go. -/
def lookupArms (m : Method) (keys : List Int32) (targets : List Label) : List String :=
  List.zipWith (fun key target => armLine m (toString key.toInt) target) keys targets

/-- The lines of an instruction. -/
def Instruction.lines (m : Method) : Instruction Label → List String
  | .plain op => [margin ++ op.name]
  | .int op operand => [margin ++ op.name ++ " " ++ toString operand.toInt]
  | .var op index => [margin ++ op.name ++ " " ++ toString index.toNat]
  | .type op name => [margin ++ op.name ++ " " ++ name]
  | .field op member =>
    [margin ++ op.name ++ " " ++ member.owner ++ "." ++ member.name ++ " : " ++ member.descriptor]
  | .method op member onInterface =>
    [margin ++ op.name ++ " " ++ member.owner ++ "." ++ member.name ++ member.descriptor
      ++ (if onInterface then " (itf)" else "")]
  | .invokeDynamic name descriptor bootstrap =>
    [margin ++ "INVOKEDYNAMIC " ++ name ++ descriptor
      ++ (if bootstrap.isEmpty then "" else " [" ++ bootstrap ++ "]")]
  | .jump op target => [margin ++ op.name ++ " " ++ m.displayName target]
  | .ldc constant => [margin ++ "LDC " ++ constant]
  | .iinc index amount => [margin ++ "IINC " ++ toString index.toNat ++ " " ++ toString amount.toInt]
  | .tableSwitch low _ fallback targets =>
    (margin ++ "TABLESWITCH") :: tableArms m low.toInt targets ++ [armLine m "default" fallback]
  | .lookupSwitch fallback keys targets =>
    (margin ++ "LOOKUPSWITCH") :: lookupArms m keys targets ++ [armLine m "default" fallback]
  | .multiArray descriptor dimensions =>
    [margin ++ "MULTIANEWARRAY " ++ descriptor ++ " " ++ toString dimensions.toNat]

/-- The lines of a node. -/
def Node.lines (m : Method) : Node Label → List String
  | .insn instruction => instruction.lines m
  | .label here => [m.displayName here ++ ":"]
  | .frame shape =>
    [margin ++ "FRAME " ++ shape.kind.name ++ " " ++ slotsText m shape.locals ++ " "
      ++ slotsText m shape.stack]
  | .line mark => [margin ++ "LINE " ++ toString mark.number.toNat ++ " " ++ m.displayName mark.start]

/-- The line of a protected range; a range that catches everything shows a star. -/
def ProtectedRange.line (m : Method) (range : ProtectedRange Label) : String :=
  margin ++ "TRYCATCH " ++ m.displayName range.start ++ " " ++ m.displayName range.stop ++ " -> "
    ++ m.displayName range.handler ++ " " ++ range.caught.getD "*"

namespace Method

/-- The lines of a listing. -/
def lines (m : Method) : List String :=
  ("method " ++ m.name ++ m.descriptor) :: m.ranges.map (·.line m) ++ m.nodes.flatMap (·.lines m)

/-- The listing of a method. -/
def listing (m : Method) : String := String.join (m.lines.map (· ++ "\n"))

end Method

/-- The listings of all methods of a class, one after the other. -/
def ClassUnit.listing (c : ClassUnit) : String := String.join (c.methods.map Method.listing)

end ProbePoints
