import ProbePoints.Instruction

/-!
# Rejections

Why the analysis refuses a method: it uses a subroutine, or its structure is inconsistent. Both are causes with their
wording in `message`.
-/

namespace ProbePoints

/-- What refers to a label. -/
inductive Referrer where
  | range
  | instruction (op : Opcode)
  | line
  deriving DecidableEq, Repr

/-- The name of a referrer in messages. -/
def Referrer.name : Referrer → String
  | .range => "try-catch block"
  | .instruction op => op.name
  | .line => "line number"

/-- A breach of the structure of a method. Labels appear by their display names. -/
inductive Violation where
  /-- A label stands at two positions. -/
  | placedTwice (label : String)
  /-- A label that is referred to stands nowhere. -/
  | unplaced (referrer : Referrer) (label : String)
  /-- An opcode has the operands of another form. -/
  | wrongForm (op : Opcode) (found : Form)
  /-- A line mark before a frame starts at a label that stands nowhere. -/
  | unplacedLine (number : UInt32) (label : String)
  /-- A breach in the words of the caller that found it. -/
  | stated (text : String)
  deriving DecidableEq, Repr

/-- The wording of a violation. -/
def Violation.message : Violation → String
  | .placedTwice label => s!"label '{label}' is placed more than once"
  | .unplaced referrer label =>
    s!"{referrer.name} refers to label '{label}' which is not placed in the method"
  | .wrongForm op found =>
    s!"opcode {op.name} expects a {op.form.name} instruction, found a {found.name} instruction"
  | .unplacedLine number label =>
    s!"line {number.toNat} starts at label '{label}' which is not placed in the method"
  | .stated text => text

/-- Why a method is refused. -/
inductive Rejection where
  | unsupported (op : Opcode) (method : String)
  | inconsistent (violation : Violation) (method : String)
  deriving DecidableEq, Repr

namespace Rejection

/-- The message of a rejection. -/
def message : Rejection → String
  | .unsupported op method => s!"unsupported construct in method '{method}': subroutine instruction {op.name}"
  | .inconsistent violation method => s!"structural inconsistency in method '{method}': {violation.message}"

/-- The system error number of a rejection: not supported, or invalid argument. -/
def errorNumber : Rejection → Nat
  | .unsupported .. => 95
  | .inconsistent .. => 22

end Rejection

end ProbePoints
