import ProbePoints.Marks
import ProbePoints.Method
import ProbePoints.Rejection

/-!
# Reports

What is told about a class: for each method whether it was analyzed, and then the marks of the labels it places, in
stream order.
-/

namespace ProbePoints

/-- Whether a method was analyzed, and if not, why. -/
inductive Verdict where
  | analyzed
  | unsupported (error : String)
  | inconsistent (error : String)
  deriving DecidableEq, Repr

namespace Verdict

/-- The name of a verdict. -/
def name : Verdict → String
  | .analyzed => "analyzed"
  | .unsupported _ => "unsupported"
  | .inconsistent _ => "inconsistent"

/-- Why the method was refused, if it was. -/
def error? : Verdict → Option String
  | .analyzed => none
  | .unsupported error | .inconsistent error => some error

/-- The verdict on a method that was refused. -/
def ofRejection (rejection : Rejection) : Verdict :=
  match rejection with
  | .unsupported .. => .unsupported rejection.message
  | .inconsistent .. => .inconsistent rejection.message

end Verdict

/-- What is told about a label. -/
structure LabelEntry where
  name : String
  marks : Marks
  probeDue : Bool
  deriving DecidableEq, Repr

/-- What is told about a method. -/
structure MethodEntry where
  name : String
  descriptor : String
  verdict : Verdict
  labels : List LabelEntry := []
  deriving DecidableEq, Repr

/-- What is told about a class. -/
structure Report where
  name : String
  methods : List MethodEntry
  deriving DecidableEq, Repr

namespace MethodEntry

/-- The number of probes a method needs. -/
def probes (report : MethodEntry) : Nat := report.labels.countP (·.probeDue)

/-- The report on a method that was refused. -/
def rejected (name descriptor : String) (rejection : Rejection) : MethodEntry :=
  { name, descriptor, verdict := .ofRejection rejection }

/-- The report on a method with the marks of its labels. Labels without marks appear only if they are included. -/
def ofMarks (m : Method) (marks : MarkTable) (includeUnmarked : Bool) : MethodEntry :=
  let shown := (placements m.nodes).filter fun label => (marks.get label).noted || includeUnmarked
  { name := m.name
    descriptor := m.descriptor
    verdict := .analyzed
    labels := shown.map fun label =>
      { name := m.displayName label, marks := marks.get label, probeDue := marks.probeDue label } }

end MethodEntry

end ProbePoints
