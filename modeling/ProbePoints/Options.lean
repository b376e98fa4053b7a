/-!
# Options of an analysis

What a caller can choose: how methods are analyzed, when a class is given up, and how its report is written.
-/

namespace ProbePoints

/-- What happens to a class when one of its methods uses a subroutine. -/
inductive SubroutinePolicy where
  | skip | abort
  deriving DecidableEq, Repr

namespace SubroutinePolicy

/-- The name of a policy. -/
def name : SubroutinePolicy → String
  | .skip => "skip"
  | .abort => "abort"

/-- The policy with a name. -/
def ofName? : String → Option SubroutinePolicy
  | "skip" => some .skip
  | "abort" => some .abort
  | _ => none

end SubroutinePolicy

/-- How a report is written. -/
inductive ReportStyle where
  | json | text
  deriving DecidableEq, Repr

namespace ReportStyle

/-- The name of a format. -/
def name : ReportStyle → String
  | .json => "json"
  | .text => "text"

/-- The format with a name. -/
def ofName? : String → Option ReportStyle
  | "json" => some .json
  | "text" => some .text
  | _ => none

end ReportStyle

/-- The options of an analysis. -/
structure Options where
  /-- Move line marks behind the frames they stand before. -/
  normalizeFrames : Bool := true
  /-- What a subroutine does to the class. -/
  onSubroutine : SubroutinePolicy := .skip
  /-- How the report is written. -/
  format : ReportStyle := .json
  /-- Report labels without marks too. -/
  includeUnmarked : Bool := false
  /-- Give the class up at the first method that is refused. -/
  failFast : Bool := false
  deriving DecidableEq, Repr

end ProbePoints
