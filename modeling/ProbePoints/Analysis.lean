import ProbePoints.Options
import ProbePoints.Report.Basic
import ProbePoints.Scan
import ProbePoints.Settling
import ProbePoints.Validity

/-!
# Analysis

The whole analysis of a method and of a class. A method is checked, normalized if asked for, and scanned. A class
reports on its methods in order; the methods stay as the analysis left them, and a rejection that gives the class up
leaves the later methods untouched.
-/

namespace ProbePoints

namespace Method

/-- The marks of the labels of a method. -/
def scan (m : Method) : Except Rejection MarkTable :=
  match Scan.ofMethod m with
  | .ok scan => .ok scan.marks
  | .error op => .error (.unsupported op m.name)

/-- Normalizes a method if the options say so. -/
def prepare (m : Method) (options : Options) : Outcome Nat :=
  if options.normalizeFrames then m.normalize else { method := m, result := .ok 0 }

/-- Checks, prepares and scans a method. -/
def analyze (m : Method) (options : Options) : Outcome MarkTable :=
  match m.check with
  | .error rejection => { method := m, result := .error rejection }
  | .ok () =>
    let prepared := m.prepare options
    match prepared.result with
    | .error rejection => { method := prepared.method, result := .error rejection }
    | .ok _ => { method := prepared.method, result := prepared.method.scan }

end Method

/-- A rejection gives the class up: any one if the analysis is to fail fast, and a subroutine if the policy says so. -/
def Rejection.aborts (options : Options) : Rejection → Bool
  | .unsupported .. => options.failFast || options.onSubroutine == .abort
  | .inconsistent .. => options.failFast

/-- The report on an analyzed method, or the rejection that gives the class up. -/
def Outcome.report (outcome : Outcome MarkTable) (options : Options) : Except Rejection MethodEntry :=
  match outcome.result with
  | .ok marks => .ok (.ofMarks outcome.method marks options.includeUnmarked)
  | .error rejection =>
    if rejection.aborts options then .error rejection
    else .ok (.rejected outcome.method.name outcome.method.descriptor rejection)

/-- Analyzes methods in order. Gives the methods as they are afterwards, and their reports. -/
def analyzeAll (options : Options) : List Method → List Method × Except Rejection (List MethodEntry)
  | [] => ([], .ok [])
  | m :: rest =>
    let outcome := m.analyze options
    match outcome.report options with
    | .error rejection => (outcome.method :: rest, .error rejection)
    | .ok report =>
      let (methods, reports) := analyzeAll options rest
      (outcome.method :: methods, reports.map (report :: ·))

/-- What the analysis of a class leaves behind. -/
structure ClassOutcome where
  unit : ClassUnit
  result : Except Rejection Report

/-- Analyzes a class. -/
def ClassUnit.analyze (c : ClassUnit) (options : Options) : ClassOutcome :=
  let (methods, reports) := analyzeAll options c.methods
  { unit := { c with methods }
    result := reports.map fun methods => { name := c.name, methods } }

end ProbePoints
