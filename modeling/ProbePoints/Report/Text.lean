import ProbePoints.Json.Writer
import ProbePoints.Options
import ProbePoints.Report.Basic

/-!
# Written reports

The two texts of a report. The JSON text has one element a line; the plain text has one line for the class, for each
method and for each label. Both end with a line feed.
-/

namespace ProbePoints

/-! ### JSON -/

/-- The JSON value of a line number that may be missing. -/
def lineJson : Option UInt32 → Json
  | some line => .int line.toNat
  | none => .null

/-- The JSON value of a label. -/
def LabelEntry.toJson (report : LabelEntry) : Json :=
  .obj [("label", .str report.name),
    ("target", .bool report.marks.target),
    ("multi_target", .bool report.marks.multiTarget),
    ("successor", .bool report.marks.successor),
    ("method_invocation_line", lineJson report.marks.callLine),
    ("needs_probe", .bool report.probeDue)]

/-- The members that only a verdict decides: the error, or the probes and labels. -/
def MethodEntry.findings (report : MethodEntry) : Json.Members :=
  match report.verdict.error? with
  | some error => [("error", .str error)]
  | none => [("probes", .int report.probes), ("labels", .arr (report.labels.map LabelEntry.toJson))]

/-- The JSON value of a method. -/
def MethodEntry.toJson (report : MethodEntry) : Json :=
  .obj ([("name", .str report.name), ("descriptor", .str report.descriptor),
    ("status", .str report.verdict.name)] ++ report.findings)

/-- The JSON value of a class. -/
def Report.toJson (report : Report) : Json :=
  .obj [("class", .str report.name), ("methods", .arr (report.methods.map MethodEntry.toJson))]

/-! ### Plain text -/

/-- The words for the marks of a label; a dash stands for none. -/
def LabelEntry.words (report : LabelEntry) : List String :=
  (if report.marks.noted then [] else ["-"])
    ++ (if report.marks.target then ["target"] else [])
    ++ (if report.marks.multiTarget then ["multitarget"] else [])
    ++ (if report.marks.successor then ["successor"] else [])
    ++ (match report.marks.callLine with
        | some line => [s!"line={line.toNat}"]
        | none => [])
    ++ (if report.probeDue then ["probe"] else [])

/-- The line of a label. -/
def LabelEntry.line (report : LabelEntry) : String :=
  "  " ++ report.name ++ ":" ++ String.join (report.words.map (" " ++ ·))

/-- The lines of a method. -/
def MethodEntry.lines (report : MethodEntry) : List String :=
  let heading := "method " ++ report.name ++ report.descriptor ++ ": " ++ report.verdict.name
  match report.verdict.error? with
  | some error => [heading ++ " (" ++ error ++ ")"]
  | none => (heading ++ ", " ++ toString report.probes ++ " probe(s)") :: report.labels.map LabelEntry.line

/-- The lines of a class. -/
def Report.lines (report : Report) : List String :=
  ("class " ++ report.name) :: report.methods.flatMap MethodEntry.lines

/-! ### Both formats -/

namespace Report

/-- The JSON text of a report. -/
def jsonText (report : Report) : String := report.toJson.indented ++ "\n"

/-- The plain text of a report. -/
def plainText (report : Report) : String := String.join (report.lines.map (· ++ "\n"))

/-- The text of a report in a format. -/
def text (report : Report) : ReportStyle → String
  | .json => report.jsonText
  | .text => report.plainText

end Report

end ProbePoints
