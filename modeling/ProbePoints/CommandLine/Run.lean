import ProbePoints.Analysis
import ProbePoints.CommandLine.Command
import ProbePoints.Document.Class
import ProbePoints.Method.Listing
import ProbePoints.Report.Text

/-!
# Running a command

A command loads its settings and its class, analyzes the class and writes the report. Files are reached through
`FileAccess`, so the same definition runs on the files of the system and on files in memory.
-/

namespace ProbePoints

/-- How files are read and written. A failure gives its reason. -/
structure FileAccess (m : Type → Type) where
  read : String → m (Except String String)
  write : String → String → m (Except String Unit)

/-- What a command leaves on its streams, and its exit status. -/
structure RunResult where
  exit : UInt32
  stdout : String := ""
  stderr : String := ""
  deriving DecidableEq, Repr

/-- How grave a log line is. -/
inductive Severity where
  | info | warning | error
  deriving DecidableEq, Repr

/-- The name of a level in log lines. -/
def Severity.name : Severity → String
  | .info => "INFO"
  | .warning => "WARNING"
  | .error => "ERROR"

/-- A log line. -/
def logLine (level : Severity) (text : String) : String := "[" ++ level.name ++ "] " ++ text ++ "\n"

/-- The log line on a method: a warning if it was refused, and its figures if the log is verbose. -/
def MethodEntry.logLine (report : MethodEntry) (verbose : Bool) : String :=
  let signature := report.name ++ report.descriptor
  match report.verdict.error? with
  | some error => ProbePoints.logLine .warning s!"Skipping method {signature}: {error}"
  | none =>
    if verbose then
      ProbePoints.logLine .info
        s!"Method {signature}: {report.labels.length} label(s), {report.probes} probe(s)"
    else ""

/-- The log of an analysis, and the text of the report unless the class was given up. -/
structure Execution where
  log : String
  report : Option String
  deriving DecidableEq, Repr

namespace Command

/-- Analyzes a class. -/
def execute (command : Command) (options : Options) (c : ClassUnit) : Execution :=
  let loaded :=
    if command.verbose then logLine .info s!"Loaded {c.methods.length} method(s) of class '{c.name}'" else ""
  let outcome := c.analyze options
  match outcome.result with
  | .error rejection =>
    { log := loaded ++ logLine .error s!"Aborting: {rejection.message}", report := none }
  | .ok report =>
    let methods := String.join (report.methods.map (·.logLine command.verbose))
    let listing := if command.printNormalized then outcome.unit.listing else ""
    { log := loaded ++ methods ++ listing, report := some (report.text options.format) }

variable {m : Type → Type} [Monad m]

/-- Loads settings. -/
def readSettings (files : FileAccess m) (path : String) : m (Except SettingsFault Settings) := do
  match ← files.read path with
  | .error reason => return .error (.unreadable path reason)
  | .ok text => return Settings.ofText text

/-- Loads the settings of a command, if it names one. -/
def loadSettings (files : FileAccess m) (command : Command) :
    m (Except SettingsFault (Option Settings)) := do
  if command.settingsFile.isEmpty then
    return .ok none
  else
    return (← readSettings files command.settingsFile).map some

/-- Loads a class. -/
def loadClass (files : FileAccess m) (path : String) : m (Except Document.Fault ClassUnit) := do
  match ← files.read path with
  | .error reason => return .error (.unreadable path reason)
  | .ok text => return ClassUnit.ofText text

/-- Writes the report of an execution. The output file is opened only here. -/
def writeReport (files : FileAccess m) (command : Command) (log report : String) : m RunResult := do
  if command.output.isEmpty then
    return { exit := 0, stdout := report, stderr := log }
  match ← files.write command.output report with
  | .ok () => return { exit := 0, stderr := log }
  | .error reason =>
    return {
      exit := 1
      stderr := log ++ logLine .error s!"Failed to open output file: {command.output} - {reason}" }

/-- Runs a command. -/
def run (files : FileAccess m) (command : Command) : m RunResult := do
  match ← command.loadSettings files with
  | .error fault =>
    return { exit := 1, stderr := logLine .error s!"Failed to load configuration: {fault.message}" }
  | .ok settings =>
    match ← loadClass files command.input with
    | .error fault =>
      return { exit := 1, stderr := logLine .error s!"Failed to load {command.input}: {fault.message}" }
    | .ok c =>
      let execution := command.execute (command.options settings) c
      match execution.report with
      | none => return { exit := 1, stderr := execution.log }
      | some report => command.writeReport files execution.log report

end Command

/-- Reads a command line and runs it. -/
def runArguments {m : Type → Type} [Monad m] (files : FileAccess m) (arguments : List String) :
    m RunResult := do
  match Command.ofArguments arguments with
  | .error fault => return { exit := 1, stderr := logLine .error fault.message }
  | .ok command => command.run files

end ProbePoints
