import ProbePoints.Settings

/-!
# Commands

What a command line asks for. An argument that starts with a dash, or with two, names a flag or an option; the value of
an option follows an equals sign or is the next argument. Any other argument is the input file.
-/

namespace ProbePoints

/-- The flags and options of a command line. An empty file name means that none was given. -/
structure Choices where
  output : String := ""
  settingsFile : String := ""
  format : Option ReportStyle := none
  noNormalize : Bool := false
  includeUnmarked : Bool := false
  printNormalized : Bool := false
  failFast : Bool := false
  verbose : Bool := false
  deriving DecidableEq, Repr

/-- What a command line asks for. -/
structure Command extends Choices where
  input : String
  deriving DecidableEq, Repr

/-- Why a command line cannot be understood. -/
inductive UsageFault where
  | unknownArgument (text : String)
  | missingValue (name : String)
  | invalidValue (name value : String)
  | missingInput
  deriving DecidableEq, Repr

/-- The message of a fault. -/
def UsageFault.message : UsageFault → String
  | .unknownArgument text => s!"unknown argument '{text}'"
  | .missingValue name => s!"option '{name}' needs a value"
  | .invalidValue name value => s!"option '{name}' has no value '{value}'"
  | .missingInput => "no input file is given"

/-- One argument of a command line. -/
inductive Argument where
  | file (name : String)
  | named (name : String) (value : Option String)
  deriving DecidableEq, Repr

namespace Argument

/-- Splits a named argument at its first equals sign. -/
def split (text : List Char) : Argument :=
  let (name, rest) := text.span (· != '=')
  match rest with
  | [] => .named (String.ofList name) none
  | _ :: value => .named (String.ofList name) (some (String.ofList value))

/-- Reads an argument. A lone dash is a file name. -/
def ofText (text : String) : Argument :=
  match text.toList with
  | ['-'] => .file text
  | '-' :: '-' :: rest => split rest
  | '-' :: rest => split rest
  | _ => .file text

end Argument

namespace Choices

/-- Turns a flag on, if there is one with the name. -/
def setFlag? (choices : Choices) : String → Option Choices
  | "no-normalize" => some { choices with noNormalize := true }
  | "include-unmarked" => some { choices with includeUnmarked := true }
  | "print-normalized" => some { choices with printNormalized := true }
  | "fail-fast" => some { choices with failFast := true }
  | "verbose" => some { choices with verbose := true }
  | _ => none

/-- Gives an option its value. -/
def setOption (choices : Choices) (name value : String) : Except UsageFault Choices :=
  match name with
  | "o" => .ok { choices with output := value }
  | "config" => .ok { choices with settingsFile := value }
  | "format" =>
    match ReportStyle.ofName? value with
    | some format => .ok { choices with format := some format }
    | none => .error (.invalidValue name value)
  | _ => .error (.unknownArgument name)

/-- Whether an argument of this name takes a value. -/
def takesValue (name : String) : Bool := ["o", "config", "format"].contains name

end Choices

namespace Command

/-- Takes in the arguments one after the other. The last file is the input, and it may have an empty name. -/
def addArguments (choices : Choices) (input : Option String) : List String → Except UsageFault Command
  | [] =>
    match input with
    | some input => .ok { choices with input }
    | none => .error .missingInput
  | text :: rest =>
    match Argument.ofText text with
    | .file name => addArguments choices (some name) rest
    | .named name (some value) => do addArguments (← choices.setOption name value) input rest
    | .named name none =>
      if Choices.takesValue name then
        match rest with
        | [] => .error (.missingValue name)
        | value :: others => do addArguments (← choices.setOption name value) input others
      else
        match choices.setFlag? name with
        | some choices => addArguments choices input rest
        | none => .error (.unknownArgument text)

/-- Reads a command line. -/
def ofArguments (arguments : List String) : Except UsageFault Command :=
  addArguments {} none arguments

/-- The options of the analysis: those of the settings, overruled by the arguments. -/
def options (command : Command) (settings : Option Settings) : Options :=
  let options := match settings with
    | some settings => settings.apply {}
    | none => {}
  { normalizeFrames := options.normalizeFrames && !command.noNormalize
    onSubroutine := if command.failFast then .abort else options.onSubroutine
    format := command.format.getD options.format
    includeUnmarked := options.includeUnmarked || command.includeUnmarked
    failFast := options.failFast || command.failFast }

end Command

end ProbePoints
