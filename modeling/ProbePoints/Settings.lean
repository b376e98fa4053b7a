import ProbePoints.Json.Reader
import ProbePoints.Message
import ProbePoints.Options

/-!
# Settings

Settings that are kept in a document of their own. Everything in it is optional; a version, if given, has to be the one
that is understood.

The document is read as JSON, that is in flow style with its strings in quotes. Block style, unquoted strings and
comments are not read: a document that has them counts as malformed.
-/

namespace ProbePoints

/-- The settings of an analysis that a document keeps. -/
structure Settings where
  version : String := ""
  normalizeFrames : Bool := true
  onSubroutine : SubroutinePolicy := .skip
  format : ReportStyle := .json
  includeUnmarked : Bool := false
  deriving DecidableEq, Repr

/-- Why settings cannot be read. -/
inductive SettingsFault where
  | unreadable (path reason : String)
  | malformed
  | invalidValue (field : String)
  | unsupportedVersion (version : String)
  deriving DecidableEq, Repr

namespace Settings

/-- The only version that is understood. -/
def currentVersion : String := "covflow/v1"

end Settings

/-- The message of a fault. -/
def SettingsFault.message : SettingsFault → String
  | .unreadable path reason => s!"cannot read '{beforeNul path}': {beforeNul reason}"
  | .malformed => "malformed settings"
  | .invalidValue field => s!"invalid value of '{field}'"
  | .unsupportedVersion version =>
    s!"Unsupported apiVersion '{version}', expected '{Settings.currentVersion}'"

namespace Settings

open Json (Members)

/-- A setting that may be missing. -/
def setting {α : Type} (members : Members) (field : String) (read : Json → Option α) (fallback : α) :
    Except SettingsFault α :=
  match members.get? field with
  | none => .ok fallback
  | some value =>
    match read value with
    | some setting => .ok setting
    | none => .error (.invalidValue field)

/-- Reads settings. The version is checked last. -/
def ofDocument (members : Members) : Except SettingsFault Settings := do
  let version ← setting members "apiVersion" Json.str? ""
  let analysis ← setting members "analysis" Json.members? []
  let normalizeFrames ← setting analysis "normalize_frames" Json.bool? true
  let onSubroutine ← setting analysis "on_unsupported" (·.str?.bind SubroutinePolicy.ofName?) .skip
  let report ← setting members "report" Json.members? []
  let format ← setting report "format" (·.str?.bind ReportStyle.ofName?) .json
  let includeUnmarked ← setting report "include_unmarked" Json.bool? false
  if version ≠ "" ∧ version ≠ currentVersion then
    .error (.unsupportedVersion version)
  return { version, normalizeFrames, onSubroutine, format, includeUnmarked }

/-- Reads settings from text. -/
def ofText (text : String) : Except SettingsFault Settings :=
  match Json.ofText? text with
  | some (.obj members) => ofDocument members
  | _ => .error .malformed

/-- Puts settings into options. -/
def apply (settings : Settings) (options : Options) : Options :=
  { options with
    normalizeFrames := settings.normalizeFrames
    onSubroutine := settings.onSubroutine
    format := settings.format
    includeUnmarked := settings.includeUnmarked }

end Settings

end ProbePoints
