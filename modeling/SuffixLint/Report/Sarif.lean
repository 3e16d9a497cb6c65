import SuffixLint.Json.Printer
import SuffixLint.Report
/-!
# The report as SARIF

The report as a log of SARIF 2.1.0 with one run. The run declares a rule for each way to break the
convention, and has a result for each finding, in the order of the findings.
-/

namespace SuffixLint.Report

/-- The name of this program. -/
def programName : String := "async-naming"

/-- The version of this program. -/
def programVersion : String := "0.1.0"

namespace Sarif

/-- The schema of the log. -/
def schema : String :=
  "https://raw.githubusercontent.com/oasis-tcs/sarif-spec/master/Schemata/sarif-schema-2.1.0.json"

/-- The version of the format. -/
def version : String := "2.1.0"

/-- The level of a severity. -/
def level : Severity → String
  | .critical => "error"
  | .high => "error"
  | .medium => "warning"
  | .low => "note"
  | .info => "note"

/-- A text where a message is due. -/
def message (text : String) : Json :=
  .object [("text", .string text)]

/-- The rule for a way to break the convention. -/
def rule (v : Verdict) : Json :=
  .object [
    ("id", .string v.ruleId),
    ("name", .string v.ruleName),
    ("shortDescription", message (v.message?.getD Convention.title)),
    ("fullDescription",
      message (Convention.title ++ ". " ++ v.fixDescription?.getD "" ++ ".")),
    ("help", message (v.fixTitle?.getD "")),
    ("defaultConfiguration", .object [("level", .string (level .info))]),
    ("properties", .object [
      ("category", .string Convention.category),
      ("tags", .array [.string "naming", .string "async"])])]

/-- The rule of a finding: the one whose verdict has the finding's code, or else the diagnostic as a
whole. -/
def ruleIdOf (f : Finding) : String :=
  match Verdict.violations.find? fun v => v.code = f.verdict with
  | some v => v.ruleId
  | none => Convention.diagnosticId

/-- A path as a reference: with slashes for backslashes. -/
def uri (p : Path) : String :=
  String.ofList (p.text.toList.map fun c => if c = '\\' then '/' else c)

/-- The members of a location that say the line, if there is one. -/
def region : Option UInt32 → List (String × Json)
  | none => []
  | some line => [("region", .object [("startLine", .nat line.toNat)])]

/-- A file that a finding is about, with the finding's line. -/
def location (line : Option UInt32) (p : Path) : Json :=
  .object [("physicalLocation", .object (
    ("artifactLocation", .object [
      ("uri", .string (uri p)),
      ("uriBaseId", .string "%SRCROOT%")]) :: region line))]

/-- A member that is left out when its list is empty. -/
def unlessEmpty (key : String) (items : List Json) : List (String × Json) :=
  if items.isEmpty then [] else [(key, .array items)]

/-- The proposed correction of a finding, if there is one. -/
def fixes (f : Finding) : List Json :=
  f.suggestedFix.toList.map fun fix => .object [("description", message fix)]

/-- The properties of a result: what a finding says beyond the format. -/
def properties (f : Finding) : Json :=
  .object ([
    ("severity", .string (toString f.severity)),
    ("verdict", .string f.verdict),
    ("name", .string f.name)] ++
    f.suggestedName.toList.map fun name => ("suggestedName", .string name))

/-- The result for a finding. -/
def result (f : Finding) : Json :=
  .object ([
    ("ruleId", .string (ruleIdOf f)),
    ("level", .string (level f.severity)),
    ("message", message f.title)] ++
    unlessEmpty "locations" (f.affectedFiles.map (location f.line)) ++ [
    ("partialFingerprints", .object [("asyncNaming/v1", .string f.id)]),
    ("properties", properties f)] ++
    unlessEmpty "fixes" (fixes f))

/-- The log with the results for findings; `time` says when the run ended. -/
def log (time : String) (findings : List Finding) : Json :=
  .object [
    ("$schema", .string schema),
    ("version", .string version),
    ("runs", .array [.object [
      ("tool", .object [("driver", .object [
        ("name", .string programName),
        ("version", .string programVersion),
        ("rules", .array (Verdict.violations.map rule))])]),
      ("results", .array (findings.map result)),
      ("invocations", .array [.object [
        ("executionSuccessful", .bool true),
        ("endTimeUtc", .string time)]])]])]

end Sarif

end SuffixLint.Report
