import SuffixLint.Log
import SuffixLint.Report
import SuffixLint.Text.Quoted
/-!
# Detectors

A detector looks at declarations and gives findings, or fails. The detector of the suffix convention
gives one finding for each declaration that breaks it, in the order of the declarations, and never
fails.
-/

namespace SuffixLint

open Log

/-- Something that looks at declarations. -/
structure Detector where
  name : String
  description : String
  category : String
  /-- The findings among declarations, or why there are none to be had. -/
  detect : List Declaration → Logged (Except String (List Finding))

namespace AsyncSuffix

/-- The name of the detector of the suffix convention. -/
def name : String := "async-suffix"

/-- What the detector of the suffix convention does. -/
def description : String :=
  "Detects async methods that do not follow the \"Async\" suffix naming convention"

/-- The category of the findings of the suffix convention. -/
def category : String := "usage"

/-- The severity of the findings of the suffix convention where none is asked for. -/
def defaultSeverity : Severity := .info

/-- The message of a verdict in a finding. -/
def message (v : Verdict) : String :=
  v.message?.getD Convention.title

/-- What is proposed for a name: the title of the correction and the name it leads to. -/
def suggestedFix? (v : Verdict) (name : String) : Option String :=
  v.fixTitle?.map fun title =>
    match v.suggestedName? name with
    | some suggested => title ++ ": rename to `" ++ suggested ++ "`"
    | none => title

/-- The finding for a declaration and the verdict on it. -/
def finding (severity : Severity) (d : Declaration) (v : Verdict) : Finding where
  id := Finding.idOf name ((d.file.map Path.text).getD "") ((d.line.map UInt32.toNat).getD 0) d.name
  detector := name
  severity := severity
  title := message v ++ ": " ++ d.name
  description := "Async method `" ++ d.name ++ "`: " ++ message v ++ ". "
    ++ v.fixDescription?.getD "" ++ "."
  name := d.name
  verdict := v.code
  affectedFiles := d.file.toList
  line := d.line
  suggestedFix := suggestedFix? v d.name
  suggestedName := v.suggestedName? d.name
  category := some category

/-- The finding for a declaration, if it breaks the convention. -/
def finding? (severity : Severity) (d : Declaration) : Option Finding :=
  if d.verdict.isCompliant then none else some (finding severity d d.verdict)

/-- The findings among declarations, in their order. -/
def findings (severity : Severity) (ds : List Declaration) : List Finding :=
  ds.filterMap (finding? severity)

/-- The detector of the suffix convention, with the severity of its findings. -/
def detector (severity : Severity) : Detector where
  name := name
  description := description
  category := category
  detect ds := do
    let found := findings severity ds
    note .debug ("AsyncSuffixDetector found " ++ toString found.length ++ " findings in "
      ++ toString ds.length ++ " declarations")
    return .ok found

end AsyncSuffix

/-- What came of running one detector. -/
structure Detection where
  /-- The name of the detector. -/
  detector : String
  outcome : Except String (List Finding)
  /-- How long the detector took, in milliseconds. The linter has no clock and leaves it at zero. -/
  duration : Nat := 0

namespace Detection

/-- The findings of a detector, none if it failed. -/
def findings (d : Detection) : List Finding :=
  match d.outcome with
  | .ok found => found
  | .error _ => []

/-- Why a detector failed, if it did. -/
def error? (d : Detection) : Option String :=
  match d.outcome with
  | .ok _ => none
  | .error e => some e

/-- Whether a detector came to its end. -/
def isSuccess (d : Detection) : Bool :=
  d.error?.isNone

/-- What is said of a detector that failed. -/
def warning (d : Detection) : String :=
  "Detector " ++ d.detector ++ " failed after " ++ toString d.duration ++ "ms: " ++ d.error?.getD ""

end Detection

end SuffixLint
