import SuffixLint.Command.Arguments
import SuffixLint.Command.Outcome
import SuffixLint.Json.Printer
import SuffixLint.Linter
/-!
# The catalogue of detectors and rules

The detectors that a scan runs, and the rules under which findings are reported, as a text or as a
document.
-/

namespace SuffixLint.Command.Catalogue

open Log Terminal

/-- A detector as a document. -/
def detectorDocument (d : Detector) : Json :=
  .object [
    ("category", .string d.category),
    ("description", .string d.description),
    ("name", .string d.name)]

/-- A rule as a document. -/
def ruleDocument (v : Verdict) : Json :=
  .object [
    ("fix", Json.optionalString v.fixTitle?),
    ("id", .string v.ruleId),
    ("message", Json.optionalString v.message?),
    ("verdict", .string v.code)]

/-- The catalogue as a document. -/
def document (l : Linter) : Json :=
  .object [
    ("detectors", .array (l.detectors.map detectorDocument)),
    ("rules", .array (Verdict.violations.map ruleDocument))]

/-- A detector in the text. -/
def detectorLines (d : Detector) : Styled :=
  plain "  " ++ paint .cyan d.name
    ++ plain (" [" ++ d.category ++ "]\n    " ++ d.description ++ "\n")

/-- A rule in the text. -/
def ruleLines (v : Verdict) : Styled :=
  plain "  " ++ paint .cyan v.ruleId
    ++ plain ("\n    " ++ v.message?.getD "" ++ " (fix: " ++ v.fixTitle?.getD "" ++ ")\n")

/-- The catalogue as a text. -/
def styled (l : Linter) : Styled :=
  paint .bold "Detectors" ++ plain "\n" ++ l.detectors.flatMap detectorLines
    ++ plain "\n" ++ paint .bold "Rules" ++ plain "\n" ++ Verdict.violations.flatMap ruleLines

/-- The catalogue of the linter that a scan runs without settings. -/
def run (s : Surroundings) (form : AnswerForm) : Logged Outcome := do
  let l ← Linter.standard {}
  match form with
  | .json => return .answered s ((document l).prettyText ++ "\n")
  | .text => return .answered s (render s.colors (styled l))

end SuffixLint.Command.Catalogue
