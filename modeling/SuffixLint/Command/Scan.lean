import SuffixLint.Command.Outcome
import SuffixLint.Input
import SuffixLint.Linter
import SuffixLint.Report.Format
import SuffixLint.Settings.Load
/-!
# Scanning declarations

Loads the settings and the declarations, inspects them and gives the report, on the first text or in
a file. What the command line asks for goes before what the settings ask for. A scan fails when its
format is unknown, an input does not load or the report cannot be written; then nothing is reported.
A scan whose findings reach the threshold has a report and is not a success.
-/

namespace SuffixLint.Command.Scan

open Log Terminal

/-- What the command line asks of a scan. -/
structure Order where
  /-- The directory that holds the settings. -/
  config : Path
  inputs : List Path
  format : Option Format := none
  output : Option Path := none
  failOn : Option Severity := none

/-- The format of a report: the one that is asked for, else the one that the settings name, else
text. -/
def format (asked : Option Format) (s : Settings) : Except UnknownFormat Format :=
  match asked, s.defaults.format with
  | some f, _ => .ok f
  | none, some word => Format.ofText word
  | none, none => .ok .text

/-- The severity from which on findings make a scan no success, if there is one. -/
def threshold (asked : Option Severity) (s : Settings) : Option Severity :=
  asked.or s.defaults.failOn

/-- A report as it is shown or written. A text keeps its control sequences, those of its contents
too, only on a terminal with colors. -/
def rendered (s : Surroundings) (o : Order) (f : Format) (r : Report) : String :=
  let text := r.render s.time f
  if f = .text ∧ (o.output.isSome ∨ !s.colors) then
    String.ofList (strip text.toList)
  else text

/-- Whether a report has findings at or above a threshold. -/
def reaches (r : Report) (threshold : Severity) : Bool :=
  0 < r.summary.atLeast threshold

/-- What is said of a report that has been written. -/
def written (p : Path) : Styled :=
  paint .green "✓" ++ plain " Report written to " ++ paint .cyan p.text ++ plain "\n"

/-- The outcome with the report shown or written. -/
def deliver (s : Surroundings) (output : Option Path) (text : String) : Outcome :=
  match output with
  | none => .answered s text
  | some p =>
    match s.disk.write p text with
    | .error e => .failed s ("Failed to write report to " ++ p.text) [e.message]
    | .ok disk => { stderr := render s.colors (written p), disk := disk }

/-- The outcome once the threshold has been looked at. A failure stays as it is. -/
def conclude (limit : Option Severity) (r : Report) (o : Outcome) : Outcome :=
  match limit with
  | none => o
  | some t =>
    if o.exit = 0 ∧ reaches r t then
      { o with
        exit := 1
        stderr := o.stderr ++ "Failing due to --fail-on=" ++ t.name ++ " threshold\n" }
    else o

/-- Runs a scan. -/
def run (s : Surroundings) (o : Order) : Logged Outcome := do
  let settings ← Settings.load s.disk o.config
  match format o.format settings with
  | .error e => return .failed s e.message []
  | .ok f =>
    match ← Input.load s.disk s.stdin o.inputs with
    | .error e => return .failed s "Failed to load declarations" (e.message :: e.cause?.toList)
    | .ok ds =>
      let linter ← Linter.standard settings
      let findings ← linter.run ds
      let report := Report.ofFindings findings ds
      let outcome := deliver s o.output (rendered s o f report)
      return conclude (threshold o.failOn settings) report outcome

end SuffixLint.Command.Scan
