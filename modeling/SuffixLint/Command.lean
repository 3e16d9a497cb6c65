import SuffixLint.Command.Catalogue
import SuffixLint.Command.Name
import SuffixLint.Command.Scan
import SuffixLint.Command.Setup
/-!
# Commands

A command as a function: from arguments and surroundings to an outcome and the log records that are
shown with it.
-/

namespace SuffixLint.Command

open Log

/-- The name of the program. -/
def programName : String := Report.programName

/-- The page that names the version. -/
def versionPage : String :=
  programName ++ " " ++ Report.programVersion ++ "\n"

/-- The page that names the commands. -/
def helpPage : String :=
  "Usage: " ++ programName ++ " [OPTIONS] <COMMAND>\n\nCommands:\n"
    ++ String.join (commands.map fun c => "  " ++ c.1 ++ "\n")

/-- A page of text that the program shows of itself. -/
def Page.text : Page → String
  | .help => helpPage
  | .version => versionPage

/-- Does a task. -/
def perform (s : Surroundings) (i : Invocation) : Logged Outcome :=
  match i.task with
  | .check name isAsync form => Name.run s name isAsync form
  | .rules form => Catalogue.run s form
  | .init dir => return Setup.run s dir
  | .scan inputs format output failOn =>
    Scan.run s ⟨i.config, inputs, format, output, failOn⟩

/-- The log records that are shown: the environment decides, or else the command line. -/
def logThreshold (s : Surroundings) (i : Invocation) : Threshold :=
  match s.logFilter with
  | some text => .ofEnvironment text
  | none => some i.logLevel

/-- The exit code of a command whose arguments are refused. -/
def refusedExit : Nat := 2

/-- Runs the program with arguments: what it leaves behind, and the log records that are shown. -/
def run (s : Surroundings) (arguments : List String) : Logged Outcome :=
  match parseArguments arguments with
  | .error e =>
    return { exit := refusedExit, stderr := "error: " ++ e.message ++ "\n", disk := s.disk }
  | .ok (.page p) => return .answered s p.text
  | .ok (.run i) =>
    let done := perform s i
    ⟨done.value, done.records.filter (·.isShown (logThreshold s i))⟩

end SuffixLint.Command
