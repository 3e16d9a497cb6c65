import SuffixLint.Command.Outcome
import SuffixLint.Settings.Load
/-!
# Setting up a project

Writes example settings into a directory. A file of settings that is there already is never
overwritten.
-/

namespace SuffixLint.Command.Setup

open Terminal

/-- The settings that are written: what holds anyway, with two examples of excluded paths. -/
def exampleSettings : String :=
"# async-naming configuration

[rule]
# Set to false to turn the \"Async\" suffix check off
enabled = true
# Severity of reported names: info, low, medium, high, critical
severity = \"info\"

[exclude]
# Declarations in these paths are never reported
paths = [\"**/Migrations/**\", \"**/*.g.cs\"]
# Identifiers that are never reported
names = []

[defaults]
# Output format: text, json, sarif
format = \"text\"
# Exit with code 1 when findings at this severity or higher exist
# fail_on = \"info\"
"

/-- What is said of a file that has been written. -/
def created (p : Path) : Styled :=
  paint .green "✓" ++ plain " Created " ++ paint .cyan p.text ++ plain "\n"

/-- Writes example settings into the directory that a path leads to. -/
def run (s : Surroundings) (p : Path) : Outcome :=
  match s.disk.canonical p with
  | .error e => .failed s ("Path does not exist: " ++ p.text) [e.message]
  | .ok dir =>
    let file := dir.join Settings.tomlFileName
    if !s.disk.isDirectory dir then .failed s ("Path is not a directory: " ++ dir.text) []
    else if s.disk.holds file then
      .failed s (file.text ++ " already exists, not overwriting") []
    else
      match s.disk.write file exampleSettings with
      | .error e => .failed s ("Failed to write " ++ file.text) [e.message]
      | .ok disk => { stdout := render s.colors (created file), disk := disk }

end SuffixLint.Command.Setup
