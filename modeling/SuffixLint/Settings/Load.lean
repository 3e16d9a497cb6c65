import SuffixLint.Disk
import SuffixLint.Log
import SuffixLint.Settings
import SuffixLint.Toml.Document
/-!
# Loading settings

A directory holds its settings in a TOML file or, if that is missing or of no use, in a JSON file. A
file that is of no use is warned of. Without a useful file nothing is set.
-/

namespace SuffixLint.Settings

open Log

/-- The name of the file that is looked at first. -/
def tomlFileName : String := "async-naming.toml"

/-- The name of the file that is looked at next. -/
def jsonFileName : String := ".async-naming.json"

/-- The settings in a TOML text, if it is well formed and its known keys have values of their
types. -/
def ofToml? (text : String) : Option Settings :=
  (Toml.ofText? text.toList).bind (codec.decode .ignored)

/-- The settings in a TOML file, or why there are none. -/
def readToml (text : String) : Except String Settings :=
  match ofToml? text with
  | some s => .ok s
  | none => .error "malformed text or setting of the wrong type"

/-- The settings in a JSON file, or why there are none. -/
def readJson (text : String) : Except String Settings :=
  (codec.parse text.toList).mapError Json.Error.message

/-- The settings in a file, as `read` takes them from its text. -/
def ofFile (d : Disk) (p : Path) (read : String → Except String Settings) :
    Except String Settings :=
  match d.readText p with
  | .error e => .error e.message
  | .ok text => read text

/-- The settings in a file that may be missing or of no use. -/
def tryFile (d : Disk) (p : Path) (read : String → Except String Settings) :
    Logged (Option Settings) := do
  if d.holds p then
    match ofFile d p read with
    | .ok s =>
      note .debug ("Loaded project config from " ++ p.text)
      return some s
    | .error e =>
      note .warn ("Failed to load " ++ p.text ++ ": " ++ e)
      return none
  else return none

/-- The settings of the project in a directory. -/
def load (d : Disk) (dir : Path) : Logged Settings := do
  match ← tryFile d (dir.join tomlFileName) readToml with
  | some s => return s
  | none =>
    match ← tryFile d (dir.join jsonFileName) readJson with
    | some s => return s
    | none =>
      note .debug "No project config found, using defaults"
      return {}

end SuffixLint.Settings
