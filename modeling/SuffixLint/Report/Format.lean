import SuffixLint.Report.Sarif
import SuffixLint.Report.Text
/-!
# Output formats

The three forms in which a report is written.
-/

namespace SuffixLint

/-- A form in which a report is written. -/
inductive Format where
  | text
  | json
  | sarif
  deriving DecidableEq, Repr

/-- A word that names no format. -/
structure UnknownFormat where
  text : String
  deriving DecidableEq, Repr

/-- What is said of a word that names no format. -/
def UnknownFormat.message (e : UnknownFormat) : String :=
  "Unknown format '" ++ e.text ++ "'. Valid formats: text, json, sarif"

namespace Format

/-- The word for a format. -/
def name : Format → String
  | text => "text"
  | json => "json"
  | sarif => "sarif"

/-- The words by which formats are known. -/
def words : List (String × Format) :=
  [("text", .text), ("txt", .text), ("terminal", .text), ("json", .json), ("sarif", .sarif)]

/-- The format that a word names, in whatever case it is written. The words are ASCII and no other
letter has one of theirs as its lower case, so folding ASCII is enough. -/
def ofText (word : String) : Except UnknownFormat Format :=
  match words.find? fun w => w.1.toList = word.toList.map Char.toLower with
  | some w => .ok w.2
  | none => .error ⟨word⟩

/-- The word for a format names it. -/
theorem ofText_name (f : Format) : ofText f.name = .ok f := by
  cases f <;> rfl

end Format

/-- The text of a report in a format, with styles where the format has them; `time` says when the
run ended. -/
def Report.render (r : Report) (time : String) : Format → String
  | .text => String.ofList (Terminal.colored r.styled)
  | .json => (Report.codec.encode r).prettyText
  | .sarif => (Sarif.log time r.findings).prettyText

end SuffixLint
