import SuffixLint.Command.Arguments
import SuffixLint.Command.Outcome
import SuffixLint.Finding
import SuffixLint.Json.Printer
/-!
# Judging one name

The verdict on one name, with what is wrong and how it is corrected, as a short text or as a
document.
-/

namespace SuffixLint.Command.Name

open Log Terminal

/-- A member that is there if its text is. -/
def memberOf (key : String) : Option String → List (String × Json)
  | none => []
  | some text => [(key, .string text)]

/-- The answer as a document. -/
def document (name : String) (isAsync : Bool) : Json :=
  let v := Verdict.classify isAsync name
  .object ([
    ("name", .string name),
    ("is_async", .bool isAsync),
    ("verdict", Verdict.codec.encode v)]
    ++ memberOf "message" v.message? ++ memberOf "fix" v.fixTitle?
    ++ memberOf "suggested_name" (v.suggestedName? name))

/-- Why a name needs no correction. -/
def reason (isAsync : Bool) : String :=
  if isAsync then "follows the \"Async\" suffix convention"
  else "not async, convention does not apply"

/-- A line of the answer that is there if its text is. -/
def lineOf (label : String) : Option Styled → Styled
  | none => []
  | some text => plain ("  " ++ label) ++ text ++ plain "\n"

/-- The answer as a text. -/
def styled (name : String) (isAsync : Bool) : Styled :=
  let v := Verdict.classify isAsync name
  if v.isCompliant then
    paint .green "✓" ++ plain " " ++ paint .bold name
      ++ plain (": " ++ v.code ++ " (" ++ reason isAsync ++ ")\n")
  else
    paint .yellow "✗" ++ plain " " ++ paint .bold name ++ plain ": " ++ paint .yellow v.code
      ++ plain "\n" ++ lineOf "" (v.message?.map plain) ++ lineOf "Fix: " (v.fixTitle?.map plain)
      ++ lineOf "Suggested name: " ((v.suggestedName? name).map (paint .cyan))

/-- The verdict on one name. -/
def run (s : Surroundings) (name : String) (isAsync : Bool) (form : AnswerForm) :
    Logged Outcome := do
  note .debug (Text.quote name ++ " (async: " ++ (if isAsync then "true" else "false") ++ ") -> "
    ++ (Verdict.classify isAsync name).code)
  match form with
  | .json => return .answered s ((document name isAsync).prettyText ++ "\n")
  | .text => return .answered s (render s.colors (styled name isAsync))

end SuffixLint.Command.Name
