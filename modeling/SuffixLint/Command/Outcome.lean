import SuffixLint.Disk
import SuffixLint.Log
import SuffixLint.Terminal
import SuffixLint.Text.Lines
/-!
# Outcomes of commands

What a command finds around it, and what it leaves behind: an exit code, two texts, and the disk. A
command that fails says why on the second text, with what lies behind it, and leaves the disk as it
was.
-/

namespace SuffixLint.Command

/-- What a command finds around it. -/
structure Surroundings where
  disk : Disk := {}
  stdin : ByteArray := .empty
  /-- Whether texts are shown with styles. -/
  colors : Bool := false
  /-- What the environment says of the log records that are shown, if it says anything. -/
  logFilter : Option String := none
  /-- When the command ends. -/
  time : String := ""

/-- What a command leaves behind. -/
structure Outcome where
  exit : Nat := 0
  stdout : String := ""
  stderr : String := ""
  disk : Disk

/-- Why a command fails, and what lies behind that, from the nearest to the farthest. -/
structure Failure where
  message : String
  causes : List String := []
  deriving DecidableEq, Repr

namespace Failure

/-- A text whose lines but the first are moved in. -/
def indent (width : Nat) (text : String) : String :=
  let pieces := Text.splitNewlines text.toList
  let between := '\n' :: List.replicate width ' '
  String.ofList (between.intercalate pieces)

/-- A cause as it is listed among several: its number, counted from zero, stands to the right in a
column of five characters. -/
def numbered (n : Nat) (cause : String) : String :=
  let digits := toString n
  String.ofList (List.replicate (5 - digits.length) ' ') ++ digits ++ ": " ++ indent 7 cause

/-- The lines of causes from a number on. -/
def numberedLines (n : Nat) : List String → String
  | [] => ""
  | cause :: causes => "\n" ++ numbered n cause ++ numberedLines (n + 1) causes

/-- What is said of causes: one is only moved in, several are numbered. -/
def causesText : List String → String
  | [] => ""
  | [cause] => "\n\nCaused by:\n    " ++ indent 4 cause
  | causes => "\n\nCaused by:" ++ numberedLines 0 causes

/-- The text of a failure. -/
def text (f : Failure) : String :=
  "Error: " ++ f.message ++ causesText f.causes ++ "\n"

end Failure

namespace Outcome

/-- The outcome of a command that only says something. -/
def answered (s : Surroundings) (text : String) : Outcome where
  stdout := text
  disk := s.disk

/-- The outcome of a command that fails. -/
def failed (s : Surroundings) (message : String) (causes : List String) : Outcome where
  exit := 1
  stderr := Failure.text ⟨message, causes⟩
  disk := s.disk

end Outcome

end SuffixLint.Command
