/-!
# Lines

A line ends at a newline, and one carriage return before that newline belongs to the line's end. A
carriage return anywhere else is a character of its line. Text behind the last newline is a line of
its own, unless it is empty.
-/

namespace SuffixLint.Text

/-- The pieces of a text between its newlines: one more than there are newlines. -/
def splitNewlines : List Char → List (List Char)
  | [] => [[]]
  | '\n' :: r => [] :: splitNewlines r
  | c :: r =>
    match splitNewlines r with
    | [] => [[c]]
    | piece :: pieces => (c :: piece) :: pieces

/-- A piece without the carriage return at its end, if it has one there. -/
def dropReturn : List Char → List Char
  | [] => []
  | ['\r'] => []
  | c :: r => c :: dropReturn r

/-- The lines among the pieces between newlines: every piece but the last was ended by a newline,
and so gives up a carriage return at its end. -/
def linesOfPieces : List (List Char) → List (List Char)
  | [] => []
  | [last] => if last.isEmpty then [] else [last]
  | piece :: pieces => dropReturn piece :: linesOfPieces pieces

/-- The lines of a text. -/
def lines (text : List Char) : List (List Char) :=
  linesOfPieces (splitNewlines text)

end SuffixLint.Text
