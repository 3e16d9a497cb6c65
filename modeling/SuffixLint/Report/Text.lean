import SuffixLint.Report
import SuffixLint.Terminal
/-!
# The report for readers

The report as text with styles: the counts, and a table with two lines for each finding. The first
line of a finding has its number, the tag of its severity, its place, its name and the proposed name
in columns; the second has the message. Places and names that are too long for their column are
shortened.
-/

namespace SuffixLint.Report

open Terminal

/-- The style of a severity. -/
def severityStyle : Severity → Style
  | .critical => .red
  | .high => .brightRed
  | .medium => .yellow
  | .low => .blue
  | .info => .gray

/-- The tag of a severity. -/
def severityTag : Severity → List Char
  | .critical => "[C]".toList
  | .high => "[H]".toList
  | .medium => "[M]".toList
  | .low => "[L]".toList
  | .info => "[I]".toList

/-- The width of the columns for places and for names. -/
def columnWidth : Nat := 24

/-- The width of a path beyond which it is shortened. -/
def pathWidth : Nat := 20

/-- A text with spaces behind it up to a width. -/
def padRight (width : Nat) (text : List Char) : List Char :=
  text ++ List.replicate (width - text.length) ' '

/-- A text with spaces before it up to a width. -/
def padLeft (width : Nat) (text : List Char) : List Char :=
  List.replicate (width - text.length) ' ' ++ text

/-- Three dots for what has been left out. -/
def ellipsis : List Char := "...".toList

/-- A text of at most the given width: a longer one keeps its start, and dots take the place of the
rest. -/
def shorten (width : Nat) (text : List Char) : List Char :=
  if text.length ≤ width then text else text.take (width - 3) ++ ellipsis

/-- A path of at most the given width: a longer one keeps its end. -/
def shortenPath (width : Nat) (text : List Char) : List Char :=
  if text.length ≤ width then text else ellipsis ++ text.drop (text.length - (width - 3))

/-- The place of a finding: its first file and its line, or a dash without a file. -/
def place (f : Finding) : List Char :=
  match f.affectedFiles.head? with
  | none => ['-']
  | some file =>
    let path := shortenPath pathWidth file.text.toList
    match f.line with
    | some line => path ++ ':' :: Decimal.digits line.toNat
    | none => path

/-- The message of a finding: its title up to the first colon. -/
def messageOf (f : Finding) : List Char :=
  f.title.toList.takeWhile (· ≠ ':')

/-- Spaces between columns. -/
def gap : Piece := .plain [' ', ' ']

/-- The end of a line. -/
def endLine : Piece := .plain ['\n']

/-- The two lines of a finding with its number. -/
def rows (number : Nat) (f : Finding) : Styled :=
  gap :: inStyle .dim (padLeft 3 (Decimal.digits number)) ++
  gap :: inStyle (severityStyle f.severity) (severityTag f.severity) ++
  gap :: inStyle .dim (padRight columnWidth (place f)) ++
  [gap, .plain (padRight columnWidth (shorten columnWidth f.name.toList)),
    gap, .plain ((f.suggestedName.getD "").toList), endLine,
    .plain (List.replicate 12 ' ')] ++
  inStyle .dim (messageOf f) ++ [endLine]

/-- The rows of findings, numbered on from a number. -/
def rowsFrom (number : Nat) : List Finding → Styled
  | [] => []
  | f :: fs => rows number f ++ rowsFrom (number + 1) fs

/-- The heading and the counts. -/
def heading (r : Report) : Styled :=
  endLine :: paint .bold "Async Naming Check" ++
  endLine :: inStyle .dim (List.replicate 38 '─') ++
  endLine :: plain ("Declarations: " ++ toString r.declarations
    ++ "  Async: " ++ toString r.asynchronous
    ++ "  Compliant: " ++ toString r.compliant ++ "\n\n") ++
  paint .bold "FINDINGS" ++ plain (" (" ++ toString r.summary.total ++ " total)\n")

/-- What is said when there are no findings: that all is well, or how many declarations break the
convention all the same. -/
def emptyNote (r : Report) : Styled :=
  let note :=
    if r.unreported = 0 then "All async declarations follow the \"Async\" suffix convention."
    else "No findings reported, but " ++ toString r.unreported
      ++ " async declaration(s) do not follow the convention"
      ++ " (rule disabled or excluded by config)."
  gap :: paint .dim note ++ [endLine]

/-- The heading of the table. -/
def tableHeading : Styled :=
  paint .dim
    "  #   SEV   LOCATION                  NAME                      SUGGESTION" ++
  endLine :: inStyle .dim (' ' :: ' ' :: List.replicate 73 '─') ++ [endLine]

/-- The report as text with styles. -/
def styled (r : Report) : Styled :=
  if r.findings.isEmpty then heading r ++ emptyNote r
  else heading r ++ tableHeading ++ rowsFrom 1 r.findings ++ [endLine]

end SuffixLint.Report
