import SuffixLint.Proofs.Decimal.Digits
import SuffixLint.Proofs.Linter.Accounting
import SuffixLint.Report.Format
/-!
# The report for readers, line by line

The text of a report is a heading, and then one note or a table. Each is laid out here in lines,
and what is printed are these lines and nothing else (`colored_styled`). Names and paths stand inside
the lines of a table and may hold anything, line ends too, so a reader who looks for a note in the
printed characters can be deceived by a name. The lines that a report lays out cannot: what stands
in a line behind its two spaces and its style tells the notes from each other and from everything
else (`opening`).

A report has its note instead of a table when it has no findings, and what the note says hangs on
two counts. Among the reports of the linter these counts agree with the declarations themselves, so
that the note never claims a success that is not there.
-/

namespace SuffixLint

namespace Report

open Terminal

/-! ## The lines of a report -/

/-- What is printed of characters in a style. -/
def shown (s : Style) (text : List Char) : List Char :=
  s.code ++ text ++ Style.reset.code

/-- Two spaces, which stand before most lines and between columns. -/
def spaces : List Char := [' ', ' ']

/-- A line that is a note. -/
def noteLine (note : String) : List Char :=
  spaces ++ shown .dim note.toList

/-- The line that claims success. -/
def allFollowLine : List Char :=
  noteLine "All async declarations follow the \"Async\" suffix convention."

/-- The line that tells how many declarations break the convention without being reported. -/
def noneReportedLine (n : Nat) : List Char :=
  noteLine ("No findings reported, but " ++ toString n
    ++ " async declaration(s) do not follow the convention"
    ++ " (rule disabled or excluded by config).")

/-- The lines of the heading, with the counts. -/
def headingLines (r : Report) : List (List Char) :=
  [[], shown .bold "Async Naming Check".toList, shown .dim (List.replicate 38 '─'),
    ("Declarations: " ++ toString r.declarations ++ "  Async: " ++ toString r.asynchronous
      ++ "  Compliant: " ++ toString r.compliant).toList, [],
    shown .bold "FINDINGS".toList ++ (" (" ++ toString r.summary.total ++ " total)").toList]

/-- The lines of the heading of the table. -/
def tableHeadingLines : List (List Char) :=
  [shown .dim
      "  #   SEV   LOCATION                  NAME                      SUGGESTION".toList,
    shown .dim (spaces ++ List.replicate 73 '─')]

/-- What the table has to say of one finding. -/
structure Entry where
  number : Nat
  style : Style
  tag : List Char
  place : List Char
  name : List Char
  suggestion : List Char
  message : List Char

namespace Entry

/-- The line with the columns. -/
def row (e : Entry) : List Char :=
  spaces ++ shown .dim (padLeft 3 (Decimal.digits e.number)) ++
  spaces ++ shown e.style e.tag ++
  spaces ++ shown .dim (padRight columnWidth e.place) ++
  spaces ++ padRight columnWidth e.name ++ spaces ++ e.suggestion

/-- The line with the message. -/
def messageLine (e : Entry) : List Char :=
  List.replicate 12 ' ' ++ shown .dim e.message

/-- The two lines of an entry. -/
def lines (e : Entry) : List (List Char) :=
  [e.row, e.messageLine]

/-- The entry of a finding. -/
def ofFinding (number : Nat) (f : Finding) : Entry where
  number := number
  style := severityStyle f.severity
  tag := severityTag f.severity
  place := Report.place f
  name := shorten columnWidth f.name.toList
  suggestion := (f.suggestedName.getD "").toList
  message := messageOf f

/-- The entries of findings, numbered on from a number. -/
def numberedFrom (number : Nat) : List Finding → List Entry
  | [] => []
  | f :: fs => ofFinding number f :: numberedFrom (number + 1) fs

/-- An entry has the tag of a finding and the message of its verdict, with nothing before or behind
it. -/
structure Tells (e : Entry) (f : Finding) : Prop where
  tag : e.tag = severityTag f.severity
  message : ∃ v : Verdict, f.verdict = v.code ∧ v.message?.map String.toList = some e.message

end Entry

/-- The lines of a table. -/
def tableLines (entries : List Entry) : List (List Char) :=
  tableHeadingLines ++ entries.flatMap Entry.lines ++ [[]]

/-- The note of a report without findings. -/
def emptyLine (r : Report) : List Char :=
  if r.unreported = 0 then allFollowLine else noneReportedLine r.unreported

/-- The lines that a report lays out. -/
def ownLines (r : Report) : List (List Char) :=
  headingLines r ++
    if r.findings.isEmpty then [emptyLine r] else tableLines (Entry.numberedFrom 1 r.findings)

/-- Lines as they are printed, each with its end. -/
def printed (lines : List (List Char)) : List Char :=
  lines.flatMap (· ++ ['\n'])

/-! ## What is printed -/

@[simp] theorem printed_nil : printed [] = [] := rfl

@[simp] theorem printed_cons (l : List Char) (ls : List (List Char)) :
    printed (l :: ls) = l ++ '\n' :: printed ls :=
  List.append_cons l '\n' _ ▸ rfl

@[simp] theorem printed_append (ls ms : List (List Char)) :
    printed (ls ++ ms) = printed ls ++ printed ms :=
  List.flatMap_append

@[simp] theorem colored_nil : colored [] = [] := rfl

@[simp] theorem colored_cons_plain (text : List Char) (t : Styled) :
    colored (.plain text :: t) = text ++ colored t := rfl

@[simp] theorem colored_append (t u : Styled) : colored (t ++ u) = colored t ++ colored u :=
  List.flatMap_append

@[simp] theorem colored_inStyle (s : Style) (text : List Char) :
    colored (inStyle s text) = shown s text := by
  simp [colored, inStyle, shown, Piece.colored]

/-! The texts stay closed below: what they are made of plays no part. -/

theorem colored_heading (r : Report) : colored (heading r) = printed (headingLines r) := by
  have hend : "\n\n".toList = ['\n', '\n'] := rfl
  have htotal : " total)\n".toList = " total)".toList ++ ['\n'] := rfl
  simp [-String.reduceToList, -List.reduceReplicate, heading, headingLines, paint, plain, endLine,
    hend, htotal]

theorem colored_emptyNote (r : Report) : colored (emptyNote r) = printed [emptyLine r] := by
  rw [emptyNote, emptyLine]
  split <;>
    simp [-String.reduceToList, allFollowLine, noneReportedLine, noteLine, paint, gap, spaces,
      endLine]

theorem colored_tableHeading : colored tableHeading = printed tableHeadingLines := by
  simp [-String.reduceToList, -List.reduceReplicate, tableHeading, tableHeadingLines, paint, spaces,
    endLine]

theorem colored_rows (number : Nat) (f : Finding) :
    colored (rows number f) = printed (Entry.ofFinding number f).lines := by
  simp [-List.reduceReplicate, rows, Entry.lines, Entry.row, Entry.messageLine, Entry.ofFinding,
    gap, spaces, endLine]

theorem colored_rowsFrom (number : Nat) (fs : List Finding) :
    colored (rowsFrom number fs) =
      printed ((Entry.numberedFrom number fs).flatMap Entry.lines) := by
  induction fs generalizing number with
  | nil => rfl
  | cons f fs ih =>
    rw [rowsFrom, colored_append, colored_rows, ih, Entry.numberedFrom, List.flatMap_cons,
      printed_append]

/-- What is printed of a report are the lines that it lays out. -/
theorem colored_styled (r : Report) : colored r.styled = printed r.ownLines := by
  rw [styled, ownLines, printed_append, ← colored_heading]
  by_cases hr : r.findings.isEmpty = true
  · rw [if_pos hr, if_pos hr, colored_append, colored_emptyNote]
  · rw [if_neg hr, if_neg hr, tableLines, printed_append, printed_append, ← colored_tableHeading,
      ← colored_rowsFrom, colored_append, colored_append, colored_append, List.append_assoc,
      List.append_assoc, List.append_assoc]
    rfl

/-! ## Telling the lines apart -/

/-- What stands in a line behind its two spaces and the style of notes. -/
def opening (line : List Char) : Option Char :=
  if line.take 6 = spaces ++ Style.dim.code then (line.drop 6).head? else none

/-- With findings it lays out a table. -/
theorem ownLines_of_ne {r : Report} (h : r.findings ≠ []) :
    r.ownLines = headingLines r ++ tableLines (Entry.numberedFrom 1 r.findings) := by
  rw [ownLines, if_neg (mt List.isEmpty_iff.mp h)]

theorem all_message (v : Verdict) : (AsyncSuffix.message v).toList.all (· ≠ ':') = true := by
  cases v <;> decide

/-- What stands before the first colon of a title is the message, whatever the name holds. -/
theorem messageOf_ofDue (o : Severity × Declaration) :
    messageOf (.ofDue o) = (AsyncSuffix.message o.2.verdict).toList := by
  have hcolon : ": ".toList = [':', ' '] := rfl
  rw [messageOf, Finding.ofDue, AsyncSuffix.finding, String.toList_append, String.toList_append,
    hcolon, List.append_assoc,
    List.takeWhile_append_of_pos (List.all_eq_true.mp (all_message o.2.verdict))]
  exact List.append_nil _

end Report

end SuffixLint
