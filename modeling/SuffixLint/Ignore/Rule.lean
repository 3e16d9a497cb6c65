import SuffixLint.Ignore.Pattern
import SuffixLint.Text.Blank
import SuffixLint.Text.Lines
/-!
# Ignore rules

A file of ignore rules has one rule per line. A rule names paths below the directory of its file, to
be ignored or, with an exclamation mark before it, to be kept. Of the rules that name a path the
last one decides. A line that is no rule is passed over.
-/

namespace SuffixLint.Ignore

/-- What a rule says of a path that it names. -/
inductive Choice where
  | ignored
  | kept
  deriving DecidableEq, Repr

/-- One rule. -/
structure Rule where
  pattern : Pattern
  choice : Choice
  /-- Whether the rule names directories only. -/
  directoriesOnly : Bool
  deriving Repr

namespace Rule

/-- A line without the white space at its end. A line that ends in an escaped space keeps it all. -/
def trimLine (line : List Char) : List Char :=
  if ['\\', ' '].isSuffixOf line then line else Text.dropTrailingBlanks line

/-- What a line says before its pattern: what becomes of the paths, whether the pattern is bound to
the directory of its file by a slash before it, and the rest of the line. A backslash takes the
meaning from a mark. -/
def splitMarks : List Char → Choice × Bool × List Char
  | '\\' :: '!' :: r => (.ignored, false, '!' :: r)
  | '\\' :: '#' :: r => (.ignored, false, '#' :: r)
  | '!' :: '/' :: r => (.kept, true, r)
  | '!' :: r => (.kept, false, r)
  | '/' :: r => (.ignored, true, r)
  | r => (.ignored, false, r)

/-- A pattern without the slash at its end, and whether there is one. A backslash before that slash
goes with it. -/
def splitLastSlash (text : List Char) : Bool × List Char :=
  match text.reverse with
  | '/' :: '\\' :: r => (true, r.reverse)
  | '/' :: r => (true, r.reverse)
  | _ => (false, text)

/-- The full text of a pattern: one that is not bound and has no slash may stand in any directory,
and two stars at the end leave out the directory itself. -/
def fullText (bound : Bool) (text : List Char) : List Char :=
  let free := !bound && !text.contains '/' && text ≠ ['*', '*']
  let placed := if free then ['*', '*', '/'] ++ text else text
  if ['/', '*', '*'].isSuffixOf placed then placed ++ ['/', '*'] else placed

/-- The rule on a line, if there is one. -/
def ofLine? (line : List Char) : Option Rule :=
  let text := trimLine line
  if line.head? = some '#' ∨ text.isEmpty then none
  else
    let (choice, bound, marked) := splitMarks text
    let (directoriesOnly, named) := splitLastSlash marked
    (Pattern.ofText? (fullText bound named)).map fun p => ⟨p, choice, directoriesOnly⟩

/-- Whether a rule names a path, given from the directory of its file. -/
def names (r : Rule) (path : List UInt8) (isDirectory : Bool) : Bool :=
  (isDirectory || !r.directoriesOnly) && r.pattern.accepts path

end Rule

/-! ## Files of rules -/

/-- The pieces of bytes between newlines: one more than there are newlines. -/
def splitNewlineBytes : List UInt8 → List (List UInt8)
  | [] => [[]]
  | b :: r =>
    if b = 0x0A then [] :: splitNewlineBytes r
    else
      match splitNewlineBytes r with
      | [] => [[b]]
      | piece :: pieces => (b :: piece) :: pieces

/-- The texts of pieces up to the first that is not in UTF-8, with which reading ends. -/
def textPieces : List (List UInt8) → List (List Char)
  | [] => []
  | piece :: pieces =>
    match String.fromUTF8? ⟨piece.toArray⟩ with
    | none => [[]]
    | some text => text.toList :: textPieces pieces

/-- The first line without the byte order marks before it, and the other lines. -/
def dropOrderMarks : List (List Char) → List (List Char)
  | [] => []
  | line :: lines => line.dropWhile (· = '\ufeff') :: lines

/-- The rules in the content of a file. -/
def rulesOf (content : ByteArray) : List Rule :=
  let pieces := textPieces (splitNewlineBytes content.data.toList)
  (dropOrderMarks (Text.linesOfPieces pieces)).filterMap Rule.ofLine?

/-- What rules say of a path: the last one that names it decides. -/
def decide? (rules : List Rule) (path : List UInt8) (isDirectory : Bool) : Option Choice :=
  (rules.reverse.find? fun r => r.names path isDirectory).map Rule.choice

end SuffixLint.Ignore
