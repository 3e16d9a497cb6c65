import SuffixLint.Text.Hex
import SuffixLint.Text.Reading
/-!
# The tokens of a TOML text

Blanks, ends of lines, comments, strings and keys. A line ends at a newline, before which one
carriage return may stand; no other control character but the tab may stand anywhere. A text that is
refused has no value, and why is not said.
-/

namespace SuffixLint.Toml

open Text

/-- Reads a value from the front of a text. -/
abbrev Read (α : Type) := (cs : List Char) → Option (α × Rest cs)

/-! ## Blanks, lines and comments -/

/-- The blanks inside a line. -/
def isBlank (c : Char) : Bool :=
  c = ' ' || c = '\t'

/-- What is left behind the characters at the front that are as given. -/
def skipWhile (p : Char → Bool) : (cs : List Char) → Tail cs
  | [] => unread []
  | c :: r => if p c then (skipWhile p r).past.toTail else unread (c :: r)

/-- What is left behind blanks. -/
def skipBlanks : (cs : List Char) → Tail cs :=
  skipWhile isBlank

/-- What is left behind an end of line. -/
def newline : (cs : List Char) → Option (Rest cs)
  | '\n' :: r => some (behind r)
  | '\r' :: '\n' :: r => some (behind r).past
  | _ => none

/-- Whether a character may stand in a comment: it is no control character, or a tab. -/
def isPlain (c : Char) : Bool :=
  c = '\t' || (0x20 ≤ c.toNat && c.toNat ≠ 0x7F)

/-- What is left behind an end of line, which the end of the text also is. -/
def lineBreak : (cs : List Char) → Option (Tail cs)
  | [] => some (unread [])
  | cs => (newline cs).map Rest.toTail

/-- What is left behind a comment, whose mark has been read, and the end of its line. -/
def commentEnd (cs : List Char) : Option (Tail cs) :=
  let comment := skipWhile isPlain cs
  (lineBreak comment.val).map comment.tail

/-- What is left behind the end of a statement: blanks, maybe a comment, and the end of the line. -/
def lineEnd (cs : List Char) : Option (Tail cs) :=
  let blanks := skipBlanks cs
  match blanks.next? with
  | some ('#', r) => (commentEnd r.val).map fun t => (r.tail t).toTail
  | some _ => (newline blanks.val).map fun r => (blanks.rest r).toTail
  | none => some blanks

/-- What is left behind a comment that has to end with its line, or behind an end of line; nothing
when neither stands here. -/
def fillerLine : (cs : List Char) → Option (Rest cs)
  | '#' :: r =>
    let comment := skipWhile isPlain r
    (newline comment.val).map fun t => (comment.rest t).past
  | cs => newline cs

/-- What is left behind blanks, ends of lines and comments. -/
def skipFiller (cs : List Char) : Tail cs :=
  let blanks := skipBlanks cs
  match fillerLine blanks.val with
  | none => blanks
  | some r => ((blanks.rest r).tail (skipFiller r.val)).toTail
termination_by cs.length
decreasing_by exact (blanks.rest r).property

/-! ## Strings -/

/-- The character of a number, if it is a scalar value. -/
def scalar? (n : Nat) : Option Char :=
  if n.isValidChar then some (Char.ofNat n) else none

/-- The number that hexadecimal digits stand for. -/
def hexNumber? (ds : List Char) : Option Nat :=
  ds.foldlM (fun n d => (hexValue? d).map fun v => n * 16 + v) 0

/-- The character that an escape stands for, whose backslash has been read. -/
def escape : Read Char
  | [] => none
  | c :: r =>
    let short (x : Char) : Option (Char × Rest (c :: r)) := some (x, behind r)
    let long (n : Nat) : Option (Char × Rest (c :: r)) :=
      if (r.take n).length = n then
        (hexNumber? (r.take n)).bind fun v =>
          (scalar? v).map fun x => (x, (dropped n r).past)
      else none
    match c with
    | 'b' => short '\x08'
    | 't' => short '\t'
    | 'n' => short '\n'
    | 'f' => short '\x0c'
    | 'r' => short '\r'
    | '"' => short '"'
    | '\\' => short '\\'
    | 'u' => long 4
    | 'U' => long 8
    | _ => none

/-- The characters of a basic string up to its closing quote. -/
def basicString (cs : List Char) : Option (List Char × Rest cs) :=
  match cs with
  | [] => none
  | c :: r =>
    if c = '"' then some ([], behind r)
    else if c = '\\' then
      match escape r with
      | none => none
      | some (x, r') =>
        (basicString r'.val).map fun found => (x :: found.1, (r'.rest found.2).past)
    else if isPlain c then (basicString r).map fun found => (c :: found.1, found.2.past)
    else none
termination_by cs.length
decreasing_by
  · exact Nat.lt_succ_of_lt r'.property
  · exact Nat.lt_succ_self r.length

/-- The characters of a literal string up to its closing quote. -/
def literalString : (cs : List Char) → Option (List Char × Rest cs)
  | [] => none
  | c :: r =>
    if c = '\'' then some ([], behind r)
    else if isPlain c then (literalString r).map fun found => (c :: found.1, found.2.past)
    else none

/-- The quotes at the front of a text that end a string of several lines: three, and before them up
to two that belong to the string. Those are given, with what is left. -/
def closingQuotes (q : Char) : (cs : List Char) → Option (List Char × Rest cs)
  | a :: b :: c :: r =>
    if a = q ∧ b = q ∧ c = q then
      let more := (r.take 2).takeWhile (· = q)
      some (more, (dropped more.length r).past.past.past)
    else none
  | _ => none

/-- What is left behind blanks and ends of lines. -/
def skipLines : (cs : List Char) → Tail cs
  | [] => unread []
  | '\r' :: '\n' :: r => (skipLines r).past.past.toTail
  | c :: r =>
    if isBlank c || c = '\n' then (skipLines r).past.toTail else unread (c :: r)

/-- What is left behind the end of a line that a backslash folds into the next: the blanks and ends
of lines up to the next character that shows. The backslash has been read. -/
def foldedLine (cs : List Char) : Option (Tail cs) :=
  let blanks := skipBlanks cs
  (newline blanks.val).map fun r => ((blanks.rest r).tail (skipLines r.val)).toTail

/-- The characters of a basic string of several lines up to its closing quotes. An end of line is a
newline, however it is written. -/
def basicLines (cs : List Char) : Option (List Char × Rest cs) :=
  match closingQuotes '"' cs with
  | some found => some found
  | none =>
    match newline cs with
    | some r =>
      (basicLines r.val).map fun found => ('\n' :: found.1, r.rest found.2)
    | none =>
      match cs with
      | [] => none
      | c :: r =>
        if c = '\\' then
          match foldedLine r with
          | some t => (basicLines t.val).map fun found => (found.1, (t.rest found.2).past)
          | none =>
            match escape r with
            | none => none
            | some (x, r') =>
              (basicLines r'.val).map fun found => (x :: found.1, (r'.rest found.2).past)
        else if isPlain c then (basicLines r).map fun found => (c :: found.1, found.2.past)
        else none
termination_by cs.length
decreasing_by
  · exact r.property
  · exact Nat.lt_succ_of_le t.property
  · exact Nat.lt_succ_of_lt r'.property
  · exact Nat.lt_succ_self r.length

/-- The characters of a literal string of several lines up to its closing quotes. -/
def literalLines (cs : List Char) : Option (List Char × Rest cs) :=
  match closingQuotes '\'' cs with
  | some found => some found
  | none =>
    match newline cs with
    | some r =>
      (literalLines r.val).map fun found => ('\n' :: found.1, r.rest found.2)
    | none =>
      match cs with
      | [] => none
      | c :: r =>
        if isPlain c then (literalLines r).map fun found => (c :: found.1, found.2.past)
        else none
termination_by cs.length
decreasing_by
  · exact r.property
  · exact Nat.lt_succ_self r.length

/-- What is left behind the end of line that may follow the opening quotes of a string of several
lines and is no part of it. -/
def skipFirstNewline (cs : List Char) : Tail cs :=
  match newline cs with
  | some r => r.toTail
  | none => unread cs

/-- A string of several lines, read by `lines`, whose three opening quotes have been read. -/
def stringOfLines {cs : List Char} (lines : Read (List Char)) (r : Rest cs) :
    Option (String × Rest cs) :=
  let start := skipFirstNewline r.val
  (lines start.val).map fun found => (String.ofList found.1, (r.tail start).rest found.2)

/-- A string on one line. -/
def lineString : Read String
  | '"' :: r => (basicString r).map fun found => (String.ofList found.1, found.2.past)
  | '\'' :: r => (literalString r).map fun found => (String.ofList found.1, found.2.past)
  | _ => none

/-- A string in one of the four ways of writing it. -/
def string : Read String
  | '"' :: '"' :: '"' :: r => stringOfLines basicLines (behind r).past.past
  | '\'' :: '\'' :: '\'' :: r => stringOfLines literalLines (behind r).past.past
  | cs => lineString cs

/-! ## Keys -/

/-- The characters of a key without quotes. -/
def isBare (c : Char) : Bool :=
  c.isAlphanum || c = '-' || c = '_'

/-- The characters at the front of a text that may stand in a key without quotes. -/
def bareRun : (cs : List Char) → List Char × Tail cs
  | [] => ([], unread [])
  | c :: r =>
    if isBare c then
      let run := bareRun r
      (c :: run.1, run.2.past.toTail)
    else ([], unread (c :: r))

/-- One part of a key. -/
def keyPart : Read String
  | [] => none
  | c :: r =>
    if isBare c then
      let run := bareRun r
      some (String.ofList (c :: run.1), run.2.past)
    else lineString (c :: r)

/-- How many arrays and tables may be open at one place, and how many parts a key may have. -/
def depthLimit : Nat := 79

/-- The parts of a key, with the blanks around each. -/
def keyParts (cs : List Char) : Option (List String × Rest cs) :=
  let blanks := skipBlanks cs
  match keyPart blanks.val with
  | none => none
  | some (part, r) =>
    let after := (blanks.rest r).tail (skipBlanks r.val)
    match after.toTail.next? with
    | some ('.', r') => (keyParts r'.val).map fun found => (part :: found.1, r'.rest found.2)
    | _ => some ([part], after)
termination_by cs.length
decreasing_by exact r'.property

/-- A key: the parts before its last, and its last. -/
def key : Read (List String × String) := fun cs =>
  (keyParts cs).bind fun found =>
    if found.1.length ≤ depthLimit then
      found.1.getLast?.map fun last => ((found.1.dropLast, last), found.2)
    else none

end SuffixLint.Toml
