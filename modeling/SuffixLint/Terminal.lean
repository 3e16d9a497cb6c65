/-!
# Terminal text

Text with styles is a list of pieces, each a style or plain characters. It is shown with its styles,
as the control sequences of a terminal, or without them. Apart from this, `strip` removes control
sequences from characters that are already there: from each escape character it removes the longest
sequence that a terminal would take as one, and it passes over the text once, so what closes up
around a removed sequence is not looked at again.
-/

namespace SuffixLint.Terminal

/-- The looks that are used, and the end of all of them. -/
inductive Style where
  | bold
  | dim
  | red
  | green
  | yellow
  | blue
  | cyan
  | gray
  | brightRed
  | reset
  deriving DecidableEq, Repr

/-- The control sequence that turns a style on. -/
def Style.code : Style → List Char
  | bold => "\x1b[1m".toList
  | dim => "\x1b[2m".toList
  | red => "\x1b[31m".toList
  | green => "\x1b[32m".toList
  | yellow => "\x1b[33m".toList
  | blue => "\x1b[34m".toList
  | cyan => "\x1b[36m".toList
  | gray => "\x1b[90m".toList
  | brightRed => "\x1b[91m".toList
  | reset => "\x1b[0m".toList

/-- A style, or characters that are shown as they are. -/
inductive Piece where
  | style (s : Style)
  | plain (text : List Char)
  deriving DecidableEq, Repr

/-- Text with styles. -/
abbrev Styled := List Piece

/-- A string as text without styles. -/
def plain (s : String) : Styled :=
  [.plain s.toList]

/-- Characters in a style, which ends behind them. -/
def inStyle (s : Style) (text : List Char) : Styled :=
  [.style s, .plain text, .style .reset]

/-- A string in a style, which ends behind it. -/
def paint (s : Style) (text : String) : Styled :=
  inStyle s text.toList

/-- The characters of a piece with its style. -/
def Piece.colored : Piece → List Char
  | style s => s.code
  | plain text => text

/-- The characters of a piece without its style. -/
def Piece.bare : Piece → List Char
  | style _ => []
  | plain text => text

/-- The characters of a text with its styles. -/
def colored (t : Styled) : List Char :=
  t.flatMap Piece.colored

/-- The characters of a text without its styles. -/
def bare (t : Styled) : List Char :=
  t.flatMap Piece.bare

/-- A text as it is shown, with its styles or without. -/
def render (colors : Bool) (t : Styled) : String :=
  String.ofList (if colors then colored t else bare t)

/-! ## Control sequences -/

/-- Whether a character begins a control sequence. -/
def isEscape (c : Char) : Bool :=
  c = '\x1b' || c = '\x9b'

/-- How far a control sequence has come. -/
inductive Scan where
  /-- The escape character has been read. -/
  | opened
  /-- One parenthesis has been read, which may choose a character set. -/
  | choosing
  /-- Brackets and signs have been read that may only stand before the numbers. -/
  | introduced
  /-- Digits of a number have been read, at most four. -/
  | digits (n : Nat)
  /-- A semicolon has been read behind a number. -/
  | separated
  /-- The last character of the sequence has been read. -/
  | complete
  deriving DecidableEq, Repr

/-- Whether what has been read is a control sequence. A digit may be the last character of one,
since some sequences end in a digit. -/
def Scan.isFinal : Scan → Bool
  | digits _ => true
  | complete => true
  | _ => false

/-- The letters and signs that end a control sequence. -/
def isFinalLetter (c : Char) : Bool :=
  ('A' ≤ c && c ≤ 'P') || c = 'R' || c = 'Z' || c = 'c' || ('f' ≤ c && c ≤ 'n') || c = 'q'
    || c = 'r' || c = 'y' || c = '=' || c = '>' || c = '<'

/-- How far a control sequence has come after a digit. -/
def Scan.afterDigit (c : Char) : Scan → Option Scan
  | opened => some (digits 1)
  | choosing => if c ≤ '2' then some complete else some (digits 1)
  | introduced => some (digits 1)
  | digits n => if n < 4 then some (digits (n + 1)) else some complete
  | separated => some (digits 1)
  | complete => none

/-- How far a control sequence has come after one more character; nothing when that character cannot
belong to it. -/
def Scan.step (c : Char) (s : Scan) : Option Scan :=
  if c.isDigit then s.afterDigit c
  else if c = '(' || c = ')' then
    match s with
    | opened => some choosing
    | choosing => some introduced
    | introduced => some introduced
    | _ => none
  else if c = '[' || c = '#' || c = '?' then
    match s with
    | opened => some introduced
    | choosing => some introduced
    | introduced => some introduced
    | _ => none
  else if c = ';' then
    match s with
    | digits _ => some separated
    | separated => some separated
    | complete => none
    | _ => some introduced
  else if isFinalLetter c then
    match s with
    | complete => none
    | _ => some complete
  else none

/-- How many characters more belong to the longest control sequence that begins so. -/
def Scan.longest (s : Scan) : List Char → Option Nat
  | [] => none
  | c :: r =>
    match s.step c with
    | none => none
    | some t =>
      match t.longest r with
      | some n => some (n + 1)
      | none => if t.isFinal then some 1 else none

/-- `strip` with the number of characters that are still to be dropped. -/
def stripFrom : Nat → List Char → List Char
  | _, [] => []
  | n + 1, _ :: r => stripFrom n r
  | 0, c :: r =>
    if isEscape c then
      match Scan.opened.longest r with
      | some n => stripFrom n r
      | none => c :: stripFrom 0 r
    else c :: stripFrom 0 r

/-- The text without the control sequences that a single scan from the left meets. -/
def strip (text : List Char) : List Char :=
  stripFrom 0 text

end SuffixLint.Terminal
