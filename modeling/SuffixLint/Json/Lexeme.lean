import SuffixLint.Json.Error
import SuffixLint.Text.Hex
import SuffixLint.Text.Reading
/-!
# The tokens of a document

Every reading step takes a text as the list of its characters and gives what it has read together
with what is left, which is shorter. A text is refused at the first character that no document
could have there.

A string or a number is read in one of two ways: for its value, or only to be skipped. What is
skipped is looked at less closely: its surrogates need no partner and its numbers may be of any
size.
-/

namespace SuffixLint.Json.Lexeme

open Text

/-- Reads a value from the front of a text. -/
abbrev Read (α : Type) := (cs : List Char) → Except Error (α × Rest cs)

/-- The four characters that may stand between tokens. -/
def isSpace (c : Char) : Bool :=
  c = ' ' || c = '\t' || c = '\n' || c = '\r'

/-- The first character that is no space, and what follows it. -/
def next : (cs : List Char) → Option (Char × Rest cs)
  | [] => none
  | c :: r =>
    if isSpace c then (next r).map fun found => (found.1, found.2.past)
    else some (c, behind r)

/-- The rest of a literal word whose first letter has been read. -/
def word : List Char → (cs : List Char) → Except Error (Tail cs)
  | [], cs => .ok (unread cs)
  | _ :: _, [] => .error .endInValue
  | w :: ws, c :: r =>
    if c = w then (word ws r).map fun t => t.past.toTail else .error .expectedWord

/-! ## Strings -/

/-- The number that four hexadecimal digits stand for. -/
def hexNumber? (a b c d : Char) : Option Nat := do
  let a ← hexValue? a
  let b ← hexValue? b
  let c ← hexValue? c
  let d ← hexValue? d
  return ((a * 16 + b) * 16 + c) * 16 + d

/-- How many bytes a text takes. -/
def byteLength (cs : List Char) : Nat :=
  cs.foldl (fun n c => n + c.utf8Size) 0

/-- The four hexadecimal digits of an escape. Where fewer than four bytes are left, the string does
not end; where four are left that are not all digits, the escape is wrong. -/
def hexEscape (cs : List Char) : Except Error (Nat × Tail cs) :=
  match cs with
  | a :: b :: c :: d :: r =>
    match hexNumber? a b c d with
    | some n => .ok (n, (behind r).past.past.past.toTail)
    | none => .error .invalidEscape
  | few => .error (if byteLength few < 4 then .endInString else .invalidEscape)

/-- Whether a number is the first half of a surrogate pair. -/
def isHighSurrogate (n : Nat) : Bool :=
  0xD800 ≤ n && n ≤ 0xDBFF

/-- Whether a number is the second half of a surrogate pair. -/
def isLowSurrogate (n : Nat) : Bool :=
  0xDC00 ≤ n && n ≤ 0xDFFF

/-- The character that a surrogate pair stands for. -/
def surrogatePair (high low : Nat) : Char :=
  Char.ofNat ((high - 0xD800) * 0x400 + (low - 0xDC00) + 0x10000)

/-- The second half of a surrogate pair, as an escape of its own. -/
def lowSurrogate (high : Nat) (cs : List Char) : Except Error (Char × Tail cs) :=
  match cs with
  | [] => .error .endInString
  | '\\' :: [] => .error .endInString
  | '\\' :: 'u' :: r =>
    match hexEscape r with
    | .error e => .error e
    | .ok (low, t) =>
      if isLowSurrogate low then .ok (surrogatePair high low, t.past.past.toTail)
      else .error .loneSurrogate
  | _ => .error .unpairedSurrogate

/-- The character that an escape of one letter stands for. -/
def shortEscape? : Char → Option Char
  | '"' => some '"'
  | '\\' => some '\\'
  | '/' => some '/'
  | 'b' => some '\x08'
  | 'f' => some '\x0c'
  | 'n' => some '\n'
  | 'r' => some '\r'
  | 't' => some '\t'
  | _ => none

/-- The character that an escape stands for, whose backslash has been read. -/
def escape (cs : List Char) : Except Error (Char × Rest cs) :=
  match cs with
  | [] => .error .endInString
  | c :: r =>
    match shortEscape? c with
    | some x => .ok (x, behind r)
    | none =>
      if c ≠ 'u' then .error .invalidEscape
      else
        match hexEscape r with
        | .error e => .error e
        | .ok (n, t) =>
          if isLowSurrogate n then .error .loneSurrogate
          else if isHighSurrogate n then
            match lowSurrogate n t.val with
            | .error e => .error e
            | .ok (x, t') => .ok (x, (t.tail t').past)
          else .ok (Char.ofNat n, t.past)

/-- The characters of a string up to its closing quote, whose opening quote has been read. -/
def stringBody (cs : List Char) : Except Error (List Char × Rest cs) :=
  match cs with
  | [] => .error .endInString
  | c :: r =>
    if c = '"' then .ok ([], behind r)
    else if c = '\\' then
      match escape r with
      | .error e => .error e
      | .ok (x, r') =>
        match stringBody r'.val with
        | .error e => .error e
        | .ok (s, t) => .ok (x :: s, (r'.rest t).past)
    else if c.toNat < 0x20 then .error .controlCharacter
    else
      match stringBody r with
      | .error e => .error e
      | .ok (s, t) => .ok (c :: s, t.past)
termination_by cs.length
decreasing_by
  · exact Nat.lt_succ_of_lt r'.property
  · exact Nat.lt_succ_self r.length

/-- A string, whose opening quote has been read. -/
def string (cs : List Char) : Except Error (String × Rest cs) :=
  (stringBody cs).map fun found => (String.ofList found.1, found.2)

/-- An escape that is only skipped, whose backslash has been read. -/
def skipEscape (cs : List Char) : Except Error (Rest cs) :=
  match cs with
  | [] => .error .endInString
  | c :: r =>
    if (shortEscape? c).isSome then .ok (behind r)
    else if c = 'u' then
      match hexEscape r with
      | .error e => .error e
      | .ok (_, t) => .ok t.past
    else .error .invalidEscape

/-- A string that is only skipped, whose opening quote has been read. -/
def skipString (cs : List Char) : Except Error (Rest cs) :=
  match cs with
  | [] => .error .endInString
  | c :: r =>
    if c = '"' then .ok (behind r)
    else if c = '\\' then
      match skipEscape r with
      | .error e => .error e
      | .ok r' =>
        match skipString r'.val with
        | .error e => .error e
        | .ok t => .ok (r'.rest t).past
    else if c.toNat < 0x20 then .error .controlCharacter
    else
      match skipString r with
      | .error e => .error e
      | .ok t => .ok t.past
termination_by cs.length
decreasing_by
  · exact Nat.lt_succ_of_lt r'.property
  · exact Nat.lt_succ_self r.length

/-! ## Numbers -/

/-- The digits at the front of a text, and what follows them. -/
def digitRun : (cs : List Char) → List Char × Tail cs
  | [] => ([], unread [])
  | c :: r =>
    if c.isDigit then
      let run := digitRun r
      (c :: run.1, run.2.past.toTail)
    else ([], unread (c :: r))

/-- The parts of a number as they are written, its sign apart. -/
structure Numeral where
  whole : List Char
  fraction : Option (List Char)
  /-- Whether the power of ten is negative, and its digits. -/
  power : Option (Bool × List Char)
  deriving DecidableEq, Repr

/-- What is missing where a digit is due: the text ends there, or goes on otherwise. A number that
is only skipped is wrong in both cases. -/
def digitMissing (skipped : Bool) (cs : List Char) : Error :=
  if cs.isEmpty && !skipped then .endInValue else .invalidNumber

/-- The whole part of a number: one zero, or digits that do not begin with a zero. -/
def wholePart (skipped : Bool) (cs : List Char) : Except Error (List Char × Rest cs) :=
  match cs with
  | [] => .error (digitMissing skipped [])
  | c :: r =>
    if c = '0' then
      match r with
      | d :: r' => if d.isDigit then .error .invalidNumber else .ok (['0'], behind (d :: r'))
      | [] => .ok (['0'], behind [])
    else if c.isDigit then
      let run := digitRun r
      .ok (c :: run.1, run.2.past)
    else .error .invalidNumber

/-- The digits that have to follow a point or a power of ten. -/
def someDigits (skipped : Bool) (cs : List Char) : Except Error (List Char × Tail cs) :=
  match digitRun cs with
  | ([], _) => .error (digitMissing skipped cs)
  | (ds, t) => .ok (ds, t)

/-- The fraction of a number, if it has one. -/
def fractionPart (skipped : Bool) (cs : List Char) :
    Except Error (Option (List Char) × Tail cs) :=
  match cs with
  | '.' :: r =>
    match someDigits skipped r with
    | .error e => .error e
    | .ok (ds, t) => .ok (some ds, t.past.toTail)
  | cs => .ok (none, unread cs)

/-- The sign of a power of ten: whether it is negative, and what follows. -/
def powerSign (cs : List Char) : Bool × Tail cs :=
  match cs with
  | '+' :: r => (false, (behind r).toTail)
  | '-' :: r => (true, (behind r).toTail)
  | cs => (false, unread cs)

/-- The power of ten of a number, if it has one. -/
def powerPart (skipped : Bool) (cs : List Char) :
    Except Error (Option (Bool × List Char) × Tail cs) :=
  match cs with
  | [] => .ok (none, unread [])
  | c :: r =>
    if c = 'e' || c = 'E' then
      let sign := powerSign r
      match someDigits skipped sign.2.val with
      | .error e => .error e
      | .ok (ds, t) => .ok (some (sign.1, ds), (sign.2.tail t).past.toTail)
    else .ok (none, unread (c :: r))

/-- A number as it is written, behind its sign. -/
def numeral (skipped : Bool) (cs : List Char) : Except Error (Numeral × Rest cs) :=
  match wholePart skipped cs with
  | .error e => .error e
  | .ok (whole, r) =>
    match fractionPart skipped r.val with
    | .error e => .error e
    | .ok (fraction, t) =>
      match powerPart skipped t.val with
      | .error e => .error e
      | .ok (power, t') => .ok (⟨whole, fraction, power⟩, (r.tail t).tail t')

end SuffixLint.Json.Lexeme
