/-!
# Patterns of ignore rules

A pattern is read into tokens and matched against a whole path. Both are taken as bytes of UTF-8, so
a question mark and a class stand for one byte each. A match is described by what it may leave: each
token turns the rest of a path into the rests that are possible behind it, and a path matches when
nothing may be left.
-/

namespace SuffixLint.Ignore

/-- A part of a pattern. -/
inductive Token where
  /-- A byte that stands for itself. -/
  | byte (value : UInt8)
  /-- `?`, any byte but the slash. -/
  | any
  /-- `*`, any run of bytes without a slash. -/
  | run
  /-- `**` and a slash at the start, any directories or none. -/
  | anywhere
  /-- A slash and `**` at the end, anything below. -/
  | inside
  /-- `**` between slashes, any directories or none. -/
  | between
  /-- A class in brackets, one byte in the ranges, or one outside of them. -/
  | oneOf (negated : Bool) (ranges : List (UInt8 × UInt8))
  /-- Alternatives in braces. -/
  | either (branches : List (List Token))
  deriving Repr

/-- A pattern. -/
abbrev Pattern := List Token

/-! ## Matching -/

/-- The byte of the slash. -/
def slash : UInt8 := 0x2F

/-- Every rest of a text, from all of it to nothing. -/
def allRests : List UInt8 → List (List UInt8)
  | [] => [[]]
  | b :: r => (b :: r) :: allRests r

/-- The rests of a text up to and with the first that begins with a slash. -/
def restsOfRun : List UInt8 → List (List UInt8)
  | [] => [[]]
  | b :: r => if b = slash then [b :: r] else (b :: r) :: restsOfRun r

/-- The rests behind each slash of a text. -/
def restsBehindSlashes : List UInt8 → List (List UInt8)
  | [] => []
  | b :: r => if b = slash then r :: restsBehindSlashes r else restsBehindSlashes r

/-- Whether a byte lies in one of the ranges. -/
def inRanges (ranges : List (UInt8 × UInt8)) (b : UInt8) : Bool :=
  ranges.any fun range => range.1 ≤ b && b ≤ range.2

/-- The rest behind a first byte that is as it has to be. -/
def restAfter (accepts : UInt8 → Bool) : List UInt8 → List (List UInt8)
  | [] => []
  | b :: r => if accepts b then [r] else []

mutual

/-- The rests that are possible behind a token. Braces without alternatives stand for nothing. -/
def Token.rests : Token → List UInt8 → List (List UInt8)
  | .byte value, path => restAfter (· = value) path
  | .any, path => restAfter (· ≠ slash) path
  | .run, path => restsOfRun path
  | .anywhere, path => path :: restsBehindSlashes path
  | .inside, path => (restAfter (· = slash) path).flatMap allRests
  | .between, path => (restAfter (· = slash) path).flatMap fun r => r :: restsBehindSlashes r
  | .oneOf negated ranges, path => restAfter (fun b => inRanges ranges b != negated) path
  | .either branches, path =>
    if branches.isEmpty then [path] else restsOfBranches branches path

/-- The rests that are possible behind a pattern that starts at any of the given ones. -/
def restsFrom : List Token → List (List UInt8) → List (List UInt8)
  | [], starts => starts
  | t :: ts, starts => restsFrom ts (starts.flatMap t.rests).eraseDups

/-- The rests that are possible behind any of several patterns. -/
def restsOfBranches : List (List Token) → List UInt8 → List (List UInt8)
  | [], _ => []
  | branch :: branches, path => restsFrom branch [path] ++ restsOfBranches branches path

end

/-- Whether a pattern is nothing but two stars, with a slash behind them or not. -/
def Pattern.isEverything : Pattern → Bool
  | [.anywhere] => true
  | _ => false

/-- Whether a whole path is as a pattern asks. -/
def Pattern.accepts (p : Pattern) (path : List UInt8) : Bool :=
  p.isEverything || (restsFrom p [path]).contains []

/-! ## Reading -/

/-- The bytes of a character. -/
def bytesOf (c : Char) : List UInt8 :=
  (String.singleton c).toUTF8.data.toList

/-- An open brace: the alternatives in it that are complete, and the tokens before it, both from the
last to the first. -/
structure OpenBrace where
  branches : List Pattern
  before : Pattern

/-- How far a pattern has been read: the tokens of the innermost alternative, from the last to the
first, and the braces that are open around it. -/
structure Reading where
  tokens : Pattern := []
  braces : List OpenBrace := []
  /-- Whether a class has been met that is not closed, so that brackets stand for themselves. -/
  plainBrackets : Bool := false

namespace Reading

/-- The reading with one more token. -/
def push (s : Reading) (t : Token) : Reading :=
  { s with tokens := t :: s.tokens }

/-- The reading with a character that stands for itself. -/
def pushChar (s : Reading) (c : Char) : Reading :=
  { s with tokens := ((bytesOf c).map Token.byte).reverse ++ s.tokens }

/-- Whether a pattern has nothing but empty braces in it. -/
def isVoid (p : Pattern) : Bool :=
  p.all fun
    | .either branches => branches.isEmpty
    | _ => false

/-- The reading behind an opening brace. -/
def openBrace (s : Reading) : Reading :=
  { s with tokens := [], braces := ⟨[], s.tokens⟩ :: s.braces }

/-- The reading behind a comma, which parts alternatives inside braces. -/
def comma (s : Reading) : Reading :=
  match s.braces with
  | [] => s.pushChar ','
  | b :: bs =>
    { s with tokens := [], braces := { b with branches := s.tokens :: b.branches } :: bs }

/-- The reading behind a closing brace; nothing if no brace is open. Empty alternatives do not
count. -/
def closeBrace (s : Reading) : Option Reading :=
  match s.braces with
  | [] => none
  | b :: bs =>
    let branches := ((s.tokens :: b.branches).map List.reverse).reverse
    some { s with tokens := .either (branches.filter (!isVoid ·)) :: b.before, braces := bs }

/-- What two stars are, by what stands around them, and whether the slash behind them belongs to
them. They count as directories only from a slash or the start to a slash or the end. -/
def stars (s : Reading) (previous next : Option Char) : Reading × Bool :=
  let inBraces := !s.braces.isEmpty
  let atEnd := next = none || (inBraces && (next = some ',' || next = some '}'))
  if s.tokens.isEmpty then
    if next = none || next = some '/' then (s.push .anywhere, true) else (s.push .run, false)
  else if previous ≠ some '/' && !(inBraces && (previous = some ',' || previous = some '{')) then
    (s.push .run, false)
  else if atEnd || next = some '/' then
    match s.tokens with
    | .anywhere :: _ => (s, !atEnd)
    | .inside :: _ => (s, !atEnd)
    | ts => ({ s with tokens := (if atEnd then .inside else .between) :: ts.drop 1 }, !atEnd)
  else (s.push .run, false)

end Reading

/-- How far a class has been read. -/
structure ClassReading where
  /-- The ranges, from the last to the first. -/
  ranges : List (Char × Char) := []
  /-- Whether a hyphen has been read that may join two ends of a range. -/
  joining : Bool := false

/-- The class with one more character that is no closing bracket, or nothing if that closes a range
whose ends stand in the wrong order. -/
def ClassReading.add (s : ClassReading) (c : Char) : Option ClassReading :=
  match s.joining, s.ranges with
  | true, (low, _) :: ranges => if c < low then none else some ⟨(low, c) :: ranges, false⟩
  | _, ranges =>
    if c = '-' && !ranges.isEmpty then some ⟨ranges, true⟩ else some ⟨(c, c) :: ranges, false⟩

/-- What became of a class. -/
inductive ClassEnd where
  /-- It is closed, and some characters have been read. -/
  | closed (ranges : List (Char × Char)) (length : Nat)
  /-- It is not closed. -/
  | unclosed
  /-- A range has its ends in the wrong order. -/
  | wrong

/-- Reads a class up to its closing bracket, which does not count as the first character. -/
def readClass (s : ClassReading) (length : Nat) : List Char → ClassEnd
  | [] => .unclosed
  | c :: r =>
    if c = ']' && !s.ranges.isEmpty then
      .closed (if s.joining then ('-', '-') :: s.ranges else s.ranges).reverse (length + 1)
    else
      match s.add c with
      | none => .wrong
      | some s' => readClass s' (length + 1) r

/-- A range of characters as ranges of bytes. A character of several bytes only lends its first byte
as an upper end and its last byte as a lower end. -/
def byteRanges (range : Char × Char) : List (UInt8 × UInt8) :=
  let alone (bs : List UInt8) := bs.map fun b => (b, b)
  let low := bytesOf range.1
  let high := bytesOf range.2
  if range.1 = range.2 then alone low
  else
    match low.getLast?, high.head? with
    | some l, some h => alone low.dropLast ++ (l, h) :: alone (high.drop 1)
    | _, _ => []

/-- Reads a pattern from where it stands, with the character before; nothing if the pattern is
wrong. `skip` characters have been read ahead. -/
def readPattern (s : Reading) (skip : Nat) (previous : Option Char) :
    List Char → Option Pattern
  | [] => if s.braces.isEmpty then some s.tokens.reverse else none
  | c :: r =>
    match skip with
    | n + 1 => readPattern s n (some c) r
    | 0 =>
      match c with
      | '?' => readPattern (s.push .any) 0 (some c) r
      | '*' =>
        match r with
        | '*' :: r' =>
          let found := s.stars previous r'.head?
          readPattern found.1 (if found.2 then 2 else 1) (some c) r
        | _ => readPattern (s.push .run) 0 (some c) r
      | '{' => readPattern s.openBrace 0 (some c) r
      | '}' =>
        match s.closeBrace with
        | none => none
        | some s' => readPattern s' 0 (some c) r
      | ',' => readPattern s.comma 0 (some c) r
      | '\\' =>
        match r with
        | [] => none
        | e :: _ => readPattern (s.pushChar e) 1 (some c) r
      | '[' =>
        if s.plainBrackets then readPattern (s.pushChar c) 0 (some c) r
        else
          let negated := r.head? = some '!' || r.head? = some '^'
          match readClass {} (if negated then 1 else 0) (if negated then r.drop 1 else r) with
          | .wrong => none
          | .unclosed => readPattern { s.pushChar c with plainBrackets := true } 0 (some c) r
          | .closed ranges length =>
            readPattern (s.push (.oneOf negated (ranges.flatMap byteRanges))) length (some c) r
      | _ => readPattern (s.pushChar c) 0 (some c) r

/-- The pattern that a text stands for, if it is one. -/
def Pattern.ofText? (text : List Char) : Option Pattern :=
  readPattern {} 0 none text

end SuffixLint.Ignore
