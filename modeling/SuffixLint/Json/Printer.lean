import SuffixLint.Json.Value
import SuffixLint.Decimal.Shortest
import SuffixLint.Text.Hex
/-!
# Writing documents

A document is written on one line without spaces, or over several lines with two spaces for each
level of nesting. In strings the quote, the backslash and the controls below the space are escaped
and nothing else, so every other character stands for itself.
-/

namespace SuffixLint.Json

/-- A character as it is written inside a string. -/
def escapeChar (c : Char) : List Char :=
  match c with
  | '"' => ['\\', '"']
  | '\\' => ['\\', '\\']
  | '\x08' => ['\\', 'b']
  | '\x0c' => ['\\', 'f']
  | '\n' => ['\\', 'n']
  | '\r' => ['\\', 'r']
  | '\t' => ['\\', 't']
  | c =>
    if c.toNat < 0x20 then
      ['\\', 'u', '0', '0', Text.hexLetter (c.toNat / 16), Text.hexLetter (c.toNat % 16)]
    else [c]

/-- A string as it is written, between quotes. -/
def writeString (s : String) : List Char :=
  '"' :: s.toList.flatMap escapeChar ++ ['"']

/-- A number as it is written. -/
def Number.write : Number → List Char
  | .whole (.ofNat n) => Decimal.digits n
  | .whole (.negSucc n) => '-' :: Decimal.digits (n + 1)
  | .double x => Decimal.text x

mutual

/-- A document on one line. -/
def write : Json → List Char
  | .null => "null".toList
  | .bool true => "true".toList
  | .bool false => "false".toList
  | .number n => n.write
  | .string s => writeString s
  | .array [] => "[]".toList
  | .array (v :: vs) => '[' :: write v ++ writeItems vs
  | .object [] => "\x7b\x7d".toList
  | .object ((k, v) :: ms) => '\x7b' :: writeString k ++ ':' :: write v ++ writeMembers ms

/-- The items of an array behind its first, and its end. -/
def writeItems : List Json → List Char
  | [] => [']']
  | v :: vs => ',' :: write v ++ writeItems vs

/-- The members of an object behind its first, and its end. -/
def writeMembers : List (String × Json) → List Char
  | [] => ['\x7d']
  | (k, v) :: ms => ',' :: writeString k ++ ':' :: write v ++ writeMembers ms

end

/-- A new line, indented for a level of nesting. -/
def newLine (level : Nat) : List Char :=
  '\n' :: List.replicate (2 * level) ' '

mutual

/-- A document over several lines, where it stands at the given level of nesting. -/
def pretty (level : Nat) : Json → List Char
  | .null => "null".toList
  | .bool true => "true".toList
  | .bool false => "false".toList
  | .number n => n.write
  | .string s => writeString s
  | .array [] => "[]".toList
  | .array (v :: vs) =>
    '[' :: newLine (level + 1) ++ pretty (level + 1) v ++ prettyItems level vs
  | .object [] => "\x7b\x7d".toList
  | .object ((k, v) :: ms) =>
    '\x7b' :: newLine (level + 1) ++ writeString k ++ ':' :: ' ' :: pretty (level + 1) v
      ++ prettyMembers level ms

/-- The items of an array behind its first, and its end, over several lines. -/
def prettyItems (level : Nat) : List Json → List Char
  | [] => newLine level ++ [']']
  | v :: vs => ',' :: newLine (level + 1) ++ pretty (level + 1) v ++ prettyItems level vs

/-- The members of an object behind its first, and its end, over several lines. -/
def prettyMembers (level : Nat) : List (String × Json) → List Char
  | [] => newLine level ++ ['\x7d']
  | (k, v) :: ms =>
    ',' :: newLine (level + 1) ++ writeString k ++ ':' :: ' ' :: pretty (level + 1) v
      ++ prettyMembers level ms

end

/-- The text of a document on one line. -/
def compactText (v : Json) : String :=
  String.ofList v.write

/-- The text of a document over several lines. -/
def prettyText (v : Json) : String :=
  String.ofList (v.pretty 0)

end SuffixLint.Json
