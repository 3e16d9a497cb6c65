import SuffixLint.Toml.Number
import SuffixLint.Toml.Table
/-!
# Values in a TOML text

A value is a string, a truth value, a number, a date, an array or a table between braces. An array
may run over several lines, with comments, and may have a comma behind its last item; a table
between braces stands on one line, apart from arrays and strings in it, and has no such comma.
-/

namespace SuffixLint.Toml

open Text

/-- The items of an array from here to its closing bracket, each read by `read`. -/
def arrayItems (read : Read Json) (cs : List Char) : Option (List Json × Rest cs) :=
  let start := skipFiller cs
  match start.next? with
  | none => none
  | some (']', r) => some ([], r)
  | some _ =>
    match read start.val with
    | none => none
    | some (v, r₁) =>
      match (skipFiller r₁.val).next? with
      | some (']', r₂) => some ([v], (start.rest r₁).rest r₂)
      | some (',', r₂) =>
        (arrayItems read r₂.val).map fun found =>
          (v :: found.1, ((start.rest r₁).rest r₂).rest found.2)
      | _ => none
termination_by cs.length
decreasing_by exact ((start.rest r₁).rest r₂).property

/-- A key, the equals sign and a value read by `read`. -/
def pair (read : Read Json) : Read ((List String × String) × Json) := fun cs =>
  match key cs with
  | none => none
  | some (k, r) =>
    match r.toTail.next? with
    | some ('=', r') =>
      let blanks := skipBlanks r'.val
      (read blanks.val).map fun found => ((k, found.1), (r'.tail blanks).rest found.2)
    | _ => none

/-- The pairs of a table between braces from here to its closing brace, with at least one pair. -/
def inlinePairs (read : Read Json) (cs : List Char) :
    Option (List ((List String × String) × Json) × Rest cs) :=
  match pair read cs with
  | none => none
  | some (p, r₁) =>
    match (skipBlanks r₁.val).next? with
    | some ('\x7d', r₂) => some ([p], r₁.rest r₂)
    | some (',', r₂) =>
      (inlinePairs read r₂.val).map fun found => (p :: found.1, (r₁.rest r₂).rest found.2)
    | _ => none
termination_by cs.length
decreasing_by exact (r₁.rest r₂).property

/-- A table between braces, whose opening brace has been read. -/
def inlineTable (read : Read Json) : Read Json := fun cs =>
  match (skipBlanks cs).next? with
  | some ('\x7d', r) => some (.object [], r)
  | _ => (inlinePairs read cs).bind fun found => (tableOf found.1).map fun v => (v, found.2)

/-- A value in which at most `depth` arrays and tables are open at one place. -/
def value (depth : Nat) : Read Json := fun cs =>
  match cs with
  | [] => none
  | c :: r =>
    if c = '"' ∨ c = '\'' then (string (c :: r)).map fun found => (.string found.1, found.2)
    else if c = '[' then
      match depth with
      | 0 => none
      | d + 1 => (arrayItems (value d) r).map fun found => (.array found.1, found.2.past)
    else if c = '\x7b' then
      match depth with
      | 0 => none
      | d + 1 => (inlineTable (value d) r).map fun found => (found.1, found.2.past)
    else if c = 't' then (word "rue".toList r).map fun t => (.bool true, t.past)
    else if c = 'f' then (word "alse".toList r).map fun t => (.bool false, t.past)
    else
      match date (c :: r) with
      | some found => some found
      | none => number (c :: r)

end SuffixLint.Toml
