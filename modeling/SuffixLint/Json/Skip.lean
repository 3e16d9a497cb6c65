import SuffixLint.Json.Structure
/-!
# Skipping a value

A value that nobody asks for is passed over without being kept. It has to be put together like a
document, but may be nested to any depth, and a comma before a closing bracket is met as a value or
a key that is missing.
-/

namespace SuffixLint.Json

open Lexeme Text

/-- The two kinds of brackets. -/
inductive Bracket where
  | list
  | object
  deriving DecidableEq, Repr

namespace Bracket

/-- The character that closes a bracket. -/
def closing : Bracket → Char
  | list => ']'
  | object => '}'

/-- The cause of refusal when a text ends inside a bracket. -/
def unfinished : Bracket → Error
  | list => .endInList
  | object => .endInObject

/-- The cause of refusal when neither a comma nor the closing character follows a value. -/
def expectedComma : Bracket → Error
  | list => .expectedListCommaOrEnd
  | object => .expectedObjectCommaOrEnd

end Bracket

/-- A key and its colon, which are only skipped. -/
def skipKey (cs : List Char) : Except Error (Rest cs) :=
  match next cs with
  | none => .error .endInObject
  | some (c, r) =>
    if c = '"' then
      match skipString r.val with
      | .error e => .error e
      | .ok r' => (colon r'.val).map (r.rest r').rest
    else .error .keyNotString

/-- What stands before a value inside a bracket: nothing in a list, a key in an object. -/
def skipLabel (b : Bracket) (cs : List Char) : Except Error (Tail cs) :=
  match b with
  | .list => .ok (unread cs)
  | .object => (skipKey cs).map Rest.toTail

/-- A literal word or a number that is only skipped, whose first character has been read. -/
def skipScalar (c : Char) (cs : List Char) : Except Error (Tail cs) :=
  if c = 'n' then word "ull".toList cs
  else if c = 't' then word "rue".toList cs
  else if c = 'f' then word "alse".toList cs
  else if startsNumber c then skipNumber c cs
  else .error .expectedValue

-- The three functions call each other on texts that may be of one length, so the measure has room
-- for their order. It is a number and not a pair, so that calls can be computed.
mutual

/-- What is left of a text behind the value at its front. -/
def skip (cs : List Char) : Except Error (Rest cs) :=
  match next cs with
  | none => .error .endInValue
  | some (c, r) =>
    if c = '"' then (skipString r.val).map r.rest
    else if c = '[' then (skipOpened .list r.val).map r.rest
    else if c = '{' then (skipOpened .object r.val).map r.rest
    else (skipScalar c r.val).map r.tail
termination_by 3 * cs.length
decreasing_by
  all_goals
    have := r.property
    omega

/-- What is left behind a bracket that has just been opened. -/
def skipOpened (b : Bracket) (cs : List Char) : Except Error (Rest cs) :=
  match next cs with
  | none => .error b.unfinished
  | some (c, r) => if c = b.closing then .ok r else skipFilled b cs
termination_by 3 * cs.length + 2

/-- What is left behind a bracket that has a value here. -/
def skipFilled (b : Bracket) (cs : List Char) : Except Error (Rest cs) :=
  match skipLabel b cs with
  | .error e => .error e
  | .ok t =>
    match skip t.val with
    | .error e => .error e
    | .ok r =>
      match next r.val with
      | none => .error b.unfinished
      | some (c, r') =>
        if c = ',' then (skipFilled b r'.val).map ((t.rest r).rest r').rest
        else if c = b.closing then .ok ((t.rest r).rest r')
        else .error b.expectedComma
termination_by 3 * cs.length + 1
decreasing_by
  · have := t.property
    omega
  · have := ((t.rest r).rest r').property
    omega

end

end SuffixLint.Json
