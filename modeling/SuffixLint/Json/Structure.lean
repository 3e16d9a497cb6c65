import SuffixLint.Json.Number
/-!
# Arrays, objects and whole documents

The steps from one item of an array or one member of an object to the next, and the reading of a
whole document into memory. A document that is read so is looked at closely everywhere: its numbers
are in range, its strings are texts, and at most 127 brackets stand open at any place of it.
-/

namespace SuffixLint.Json

open Lexeme Text

/-- Where an array goes on: behind its closing bracket, or at an item. -/
inductive ItemStep (cs : List Char) where
  | done (rest : Rest cs)
  | item (rest : Tail cs)

/-- Where an object goes on: behind its closing brace, or behind the key of a member. -/
inductive MemberStep (cs : List Char) where
  | done (rest : Rest cs)
  | member (key : String) (rest : Rest cs)

/-- The step to the next item of an array. Behind an item a comma or the end is due, and behind a
comma an item. -/
def nextItem (first : Bool) (cs : List Char) : Except Error (ItemStep cs) :=
  match next cs with
  | none => .error .endInList
  | some (c, r) =>
    if c = ']' then .ok (.done r)
    else if first then .ok (.item (unread cs))
    else if c = ',' then
      match next r.val with
      | none => .error .endInValue
      | some (d, _) =>
        if d = ']' then .error .trailingComma else .ok (.item r.toTail)
    else .error .expectedListCommaOrEnd

/-- The key of a member, whose opening quote has been read. -/
def memberKey {cs : List Char} (r : Rest cs) : Except Error (MemberStep cs) :=
  (Lexeme.string r.val).map fun found => .member found.1 (r.rest found.2)

/-- The step to the next member of an object and over its key. -/
def nextMember (first : Bool) (cs : List Char) : Except Error (MemberStep cs) :=
  match next cs with
  | none => .error .endInObject
  | some (c, r) =>
    if c = '}' then .ok (.done r)
    else if first then
      if c = '"' then memberKey r else .error .keyNotString
    else if c = ',' then
      match next r.val with
      | none => .error .endInValue
      | some (d, r') =>
        if d = '"' then memberKey (r.rest r')
        else if d = '}' then .error .trailingComma
        else .error .keyNotString
    else .error .expectedObjectCommaOrEnd

/-- The colon between a key and its value. -/
def colon (cs : List Char) : Except Error (Rest cs) :=
  match next cs with
  | none => .error .endInObject
  | some (c, r) => if c = ':' then .ok r else .error .expectedColon

/-- The items of an array from here to its closing bracket, each read by `read`. -/
def items {α : Type} (read : Read α) (first : Bool) (cs : List Char) :
    Except Error (List α × Rest cs) :=
  match nextItem first cs with
  | .error e => .error e
  | .ok (.done r) => .ok ([], r)
  | .ok (.item t) =>
    match read t.val with
    | .error e => .error e
    | .ok (x, r) =>
      match items read false r.val with
      | .error e => .error e
      | .ok (xs, r') => .ok (x :: xs, (t.rest r).rest r')
termination_by cs.length
decreasing_by exact (t.rest r).property

/-- The members of an object from here to its closing brace, their values read by `read`. -/
def members {α : Type} (read : Read α) (first : Bool) (cs : List Char) :
    Except Error (List (String × α) × Rest cs) :=
  match nextMember first cs with
  | .error e => .error e
  | .ok (.done r) => .ok ([], r)
  | .ok (.member key r₁) =>
    match colon r₁.val with
    | .error e => .error e
    | .ok r₂ =>
      match read r₂.val with
      | .error e => .error e
      | .ok (x, r₃) =>
        match members read false r₃.val with
        | .error e => .error e
        | .ok (xs, r₄) => .ok ((key, x) :: xs, ((r₁.rest r₂).rest r₃).rest r₄)
termination_by cs.length
decreasing_by exact ((r₁.rest r₂).rest r₃).property

/-- A literal word or a number, whose first character has been read. -/
def scalar (c : Char) (cs : List Char) : Except Error (Json × Tail cs) :=
  if c = 'n' then (word "ull".toList cs).map fun t => (.null, t)
  else if c = 't' then (word "rue".toList cs).map fun t => (.bool true, t)
  else if c = 'f' then (word "alse".toList cs).map fun t => (.bool false, t)
  else if startsNumber c then (Lexeme.number c cs).map fun found => (.number found.1, found.2)
  else .error .expectedValue

/-- A document in which at most `depth` brackets stand open at any place. -/
def read (depth : Nat) (cs : List Char) : Except Error (Json × Rest cs) :=
  match next cs with
  | none => .error .endInValue
  | some (c, r) =>
    if c = '"' then
      (Lexeme.string r.val).map fun found => (.string found.1, r.rest found.2)
    else if c = '[' then
      match depth with
      | 0 => .error .recursionLimit
      | d + 1 =>
        (items (read d) true r.val).map fun found => (.array found.1, r.rest found.2)
    else if c = '{' then
      match depth with
      | 0 => .error .recursionLimit
      | d + 1 =>
        (members (read d) true r.val).map fun found => (.object found.1, r.rest found.2)
    else (scalar c r.val).map fun found => (found.1, r.tail found.2)

/-- How many brackets may stand open at one place of a document. -/
def depthLimit : Nat := 127

/-- Whether nothing but spaces is left of a text. -/
def atEnd (cs : List Char) : Bool :=
  cs.all isSpace

/-- The document that a whole text stands for. -/
def ofText (text : List Char) : Except Error Json :=
  match read depthLimit text with
  | .error e => .error e
  | .ok (v, r) => if atEnd r.val then .ok v else .error .trailingCharacters

end SuffixLint.Json
