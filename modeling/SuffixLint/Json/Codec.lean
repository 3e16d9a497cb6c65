import SuffixLint.Json.Skip
/-!
# Codecs

A codec ties a type to documents in three ways. It reads a value straight from a text, in one pass,
so that of two faults the one that comes first is reported; it decodes a document that has been read
before; and it encodes a value as a document. Codecs of larger types are put together from codecs of
their parts.
-/

namespace SuffixLint

open Json Lexeme Text

/-- What is done with items behind the last field of a record in array form. -/
inductive Surplus where
  | refused
  | ignored
  deriving DecidableEq, Repr

/-- How values of a type are read, decoded and written. -/
structure Codec (α : Type) where
  /-- Reads a value from the front of a text. -/
  read : Read α
  /-- The value that a document stands for. -/
  decode : Surplus → Json → Option α
  /-- The document that stands for a value. -/
  encode : α → Json

namespace Json

/-- What a document is found to be where something else is wanted. -/
def found : Json → Found
  | .null => .null
  | .bool b => .bool b
  | .number n => .number n
  | .string s => .string s
  | .array _ => .sequence
  | .object _ => .map

/-- The cause of refusal for a value whose first character has been read. The inside of an array or
an object is not looked at; any other value is, and a fault in it comes first. -/
def unexpected (wanted : String) (c : Char) (cs : List Char) : Error :=
  if c = '[' then .invalidType .sequence wanted
  else if c = '{' then .invalidType .map wanted
  else if c = '"' then
    match Lexeme.string cs with
    | .error e => e
    | .ok (s, _) => .invalidType (.string s) wanted
  else
    match scalar c cs with
    | .error e => e
    | .ok (v, _) => .invalidType v.found wanted

/-- Whether a document says nothing: it is `null` or holds no items. -/
def saysNothing : Json → Bool
  | .null => true
  | .array items => items.isEmpty
  | .object members => members.isEmpty
  | _ => false

end Json

namespace Codec

variable {α β : Type}

/-- The value that a whole text stands for. -/
def parse (c : Codec α) (text : List Char) : Except Error α :=
  match c.read text with
  | .error e => .error e
  | .ok (x, r) => if atEnd r.val then .ok x else .error .trailingCharacters

/-- A codec carried over to a type whose values stand for those of another. -/
def imap (c : Codec α) (f : α → β) (g : β → α) : Codec β where
  read cs := (c.read cs).map fun found => (f found.1, found.2)
  decode s v := (c.decode s v).map f
  encode y := c.encode (g y)

/-- Strings; `wanted` says in an error what was to stand there. -/
def stringAs (wanted : String) : Codec String where
  read cs :=
    match next cs with
    | none => .error .endInValue
    | some (c, r) =>
      if c = '"' then
        (Lexeme.string r.val).map fun found => (found.1, r.rest found.2)
      else .error (unexpected wanted c r.val)
  decode
    | _, .string s => some s
    | _, _ => none
  encode := .string

/-- Strings. -/
def string : Codec String :=
  stringAs "a string"

/-- Truth values. -/
def bool : Codec Bool where
  read cs :=
    match next cs with
    | none => .error .endInValue
    | some (c, r) =>
      if c = 't' then (word "rue".toList r.val).map fun t => (true, r.tail t)
      else if c = 'f' then (word "alse".toList r.val).map fun t => (false, r.tail t)
      else .error (unexpected "a boolean" c r.val)
  decode
    | _, .bool b => some b
    | _, _ => none
  encode := .bool

/-- The natural number below a bound that a number is. -/
def boundedNat (bound : Nat) (wanted : String) : Number → Except Error Nat
  | .whole i =>
    if 0 ≤ i ∧ i < bound then .ok i.toNat
    else .error (.invalidValue (.number (.whole i)) wanted)
  | .double x => .error (.invalidType (.number (.double x)) wanted)

/-- Natural numbers below a bound. -/
def natBelow (bound : Nat) (wanted : String) : Codec Nat where
  read cs :=
    match next cs with
    | none => .error .endInValue
    | some (c, r) =>
      if startsNumber c then
        match Lexeme.number c r.val with
        | .error e => .error e
        | .ok (n, t) => (boundedNat bound wanted n).map fun n => (n, r.tail t)
      else .error (unexpected wanted c r.val)
  decode
    | _, .number n => (boundedNat bound wanted n).toOption
    | _, _ => none
  encode := Json.nat

/-- Words of 32 bits. -/
def word32 : Codec UInt32 :=
  (natBelow UInt32.size "u32").imap UInt32.ofNat UInt32.toNat

/-- Counts, which fit 64 bits. -/
def count : Codec Nat :=
  natBelow UInt64.size "usize"

/-- Values that may be absent, which `null` says. -/
def option (c : Codec α) : Codec (Option α) where
  read cs :=
    match next cs with
    | none => (c.read cs).map fun found => (some found.1, found.2)
    | some (d, r) =>
      if d = 'n' then (word "ull".toList r.val).map fun t => (none, r.tail t)
      else (c.read cs).map fun found => (some found.1, found.2)
  decode
    | _, .null => some none
    | s, v => (c.decode s v).map some
  encode
    | none => .null
    | some x => c.encode x

/-- Lists. -/
def list (c : Codec α) : Codec (List α) where
  read cs :=
    match next cs with
    | none => .error .endInValue
    | some (d, r) =>
      if d = '[' then
        (items c.read true r.val).map fun found => (found.1, r.rest found.2)
      else .error (unexpected "a sequence" d r.val)
  decode
    | s, .array vs => vs.mapM (c.decode s)
    | _, _ => none
  encode xs := .array (xs.map c.encode)

/-! ## Words for the values of a type -/

/-- The value that a word names. -/
def chosen (all : List α) (name : α → String) (key : String) : Except Error α :=
  match all.find? fun x => name x = key with
  | some x => .ok x
  | none => .error (.unknownVariant key (all.map name))

/-- What says nothing behind the word of a value. -/
def unit (cs : List Char) : Except Error (Rest cs) :=
  match next cs with
  | none => .error .endInValue
  | some (c, r) =>
    if c = 'n' then (word "ull".toList r.val).map r.tail
    else .error (unexpected "unit" c r.val)

/-- A value that is given as an object of one member, whose brace has been read: the key names the
value, and what follows the colon says nothing. -/
def chosenMember (all : List α) (name : α → String) (cs : List Char) :
    Except Error (α × Rest cs) :=
  match next cs with
  | none => .error .endInValue
  | some (c, r) =>
    if c = '"' then
      match Lexeme.string r.val with
      | .error e => .error e
      | .ok (key, r₁) =>
        match chosen all name key with
        | .error e => .error e
        | .ok x =>
          match colon r₁.val with
          | .error e => .error e
          | .ok r₂ =>
            match unit r₂.val with
            | .error e => .error e
            | .ok r₃ =>
              match next r₃.val with
              | none => .error .endInObject
              | some (d, r₄) =>
                if d = '}' then .ok (x, (((r.rest r₁).rest r₂).rest r₃).rest r₄)
                else .error .expectedValue
    else .error (unexpected "variant identifier" c r.val)

/-- The values of a type of which each is named by a word. -/
def choice (all : List α) (name : α → String) : Codec α where
  read cs :=
    match next cs with
    | none => .error .endInValue
    | some (c, r) =>
      if c = '{' then
        (chosenMember all name r.val).map fun found => (found.1, r.rest found.2)
      else if c = '"' then
        match Lexeme.string r.val with
        | .error e => .error e
        | .ok (key, r') => (chosen all name key).map fun x => (x, r.rest r')
      else .error .expectedValue
  decode
    | _, .string key => (chosen all name key).toOption
    | _, .object [(key, v)] => if v.saysNothing then (chosen all name key).toOption else none
    | _, _ => none
  encode x := .string (name x)

end Codec

end SuffixLint
