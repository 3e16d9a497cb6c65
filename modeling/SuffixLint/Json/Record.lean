import SuffixLint.Json.Codec
/-!
# Records

A record is a document with named fields. It may be given as an object, whose members come in any
order and among which unknown ones are passed over, or as an array of its fields in order. A field
may be known by several keys, of which one object may use only one; a field of which nothing is said
takes its value for that case, if it has one.
-/

namespace SuffixLint

open Json Lexeme Text

/-- A field of a record. -/
structure Field (α : Type) where
  key : String
  /-- Further keys under which the field is understood. -/
  aliases : List String := []
  codec : Codec α
  /-- The value of the field when nothing is said of it; without one, it has to be given. -/
  absent : Option α := none
  /-- Whether a value is left out when the record is written. -/
  omits : α → Bool := fun _ => false

/-- Whether a key means a field. -/
def Field.knows {α : Type} (f : Field α) (key : String) : Bool :=
  f.key = key || f.aliases.contains key

/-- The fields of a record, in order. The first type holds the values of all fields, the second has
room for a value of each. -/
inductive Fields : Type → Type → Type 1 where
  | nil : Fields Unit Unit
  | cons {α β σ : Type} (field : Field α) (rest : Fields β σ) : Fields (α × β) (Option α × σ)

namespace Fields

/-- Room that nothing has been put into. -/
def empty : {β σ : Type} → Fields β σ → σ
  | _, _, .nil => ()
  | _, _, .cons _ fs => (none, fs.empty)

/-- The number of fields. -/
def size : {β σ : Type} → Fields β σ → Nat
  | _, _, .nil => 0
  | _, _, .cons _ fs => fs.size + 1

/-- Reads the value of the field that a key means, behind that key; nothing when no field is meant.
A field that has a value already is refused before its second value is looked at. -/
def offer : {β σ : Type} → Fields β σ → σ → String → (cs : List Char) →
    Option (Except Error (σ × Rest cs))
  | _, _, .nil, _, _, _ => none
  | _, _, .cons f fs, (slot, slots), key, cs =>
    if f.knows key then
      match slot with
      | some _ => some (.error (.duplicateField f.key))
      | none =>
        match colon cs with
        | .error e => some (.error e)
        | .ok r =>
          some ((f.codec.read r.val).map fun found => ((some found.1, slots), r.rest found.2))
    else
      (fs.offer slots key cs).map fun result =>
        result.map fun found => ((slot, found.1), found.2)

/-- The values of the fields, once all that is said of them is known. -/
def finish : {β σ : Type} → Fields β σ → σ → Except Error β
  | _, _, .nil, _ => .ok ()
  | _, _, .cons f fs, (slot, slots) =>
    match slot.or f.absent with
    | none => .error (.missingField f.key)
    | some x => (fs.finish slots).map fun xs => (x, xs)

/-- What stands behind the key of a member that no field knows: it is passed over. -/
def skipMember (cs : List Char) : Except Error (Rest cs) :=
  match colon cs with
  | .error e => .error e
  | .ok r => (skip r.val).map r.rest

/-- Reads the members of an object from here to its closing brace into the room for the fields. -/
def fill {β σ : Type} (fs : Fields β σ) (slots : σ) (first : Bool) (cs : List Char) :
    Except Error (σ × Rest cs) :=
  match nextMember first cs with
  | .error e => .error e
  | .ok (.done r) => .ok (slots, r)
  | .ok (.member key r) =>
    match fs.offer slots key r.val with
    | some (.error e) => .error e
    | some (.ok (slots', r')) =>
      (fs.fill slots' false r'.val).map fun found => (found.1, (r.rest r').rest found.2)
    | none =>
      match skipMember r.val with
      | .error e => .error e
      | .ok r' =>
        (fs.fill slots false r'.val).map fun found => (found.1, (r.rest r').rest found.2)
termination_by cs.length
decreasing_by all_goals exact (r.rest r').property

/-- The values of fields of which nothing is said, when an array ends before the one at `index`. -/
def rest (wanted : String) : {β σ : Type} → Fields β σ → Nat → Except Error β
  | _, _, .nil, _ => .ok ()
  | _, _, .cons f fs, index =>
    match f.absent with
    | none => .error (.invalidLength index wanted)
    | some x => (fs.rest wanted (index + 1)).map fun xs => (x, xs)

/-- The closing bracket of an array whose fields have all been read. -/
def close (cs : List Char) : Except Error (Rest cs) :=
  match next cs with
  | none => .error .endInList
  | some (c, r) =>
    if c = ']' then .ok r
    else if c = ',' then
      match next r.val with
      | some (']', _) => .error .trailingComma
      | _ => .error .trailingCharacters
    else .error .trailingCharacters

/-- Reads the items of an array from here to its closing bracket as the fields in order. -/
def readInOrder (wanted : String) : {β σ : Type} → Fields β σ → Nat → Bool →
    (cs : List Char) → Except Error (β × Rest cs)
  | _, _, .nil, _, _, cs => (close cs).map fun r => ((), r)
  | _, _, .cons f fs, index, first, cs =>
    match nextItem first cs with
    | .error e => .error e
    | .ok (.done r) => ((cons f fs).rest wanted index).map fun xs => (xs, r)
    | .ok (.item t) =>
      match f.codec.read t.val with
      | .error e => .error e
      | .ok (x, r) =>
        (fs.readInOrder wanted (index + 1) false r.val).map fun found =>
          ((x, found.1), (t.rest r).rest found.2)

/-- The values of the fields among the members of an object. -/
def ofMembers (s : Surplus) : {β σ : Type} → Fields β σ → List (String × Json) → Option β
  | _, _, .nil, _ => some ()
  | _, _, .cons f fs, members => do
    let x ← match members.filter fun m => f.knows m.1 with
      | [] => f.absent
      | [m] => f.codec.decode s m.2
      | _ => none
    let xs ← fs.ofMembers s members
    return (x, xs)

/-- The values of the fields as the items of an array in order. -/
def ofItems (s : Surplus) : {β σ : Type} → Fields β σ → List Json → Option β
  | _, _, .nil, items => if items.isEmpty || s = .ignored then some () else none
  | _, _, .cons f fs, [] => do
    let x ← f.absent
    let xs ← fs.ofItems s []
    return (x, xs)
  | _, _, .cons f fs, v :: vs => do
    let x ← f.codec.decode s v
    let xs ← fs.ofItems s vs
    return (x, xs)

/-- The fields as the members of an object. -/
def toMembers : {β σ : Type} → Fields β σ → β → List (String × Json)
  | _, _, .nil, _ => []
  | _, _, .cons f fs, (x, xs) =>
    if f.omits x then fs.toMembers xs else (f.key, f.codec.encode x) :: fs.toMembers xs

end Fields

/-- Records with the given fields; `title` names the kind of record in errors. -/
def Codec.record {β σ : Type} (title : String) (fs : Fields β σ) : Codec β where
  read cs :=
    match next cs with
    | none => .error .endInValue
    | some (c, r) =>
      if c = '[' then
        let wanted := "struct " ++ title ++ " with " ++ toString fs.size ++ " elements"
        (fs.readInOrder wanted 0 true r.val).map fun found => (found.1, r.rest found.2)
      else if c = '{' then
        match fs.fill fs.empty true r.val with
        | .error e => .error e
        | .ok (slots, r') => (fs.finish slots).map fun xs => (xs, r.rest r')
      else .error (unexpected ("struct " ++ title) c r.val)
  decode
    | s, .object members => fs.ofMembers s members
    | s, .array items => fs.ofItems s items
    | _, _ => none
  encode xs := .object (fs.toMembers xs)

end SuffixLint
