import SuffixLint.Decimal.Binary64
/-!
# Documents

A document as a value: the members of an object keep their order and may repeat a key, since both
decide how the object is read as a record.
-/

namespace SuffixLint

/-- A number of a document. Whole numbers of at most 64 bits are exact, all others are doubles. -/
inductive Json.Number where
  | whole (value : Int)
  | double (value : Decimal.Binary64)
  deriving DecidableEq, Repr

/-- A document. -/
inductive Json where
  | null
  | bool (value : Bool)
  | number (value : Json.Number)
  | string (value : String)
  | array (items : List Json)
  | object (members : List (String × Json))
  deriving Repr, Inhabited

namespace Json

/-- A natural number as a document. -/
def nat (n : Nat) : Json :=
  .number (.whole n)

/-- A string as a document, and `null` in its absence. -/
def optionalString : Option String → Json
  | none => .null
  | some s => .string s

end Json

end SuffixLint
