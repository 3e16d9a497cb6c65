import SuffixLint.Decimal.Shortest
import SuffixLint.Json.Value
import SuffixLint.Text.Quoted
/-!
# Why a text is refused

The causes for which a text is no document, or a document is no value of the wanted type. The texts
of all causes are written in one place.
-/

namespace SuffixLint.Json

/-- What stands where something else is wanted. -/
inductive Found where
  | null
  | bool (value : Bool)
  | number (value : Number)
  | string (value : String)
  | sequence
  | map
  deriving DecidableEq, Repr

/-- A cause of refusal. -/
inductive Error where
  /-- The text ends where a value is due. -/
  | endInValue
  /-- The text ends inside a string. -/
  | endInString
  /-- The text ends inside an array. -/
  | endInList
  /-- The text ends inside an object. -/
  | endInObject
  | expectedColon
  | expectedListCommaOrEnd
  | expectedObjectCommaOrEnd
  | expectedValue
  /-- A literal begins like `null`, `true` or `false` and goes on otherwise. -/
  | expectedWord
  | keyNotString
  | invalidEscape
  | invalidNumber
  | numberOutOfRange
  /-- A surrogate stands where a scalar value or the first half of a pair is due. -/
  | loneSurrogate
  /-- The first half of a surrogate pair is not followed by an escape. -/
  | unpairedSurrogate
  | controlCharacter
  | trailingComma
  | trailingCharacters
  | recursionLimit
  /-- A value of another type than the wanted one. -/
  | invalidType (found : Found) (wanted : String)
  /-- A value of the wanted type that is out of its range. -/
  | invalidValue (found : Found) (wanted : String)
  /-- The array form of a record ends before a field that it has to hold. -/
  | invalidLength (length : Nat) (wanted : String)
  | missingField (key : String)
  | duplicateField (key : String)
  | unknownVariant (word : String) (known : List String)
  /-- A document is neither of the two forms in which declarations are listed. -/
  | noForm
  deriving DecidableEq, Repr

/-- How something that stands in the wrong place is named. -/
def Found.describe : Found → String
  | .null => "null"
  | .bool value => "boolean `" ++ (if value then "true" else "false") ++ "`"
  | .number (.whole value) => "integer `" ++ toString value ++ "`"
  | .number (.double value) => "floating point `" ++ String.ofList (Decimal.text value) ++ "`"
  | .string value => "string " ++ Text.quote value
  | .sequence => "sequence"
  | .map => "map"

/-- The text of a cause. -/
def Error.message : Error → String
  | .endInValue => "EOF while parsing a value"
  | .endInString => "EOF while parsing a string"
  | .endInList => "EOF while parsing a list"
  | .endInObject => "EOF while parsing an object"
  | .expectedColon => "expected `:`"
  | .expectedListCommaOrEnd => "expected `,` or `]`"
  | .expectedObjectCommaOrEnd => "expected `,` or `\x7d`"
  | .expectedValue => "expected value"
  | .expectedWord => "expected ident"
  | .keyNotString => "key must be a string"
  | .invalidEscape => "invalid escape"
  | .invalidNumber => "invalid number"
  | .numberOutOfRange => "number out of range"
  | .loneSurrogate => "lone leading surrogate in hex escape"
  | .unpairedSurrogate => "unexpected end of hex escape"
  | .controlCharacter => "control character (\\u0000-\\u001F) found while parsing a string"
  | .trailingComma => "trailing comma"
  | .trailingCharacters => "trailing characters"
  | .recursionLimit => "recursion limit exceeded"
  | .invalidType found wanted => "invalid type: " ++ found.describe ++ ", expected " ++ wanted
  | .invalidValue found wanted => "invalid value: " ++ found.describe ++ ", expected " ++ wanted
  | .invalidLength n wanted => "invalid length " ++ toString n ++ ", expected " ++ wanted
  | .missingField key => "missing field `" ++ key ++ "`"
  | .duplicateField key => "duplicate field `" ++ key ++ "`"
  | .unknownVariant word known =>
    "unknown variant `" ++ word ++ "`, expected one of "
      ++ String.intercalate ", " (known.map fun k => "`" ++ k ++ "`")
  | .noForm => "data did not match any variant of untagged enum DeclarationFile"

end SuffixLint.Json
