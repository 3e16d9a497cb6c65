/-!
# Severities

How much a finding matters: five grades, from `info` up to `critical`.
-/

namespace SuffixLint

/-- The grade of a finding. -/
inductive Severity where
  | info
  | low
  | medium
  | high
  | critical
  deriving DecidableEq, Repr, Inhabited

namespace Severity

/-- The grades from the least to the greatest. -/
def all : List Severity :=
  [.info, .low, .medium, .high, .critical]

/-- The place of a grade among the grades. -/
def rank : Severity → Nat
  | .info => 0
  | .low => 1
  | .medium => 2
  | .high => 3
  | .critical => 4

instance : Ord Severity where
  compare := compareOn rank

instance : LE Severity :=
  leOfOrd

instance (a b : Severity) : Decidable (a ≤ b) :=
  inferInstanceAs (Decidable ((compare a b).isLE = true))

/-- The word for a grade. -/
def name : Severity → String
  | .info => "info"
  | .low => "low"
  | .medium => "medium"
  | .high => "high"
  | .critical => "critical"

instance : ToString Severity where
  toString := name

end Severity

/-- A word that names no severity. -/
structure UnknownSeverity where
  text : String
  deriving DecidableEq, Repr

/-- What is said of a word that names no severity. The options of the command line take no such
word, so it is said to callers of `Severity.ofText` only. -/
def UnknownSeverity.message (e : UnknownSeverity) : String :=
  "Unknown severity '" ++ e.text ++ "'. Valid values: info, low, medium, high, critical"

namespace Severity

/-- The severity that a word names, in whatever case it is written. The words are ASCII and no other
letter has one of theirs as its lower case, so folding ASCII is enough. -/
def ofText (word : String) : Except UnknownSeverity Severity :=
  match all.find? fun s => s.name.toList = word.toList.map Char.toLower with
  | some s => .ok s
  | none => .error ⟨word⟩

/-- The word for a severity names it. -/
theorem ofText_name (s : Severity) : ofText s.name = .ok s := by
  cases s <;> rfl

end Severity

end SuffixLint
