/-!
# Log records

What a run notes while it works. Records are kept beside the value that the work gives, in the order
in which they were noted, and whoever starts the run decides which of them to show.
-/

namespace SuffixLint.Log

/-- How much a record matters, from `error` down to `trace`. -/
inductive Level where
  | error
  | warn
  | info
  | debug
  | trace
  deriving DecidableEq, Repr

namespace Level

/-- The levels from the one that matters most. -/
def all : List Level :=
  [.error, .warn, .info, .debug, .trace]

/-- How far a level is from the one that matters most, counted from one. -/
def rank : Level → Nat
  | .error => 1
  | .warn => 2
  | .info => 3
  | .debug => 4
  | .trace => 5

/-- The word for a level. -/
def name : Level → String
  | .error => "error"
  | .warn => "warn"
  | .info => "info"
  | .debug => "debug"
  | .trace => "trace"

/-- The level that a word names. -/
def ofName? (word : String) : Option Level :=
  all.find? fun l => l.name = word

end Level

/-- One note. -/
structure Record where
  level : Level
  text : String
  deriving DecidableEq, Repr

/-- The levels that are shown: those up to a level, or none. -/
abbrev Threshold := Option Level

/-- Whether a record is shown. -/
def Record.isShown (t : Threshold) (r : Record) : Bool :=
  t.any fun level => r.level.rank ≤ level.rank

/-- The threshold that the environment asks for: a level in any case, its number, or `off`. An empty
text asks for errors only, and any other word names no part of this program. -/
def Threshold.ofEnvironment (text : String) : Threshold :=
  let word := text.toList.map Char.toLower
  if word.isEmpty then some .error
  else Level.all.find? fun l => l.name.toList = word || (toString l.rank).toList = word

/-- A value with the records that were noted on the way to it. -/
structure Logged (α : Type) where
  value : α
  records : List Record := []

instance : Monad Logged where
  pure x := ⟨x, []⟩
  bind x f := ⟨(f x.value).value, x.records ++ (f x.value).records⟩

/-- Notes a text at a level. -/
def note (level : Level) (text : String) : Logged Unit :=
  ⟨(), [⟨level, text⟩]⟩

/-- Notes a text at a level if it matters at all. -/
def noteIf (condition : Bool) (level : Level) (text : String) : Logged Unit :=
  if condition then note level text else pure ()

namespace Logged

@[simp] theorem value_pure {α : Type} (x : α) : (pure x : Logged α).value = x := rfl

/-- A later step sees the value of an earlier one and none of its records. -/
@[simp] theorem value_bind {α β : Type} (x : Logged α) (f : α → Logged β) :
    (x >>= f).value = (f x.value).value := rfl

end Logged

end SuffixLint.Log
