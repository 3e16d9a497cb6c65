import SuffixLint.Text.Search
/-!
# The suffix convention

An asynchronous declaration has a name that ends in the token `Async`. A name is judged by where
the token stands in it, and each way to break the convention has one correction: append the token,
respell it at the end, or move it there. Declarations that are not asynchronous are never judged.
-/

namespace SuffixLint

namespace Convention

/-- The token that the name of an asynchronous declaration ends in. -/
def token : String := "Async"

/-- The one misspelling of the token that is recognised. -/
def misspelledToken : String := "Asycn"

/-- The identifier under which every violation is reported. -/
def diagnosticId : String := "AsyncConvention"

/-- The title of the diagnostic. -/
def title : String := "Wrong async name convention"

/-- The category of the diagnostic. -/
def category : String := "Usage"

end Convention

/-- How a name stands to the convention. -/
inductive Verdict where
  /-- The name needs no correction. -/
  | compliant
  /-- The token is missing from the name. -/
  | missingSuffix
  /-- The name ends in the misspelled token. -/
  | misspelledSuffix
  /-- The token stands in the name, but not at its end. -/
  | misplacedSuffix
  deriving DecidableEq, Repr, Inhabited

namespace Verdict

open Convention Text

/-- The verdict on the name of an asynchronous declaration. The end of the name decides first, so a
name that ends in the token is compliant wherever else the token stands. -/
def ofAsyncName (name : List Char) : Verdict :=
  if token.toList.isSuffixOf name then .compliant
  else if misspelledToken.toList.isSuffixOf name then .misspelledSuffix
  else if occurs token.toList name then .misplacedSuffix
  else .missingSuffix

/-- The verdict on a declaration, by whether it is asynchronous and what it is called. -/
def classify (isAsync : Bool) (name : String) : Verdict :=
  if isAsync then ofAsyncName name.toList else .compliant

/-- The ways to break the convention, in the order in which they are decided. -/
def violations : List Verdict :=
  [.misspelledSuffix, .misplacedSuffix, .missingSuffix]

/-- Whether a name needs no correction. -/
def isCompliant (v : Verdict) : Bool :=
  v = .compliant

/-- The stable code of a verdict. -/
def code : Verdict → String
  | .compliant => "compliant"
  | .missingSuffix => "missing-suffix"
  | .misspelledSuffix => "misspelled-suffix"
  | .misplacedSuffix => "misplaced-suffix"

/-- The name of a verdict as a rule. -/
def ruleName : Verdict → String
  | .compliant => "Compliant"
  | .missingSuffix => "MissingSuffix"
  | .misspelledSuffix => "MisspelledSuffix"
  | .misplacedSuffix => "MisplacedSuffix"

/-- The identifier of a verdict as a rule of the diagnostic. -/
def ruleId (v : Verdict) : String :=
  diagnosticId ++ "/" ++ v.code

/-- What is wrong with a name. -/
def message? : Verdict → Option String
  | .compliant => none
  | .missingSuffix => some "\"Async\" postfix is absent"
  | .misspelledSuffix => some "Wrong \"Async\" postfix"
  | .misplacedSuffix => some "Wrong position of the \"Async\" postfix"

/-- The short title of the correction. -/
def fixTitle? : Verdict → Option String
  | .compliant => none
  | .missingSuffix => some "Add \"Async\" postfix"
  | .misspelledSuffix => some "Replace to \"Async\""
  | .misplacedSuffix => some "Move \"Async\" to the end of the method name"

/-- What the correction does. -/
def fixDescription? : Verdict → Option String
  | .compliant => none
  | .missingSuffix => some "Append `Async` to the end of the name"
  | .misspelledSuffix => some "Replace the trailing misspelled token with `Async`"
  | .misplacedSuffix => some "Move the `Async` token to the end of the name"

/-- The text without a word at its end; all of it when the word does not stand there. -/
def dropEnd (word name : List Char) : List Char :=
  if word.isSuffixOf name then name.take (name.length - word.length) else name

/-- The part of a name that its correction keeps before the token. -/
def stem : Verdict → List Char → List Char
  | .misspelledSuffix, name => dropEnd misspelledToken.toList name
  | .misplacedSuffix, name => eraseAll token.toList name
  | _, name => name

/-- The name that the correction proposes. -/
def suggestedName? (v : Verdict) (name : String) : Option String :=
  if v.isCompliant then none
  else some (String.ofList (v.stem name.toList ++ token.toList))

end Verdict

end SuffixLint
