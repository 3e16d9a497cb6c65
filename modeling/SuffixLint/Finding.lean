import SuffixLint.Decimal.Digits
import SuffixLint.Declaration
import SuffixLint.Digest.Sha256
import SuffixLint.Severity
import SuffixLint.Verdict
/-!
# Findings

What is reported of a declaration whose name breaks the convention. A finding has an identifier that
does not change from run to run, so that it can be followed, and a place in the order of findings.
-/

namespace SuffixLint

/-- Severities as documents: the words for the grades. -/
def Severity.codec : Codec Severity :=
  Codec.choice all name

/-- Verdicts as documents: their codes. -/
def Verdict.codec : Codec Verdict :=
  Codec.choice [.compliant, .missingSuffix, .misspelledSuffix, .misplacedSuffix] code

/-- One report of a violation. -/
structure Finding where
  id : String := ""
  detector : String := ""
  severity : Severity := .info
  title : String := ""
  description : String := ""
  /-- The name that breaks the convention. -/
  name : String := ""
  /-- The code of the verdict. -/
  verdict : String := ""
  affectedFiles : List Path := []
  line : Option UInt32 := none
  suggestedFix : Option String := none
  suggestedName : Option String := none
  category : Option String := none
  deriving DecidableEq, Repr

namespace Finding

/-- The text from which the identifier of a finding is made. -/
def idText (detector file : String) (line : Nat) (name : String) : List Char :=
  detector.toList ++ '\n' :: file.toList ++ '\n' :: Decimal.digits line ++ '\n' :: name.toList

/-- The identifier of a finding: the first eight bytes of the SHA-256 digest of its text. -/
def idOf (detector file : String) (line : Nat) (name : String) : String :=
  let message := (String.ofList (idText detector file line name)).toUTF8.toList
  String.ofList (Sha256.hex ((Sha256.digest message).take 8))

/-- The fields of a finding, each of which may be left out. -/
def fields :=
  let text (key : String) : Field String := ⟨key, [], Codec.string, some "", fun _ => false⟩
  let note (key : String) : Field (Option String) :=
    ⟨key, [], Codec.string.option, some none, fun _ => false⟩
  Fields.cons (text "id") <|
  .cons (text "detector") <|
  .cons ⟨"severity", [], Severity.codec, some .info, fun _ => false⟩ <|
  .cons (text "title") <|
  .cons (text "description") <|
  .cons (text "name") <|
  .cons (text "verdict") <|
  .cons ⟨"affected_files", [], Declaration.pathCodec.list, some [], fun _ => false⟩ <|
  .cons ⟨"line_start", [], Codec.word32.option, some none, fun _ => false⟩ <|
  .cons (note "suggested_fix") <|
  .cons (note "suggested_name") <|
  .cons (note "category") .nil

/-- Findings as records. -/
def codec : Codec Finding :=
  (Codec.record "Finding" fields).imap
    (fun (id, detector, severity, title, description, name, verdict, affectedFiles, line,
        suggestedFix, suggestedName, category, _) =>
      ⟨id, detector, severity, title, description, name, verdict, affectedFiles, line,
        suggestedFix, suggestedName, category⟩)
    (fun f => (f.id, f.detector, f.severity, f.title, f.description, f.name, f.verdict,
      f.affectedFiles, f.line, f.suggestedFix, f.suggestedName, f.category, ()))

/-- The order of findings: by the first affected file, then by line, then by name. A finding without
a file comes before those with one, and one without a line before those with one. -/
def order (a b : Finding) : Ordering :=
  ((compare a.affectedFiles.head? b.affectedFiles.head?).then (compare a.line b.line)).then
    (compare a.name b.name)

end Finding

end SuffixLint
