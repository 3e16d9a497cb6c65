import SuffixLint.Finding
/-!
# Reports

The outcome of inspecting a batch of declarations: the findings, how many there are of each
severity, and how many of the declarations are asynchronous and follow the convention.
-/

namespace SuffixLint

/-- How many findings there are of each severity. -/
structure Summary where
  critical : Nat := 0
  high : Nat := 0
  medium : Nat := 0
  low : Nat := 0
  info : Nat := 0
  total : Nat := 0
  deriving DecidableEq, Repr

namespace Summary

/-- The findings counted by severity. -/
def ofFindings (findings : List Finding) : Summary :=
  let count (s : Severity) := findings.countP fun f => f.severity = s
  ⟨count .critical, count .high, count .medium, count .low, count .info, findings.length⟩

/-- The count of one severity. -/
def count (s : Summary) : Severity → Nat
  | .critical => s.critical
  | .high => s.high
  | .medium => s.medium
  | .low => s.low
  | .info => s.info

/-- How many findings are at or above a severity. -/
def atLeast (s : Summary) (threshold : Severity) : Nat :=
  ((Severity.all.filter (threshold ≤ ·)).map s.count).foldl (· + ·) 0

/-- The fields of a summary, all of which have to be given. -/
def fields :=
  let count (key : String) : Field Nat := ⟨key, [], Codec.count, none, fun _ => false⟩
  Fields.cons (count "critical") <|
  .cons (count "high") <|
  .cons (count "medium") <|
  .cons (count "low") <|
  .cons (count "info") <|
  .cons (count "total") .nil

/-- Summaries as records. -/
def codec : Codec Summary :=
  (Codec.record "FindingsSummary" fields).imap
    (fun (critical, high, medium, low, info, total, _) =>
      ⟨critical, high, medium, low, info, total⟩)
    (fun s => (s.critical, s.high, s.medium, s.low, s.info, s.total, ()))

end Summary

/-- The outcome of inspecting declarations. -/
structure Report where
  findings : List Finding
  summary : Summary
  declarations : Nat
  asynchronous : Nat
  /-- How many asynchronous declarations follow the convention. -/
  compliant : Nat
  deriving DecidableEq, Repr

/-- The verdict on a declaration. -/
def Declaration.verdict (d : Declaration) : Verdict :=
  .classify d.isAsync d.name

namespace Report

/-- The report of findings among declarations. -/
def ofFindings (findings : List Finding) (declarations : List Declaration) : Report where
  findings := findings
  summary := .ofFindings findings
  declarations := declarations.length
  asynchronous := declarations.countP (·.isAsync)
  compliant := declarations.countP fun d => d.isAsync && d.verdict.isCompliant

/-- How many asynchronous declarations break the convention, by the counts of the report. -/
def unreported (r : Report) : Nat :=
  r.asynchronous - r.compliant

/-- The fields of a report. -/
def fields :=
  let count (key : String) : Field Nat := ⟨key, [], Codec.count, none, fun _ => false⟩
  Fields.cons ⟨"findings", [], Finding.codec.list, none, fun _ => false⟩ <|
  .cons ⟨"findings_summary", [], Summary.codec, none, fun _ => false⟩ <|
  .cons (count "total_declarations") <|
  .cons (count "async_declarations") <|
  .cons (count "compliant") .nil

/-- Reports as records. -/
def codec : Codec Report :=
  (Codec.record "ScanReport" fields).imap
    (fun (findings, summary, declarations, asynchronous, compliant, _) =>
      ⟨findings, summary, declarations, asynchronous, compliant⟩)
    (fun r => (r.findings, r.summary, r.declarations, r.asynchronous, r.compliant, ()))

end Report

end SuffixLint
