import SuffixLint.Proofs.Json.Codec
import SuffixLint.Proofs.Linter.Run
import SuffixLint.Report.Format
/-!
# What a SARIF log tells

Whoever is handed a log has a text and looks values up in it by their keys. That reading is defined
here on its own (`Sarif.Result.ofJson?`, `Sarif.results?`, `Sarif.declared?`): it knows the keys of
the format and nothing of how the log was put together. From the text of any log it takes one result
for each finding, in their order, with what the finding says (`results?_log`), and in a log of the
standard linter each result goes by a rule that the log declares just once
(`sarif_tells_each_finding`).
-/

namespace SuffixLint

open Json

/-! ## Looking values up -/

namespace Json

variable {α : Type}

/-- The value of the first member of a key. -/
def member? (key : String) : Json → Option Json
  | .object members => members.lookup key
  | _ => none

/-- The items of an array. -/
def items? : Json → Option (List Json)
  | .array items => some items
  | _ => none

/-- The text of a string. -/
def string? : Json → Option String
  | .string s => some s
  | _ => none

/-- The value of a natural number. -/
def nat? : Json → Option Nat
  | .number (.whole (.ofNat n)) => some n
  | _ => none

/-- What stands under a member that may be absent. A member that is there has to be readable. -/
def maybe (key : String) (read : Json → Option α) (v : Json) : Option (Option α) :=
  match v.member? key with
  | none => some none
  | some w => (read w).map some

/-- What stands in a list under a member; an absent member stands for no items. -/
def listOf (key : String) (read : Json → Option α) (v : Json) : Option (List α) :=
  match v.member? key with
  | none => some []
  | some w => w.items?.bind fun items => items.mapM read

end Json

namespace Report.Sarif

/-! ## Reading a log -/

/-- What a log tells in a result. -/
structure Result where
  ruleId : String
  message : String
  fingerprint : String
  severity : String
  verdict : String
  name : String
  suggestedName : Option String
  /-- The files, each with the line in it if one is given. -/
  locations : List (String × Option Nat)
  /-- The descriptions of the corrections. -/
  fixes : List String
  deriving DecidableEq, Repr

/-- The text of a message. -/
def text? (v : Json) : Option String :=
  (v.member? "text").bind string?

/-- The file of a location and its line. -/
def location? (v : Json) : Option (String × Option Nat) := do
  let place ← v.member? "physicalLocation"
  let file ← place.member? "artifactLocation"
  let uri ← (← file.member? "uri").string?
  let line ← place.maybe "region" fun region => (region.member? "startLine").bind nat?
  return (uri, line)

/-- The description of a correction. -/
def fix? (v : Json) : Option String :=
  (v.member? "description").bind text?

/-- The result that stands in a document. -/
def Result.ofJson? (v : Json) : Option Result := do
  let ruleId ← (← v.member? "ruleId").string?
  let message ← text? (← v.member? "message")
  let fingerprint ← (← (← v.member? "partialFingerprints").member? "asyncNaming/v1").string?
  let properties ← v.member? "properties"
  let severity ← (← properties.member? "severity").string?
  let verdict ← (← properties.member? "verdict").string?
  let name ← (← properties.member? "name").string?
  let suggestedName ← properties.maybe "suggestedName" string?
  let locations ← v.listOf "locations" location?
  let fixes ← v.listOf "fixes" fix?
  return { ruleId, message, fingerprint, severity, verdict, name, suggestedName, locations, fixes }

/-- The first run of a log. -/
def run? (v : Json) : Option Json :=
  (v.member? "runs").bind fun runs => runs.items?.bind List.head?

/-- The results of the first run of a log. -/
def results? (v : Json) : Option (List Result) := do
  let results ← (← run? v).member? "results"
  (← results.items?).mapM Result.ofJson?

/-- The identifiers of the rules that the first run of a log declares. -/
def declared? (v : Json) : Option (List String) := do
  let driver ← (← (← run? v).member? "tool").member? "driver"
  let rules ← driver.member? "rules"
  (← rules.items?).mapM fun rule => (rule.member? "id").bind string?

/-- The result that is to be read for a finding. -/
def Result.ofFinding (f : Finding) : Result where
  ruleId := ruleIdOf f
  message := f.title
  fingerprint := f.id
  severity := f.severity.name
  verdict := f.verdict
  name := f.name
  suggestedName := f.suggestedName
  locations := f.affectedFiles.map fun p =>
    (p.text.map fun c => if c = '\\' then '/' else c, f.line.map UInt32.toNat)
  fixes := f.suggestedFix.toList

/-! ## What is read from a log -/

/-- Writing slashes for backslashes goes character by character. -/
theorem uri_eq_map (p : Path) : uri p = p.text.map fun c => if c = '\\' then '/' else c := by
  rw [uri, ← String.toList_map, String.ofList_toList]

theorem location?_location (line : Option UInt32) (p : Path) : location? (location line p) =
    some (p.text.map fun c => if c = '\\' then '/' else c, line.map UInt32.toNat) := by
  rw [← uri_eq_map]
  cases line with
  | none => rfl
  | some n => rfl

theorem lookup_unlessEmpty_of_ne {key key' : String} (h : (key' == key) = false)
    (items : List Json) : (unlessEmpty key items).lookup key' = none := by
  unfold unlessEmpty
  split
  · rfl
  · rw [List.lookup_cons, h]
    rfl

/-- A list that is left out when it is empty is read as it was written, wherever it stands. -/
theorem listOf_unlessEmpty {α β : Type} {read : Json → Option β} {write : α → Json} {f : α → β}
    (h : ∀ x, read (write x) = some (f x)) {key : String} {before behind : List (String × Json)}
    (hbefore : before.lookup key = none) (hbehind : behind.lookup key = none) (xs : List α) :
    (object (before ++ unlessEmpty key (xs.map write) ++ behind)).listOf key read =
      some (xs.map f) := by
  have hmember : (object (before ++ unlessEmpty key (xs.map write) ++ behind)).member? key =
      (unlessEmpty key (xs.map write)).lookup key := by
    rw [member?, List.lookup_append, List.lookup_append, hbefore, hbehind, Option.none_or,
      Option.or_none]
  rw [listOf, hmember]
  cases xs with
  | nil => rfl
  | cons x xs =>
    have hlisted : (unlessEmpty key ((x :: xs).map write)).lookup key =
        some (.array ((x :: xs).map write)) := List.lookup_cons_self
    rw [hlisted]
    exact Codec.mapM_map_eq_some fun x _ => h x

theorem locations_result (f : Finding) :
    (result f).listOf "locations" location? = some (Result.ofFinding f).locations := by
  unfold result
  rw [List.append_assoc _ [("partialFingerprints", _), _]]
  refine listOf_unlessEmpty (location?_location f.line) (by rfl) ?_ f.affectedFiles
  rw [List.lookup_append, lookup_unlessEmpty_of_ne (by decide)]
  rfl

theorem fixes_result (f : Finding) :
    (result f).listOf "fixes" fix? = some f.suggestedFix.toList := by
  have hread : ∀ fix, fix? (.object [("description", message fix)]) = some (id fix) := fun _ => rfl
  unfold result fixes
  rw [← List.append_nil (_ ++ unlessEmpty "fixes" _)]
  refine (listOf_unlessEmpty hread ?_ List.lookup_nil f.suggestedFix.toList).trans ?_
  · rw [List.lookup_append, List.lookup_append, lookup_unlessEmpty_of_ne (by decide)]
    rfl
  · rw [List.map_id]

/-- Of a result everything is read that its finding says. -/
theorem ofJson?_result (f : Finding) : Result.ofJson? (result f) = some (.ofFinding f) := by
  have hruleId : (result f).member? "ruleId" = some (.string (ruleIdOf f)) := rfl
  have hmessage : (result f).member? "message" = some (message f.title) := rfl
  have hproperties : (result f).member? "properties" = some (properties f) := by
    unfold result
    cases f.affectedFiles <;> rfl
  have hfingerprint : (result f).member? "partialFingerprints" =
      some (.object [("asyncNaming/v1", .string f.id)]) := by
    unfold result
    cases f.affectedFiles <;> rfl
  have hsuggested : (properties f).maybe "suggestedName" string? = some f.suggestedName := by
    unfold properties
    cases f.suggestedName <;> rfl
  simp only [Result.ofJson?, hruleId, hmessage, hproperties, hfingerprint, hsuggested,
    locations_result, fixes_result, Option.bind_eq_bind, Option.bind_some]
  rfl

/-! ## The text of a log -/

section Readable

variable {depth : Nat} {ms : List (String × Json)}

theorem readable_nil : ∀ m ∈ ([] : List (String × Json)), Readable depth m.2 :=
  nofun

theorem readable_cons {key : String} {v : Json} (hv : Readable depth v)
    (hms : ∀ m ∈ ms, Readable depth m.2) : ∀ m ∈ (key, v) :: ms, Readable depth m.2 :=
  List.forall_mem_cons.mpr ⟨hv, hms⟩

theorem readable_unlessEmpty {key : String} {vs : List Json} (h : ∀ v ∈ vs, Readable depth v) :
    ∀ m ∈ unlessEmpty key vs, Readable (depth + 1) m.2 := by
  unfold unlessEmpty
  split
  · exact readable_nil
  · exact readable_cons (.array h) readable_nil

theorem readable_message (text : String) : Readable (depth + 1) (message text) :=
  .object (readable_cons (.string text) readable_nil)

theorem readable_rule (v : Verdict) : Readable (depth + 3) (rule v) := by
  have hlevel : Readable (depth + 2) (.object [("level", .string (level .info))]) :=
    .object (readable_cons (.string _) readable_nil)
  have htags : Readable (depth + 1) (.array [.string "naming", .string "async"]) := by
    refine .array fun w hw => ?_
    rcases List.mem_pair.mp hw with rfl | rfl <;> exact .string _
  have hproperties : Readable (depth + 2) (.object [("category", .string Convention.category),
      ("tags", .array [.string "naming", .string "async"])]) :=
    .object (readable_cons (.string _) (readable_cons htags readable_nil))
  exact .object (readable_cons (.string _) (readable_cons (.string _)
    (readable_cons (readable_message _) (readable_cons (readable_message _)
      (readable_cons (readable_message _) (readable_cons hlevel
        (readable_cons hproperties readable_nil)))))))

theorem readable_location (line : Option UInt32) (p : Path) :
    Readable (depth + 3) (location line p) := by
  have hfile : Readable (depth + 1) (.object [("uri", .string (uri p)),
      ("uriBaseId", .string "%SRCROOT%")]) :=
    .object (readable_cons (.string _) (readable_cons (.string _) readable_nil))
  have hregion : ∀ m ∈ region line, Readable (depth + 1) m.2 := by
    cases line with
    | none => exact readable_nil
    | some n =>
      have hline : n.toNat < UInt64.size := Nat.lt_trans n.toNat_lt_size (by decide)
      exact readable_cons (.object (readable_cons (.nat hline) readable_nil)) readable_nil
  exact .object (readable_cons (.object (readable_cons hfile hregion)) readable_nil)

theorem readable_properties (f : Finding) : Readable (depth + 1) (properties f) := by
  have hsuggested : ∀ m ∈ f.suggestedName.toList.map fun name => ("suggestedName", Json.string name),
      Readable depth m.2 := by
    cases f.suggestedName with
    | none => exact readable_nil
    | some name => exact readable_cons (.string name) readable_nil
  exact .object (readable_cons (.string _) (readable_cons (.string _)
    (readable_cons (.string _) hsuggested)))

theorem readable_result (f : Finding) : Readable (depth + 5) (result f) := by
  have hlocations : ∀ v ∈ f.affectedFiles.map (location f.line), Readable (depth + 3) v := by
    intro v hv
    obtain ⟨p, -, rfl⟩ := List.mem_map.mp hv
    exact readable_location f.line p
  have hfixes : ∀ v ∈ fixes f, Readable (depth + 3) v := by
    intro v hv
    obtain ⟨fix, -, rfl⟩ := List.mem_map.mp hv
    exact .object (readable_cons (readable_message fix) readable_nil)
  have hfingerprint : Readable (depth + 4) (.object [("asyncNaming/v1", .string f.id)]) :=
    .object (readable_cons (.string f.id) readable_nil)
  unfold result
  refine .object ?_
  -- what comes before the files, the files, what comes behind them, the corrections
  simp only [List.forall_mem_append]
  refine ⟨⟨⟨?_, readable_unlessEmpty hlocations⟩, ?_⟩, readable_unlessEmpty hfixes⟩
  · exact readable_cons (.string _) (readable_cons (.string _)
      (readable_cons (readable_message f.title) readable_nil))
  · exact readable_cons hfingerprint (readable_cons (readable_properties f) readable_nil)

/-- A log is nested nine levels deep, and its numbers are lines. -/
theorem readable_log (time : String) (fs : List Finding) :
    Readable (depth + 9) (log time fs) := by
  have hrules : ∀ v ∈ Verdict.violations.map rule, Readable (depth + 3) v := by
    intro v hv
    obtain ⟨verdict, -, rfl⟩ := List.mem_map.mp hv
    exact readable_rule verdict
  have htool : Readable (depth + 6) (.object [("driver", .object [
      ("name", .string programName),
      ("version", .string programVersion),
      ("rules", .array (Verdict.violations.map rule))])]) :=
    .object (readable_cons (.object (readable_cons (.string _) (readable_cons (.string _)
      (readable_cons (.array hrules) readable_nil)))) readable_nil)
  have hresults : ∀ v ∈ fs.map result, Readable (depth + 5) v := by
    intro v hv
    obtain ⟨f, -, rfl⟩ := List.mem_map.mp hv
    exact readable_result f
  have hinvocation : Readable (depth + 5) (.object [
      ("executionSuccessful", .bool true), ("endTimeUtc", .string time)]) :=
    .object (readable_cons (.bool true) (readable_cons (.string time) readable_nil))
  refine .object (readable_cons (.string _) (readable_cons (.string _)
    (readable_cons (.array (List.forall_mem_singleton.mpr (.object ?_))) readable_nil)))
  exact readable_cons htool (readable_cons (.array hresults)
    (readable_cons (.array (List.forall_mem_singleton.mpr hinvocation)) readable_nil))

end Readable

/-! ## All results of a log -/

/-- The text of a log stands for the log. -/
theorem ofText_render_sarif (r : Report) (time : String) :
    Json.ofText (r.render time .sarif).toList = .ok (log time r.findings) := by
  have htext : (r.render time .sarif).toList = (log time r.findings).pretty 0 :=
    String.toList_ofList
  rw [htext, pretty_eq_render]
  exact Json.ofText_render (readable_log time r.findings) .lines 0

theorem results?_log (time : String) (fs : List Finding) :
    results? (log time fs) = some (fs.map .ofFinding) :=
  Codec.mapM_map_eq_some fun f _ => ofJson?_result f

theorem declared?_log (time : String) (fs : List Finding) :
    declared? (log time fs) = some (Verdict.violations.map Verdict.ruleId) :=
  Codec.mapM_map_eq_some fun _ _ => rfl

/-- The rule of a verdict that breaks the convention is declared, and only once. -/
theorem count_ruleId {v : Verdict} (h : v.isCompliant = false) :
    (Verdict.violations.map Verdict.ruleId).count v.ruleId = 1 := by
  cases v with
  | compliant => cases h
  | missingSuffix => decide
  | misspelledSuffix => decide
  | misplacedSuffix => decide

/-- The rule of a finding is that of its verdict. -/
theorem ruleIdOf_ofDue {o : Severity × Declaration} (h : o.2.verdict.isCompliant = false) :
    ruleIdOf (.ofDue o) = o.2.verdict.ruleId := by
  have hverdict : (Finding.ofDue o).verdict = o.2.verdict.code := rfl
  rw [ruleIdOf, hverdict]
  cases hv : o.2.verdict with
  | compliant =>
    rw [hv] at h
    cases h
  | missingSuffix => rfl
  | misspelledSuffix => rfl
  | misplacedSuffix => rfl

/-- **A SARIF log tells of each finding.** From the text of a report, whatever stands in it, one
result is read for each finding, in their order, with all that the finding says. In the log of what
the standard linter finds, each result goes by the code of the finding's verdict, and the log
declares the rule of that name just once. -/
theorem sarif_tells_each_finding :
    (∀ (r : Report) (time : String), ∃ v, Json.ofText (r.render time .sarif).toList = .ok v ∧
      results? v = some (r.findings.map .ofFinding)) ∧
    ∀ (s : Settings) (ds : List Declaration) (time : String),
      let found := ((Linter.standard s).value.run ds).value
      ∃ v results rules,
        Json.ofText ((Report.ofFindings found ds).render time .sarif).toList = .ok v ∧
          results? v = some results ∧ declared? v = some rules ∧
            List.Forall₂ (fun f result => result.ruleId = "AsyncConvention/" ++ f.verdict ∧
              rules.count result.ruleId = 1) found results := by
  refine ⟨fun r time => ⟨_, ofText_render_sarif r time, results?_log time r.findings⟩, ?_⟩
  intro s ds time found
  refine ⟨_, _, _, ofText_render_sarif (Report.ofFindings found ds) time, results?_log time found,
    declared?_log time found, ?_⟩
  rw [List.forall₂_map_right_iff, List.forall₂_same]
  intro f hf
  obtain ⟨d, -, hreports, rfl⟩ := Linter.mem_run_standard.mp hf
  obtain ⟨-, hverdict⟩ := Linter.of_reports hreports
  have hrule : (Result.ofFinding (Linter.standardFinding s d)).ruleId = d.verdict.ruleId :=
    ruleIdOf_ofDue hverdict
  rw [hrule]
  exact ⟨rfl, count_ruleId hverdict⟩

end Report.Sarif

end SuffixLint
