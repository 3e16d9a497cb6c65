import SuffixLint.Finding
import SuffixLint.Glob
/-!
# Settings

What a project decides about its inspection: whether the rule is on and how severe its findings are,
which declarations are left alone, and what a run does when the command line does not say. Nothing
has to be set.
-/

namespace SuffixLint

/-- The settings of the rule. -/
structure RuleSettings where
  enabled : Option Bool := none
  severity : Option Severity := none
  deriving DecidableEq, Repr

/-- What is left alone. -/
structure Exclusions where
  paths : List Glob := []
  names : List String := []
  deriving DecidableEq, Repr

/-- What a run does when the command line does not say. -/
structure RunDefaults where
  format : Option String := none
  failOn : Option Severity := none
  deriving DecidableEq, Repr

/-- The settings of a project. -/
structure Settings where
  rule : RuleSettings := {}
  exclude : Exclusions := {}
  defaults : RunDefaults := {}
  deriving DecidableEq, Repr

/-- A field that may be left out and then has a given value. -/
def Field.optional {α : Type} (key : String) (codec : Codec α) (absent : α) : Field α :=
  ⟨key, [], codec, some absent, fun _ => false⟩

/-- A field that may be left out, and is left out when there is no value for it. -/
def Field.maybe {α : Type} (key : String) (codec : Codec α) : Field (Option α) :=
  ⟨key, [], codec.option, some none, Option.isNone⟩

/-- The settings of the rule as a record. -/
def RuleSettings.codec : Codec RuleSettings :=
  (Codec.record "RuleConfig" <|
    .cons (.maybe "enabled" Codec.bool) <| .cons (.maybe "severity" Severity.codec) .nil).imap
    (fun (enabled, severity, _) => ⟨enabled, severity⟩)
    (fun r => (r.enabled, r.severity, ()))

/-- Exclusions as a record. -/
def Exclusions.codec : Codec Exclusions :=
  (Codec.record "ExcludeConfig" <|
    .cons (.optional "paths" (Codec.string.imap Glob.mk Glob.text).list []) <|
    .cons (.optional "names" Codec.string.list []) .nil).imap
    (fun (paths, names, _) => ⟨paths, names⟩)
    (fun e => (e.paths, e.names, ()))

/-- The defaults of a run as a record. -/
def RunDefaults.codec : Codec RunDefaults :=
  (Codec.record "CliDefaults" <|
    .cons (.maybe "format" Codec.string) <| .cons (.maybe "fail_on" Severity.codec) .nil).imap
    (fun (format, failOn, _) => ⟨format, failOn⟩)
    (fun d => (d.format, d.failOn, ()))

namespace Settings

/-- Settings as records. -/
def codec : Codec Settings :=
  (Codec.record "ProjectConfig" <|
    .cons (.optional "rule" RuleSettings.codec {}) <|
    .cons (.optional "exclude" Exclusions.codec {}) <|
    .cons (.optional "defaults" RunDefaults.codec {}) .nil).imap
    (fun (rule, exclude, defaults, _) => ⟨rule, exclude, defaults⟩)
    (fun s => (s.rule, s.exclude, s.defaults, ()))

/-- Whether the rule is on, which it is unless it has been switched off. -/
def ruleEnabled (s : Settings) : Bool :=
  s.rule.enabled.getD true

/-- The rule is off only where the settings say so. -/
theorem ruleEnabled_eq_false_iff {s : Settings} :
    s.ruleEnabled = false ↔ s.rule.enabled = some false := by
  unfold ruleEnabled
  cases s.rule.enabled with
  | none => simp
  | some enabled => simp

theorem ruleEnabled_eq_true_iff {s : Settings} :
    s.ruleEnabled = true ↔ s.rule.enabled ≠ some false := by
  rw [Ne, ← ruleEnabled_eq_false_iff, Bool.not_eq_false]

/-- Whether a path is left alone. -/
def excludesPath (s : Settings) (p : Path) : Bool :=
  s.exclude.paths.any (·.accepts p.text)

/-- Whether declarations of a name, in a file if one is known, are left alone. -/
def excludesNamed (s : Settings) (name : String) (file : Option Path) : Bool :=
  s.exclude.names.contains name || file.any s.excludesPath

/-- Whether a declaration is left alone, by its name or by its file. -/
def excludes (s : Settings) (d : Declaration) : Bool :=
  s.excludesNamed d.name d.file

end Settings

end SuffixLint
