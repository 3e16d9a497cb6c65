import SuffixLint.Detector
import SuffixLint.Settings
/-!
# The linter

A linter runs its detectors over declarations as the settings say: what is excluded is taken out
first, every detector then sees the same declarations, a detector that fails costs only its own
findings, and the severity of the settings replaces that of the detectors. The findings come out in
their order, those at one place in the order in which they were found.
-/

namespace SuffixLint

open Log

/-- Detectors and the settings under which they are run. -/
structure Linter where
  settings : Settings := {}
  /-- The detectors, in the order in which they were registered. -/
  detectors : List Detector := []

namespace Linter

/-- The linter with a further detector. -/
def register (l : Linter) (d : Detector) : Logged Linter := do
  note .debug ("Registering detector: " ++ d.name ++ " (" ++ d.description ++ ")")
  return { l with detectors := l.detectors ++ [d] }

/-- The linter with the detector of the suffix convention. -/
def standard (settings : Settings) : Logged Linter :=
  register { settings := settings } (AsyncSuffix.detector AsyncSuffix.defaultSeverity)

/-- The names of the detectors. -/
def detectorNames (l : Linter) : List String :=
  l.detectors.map Detector.name

/-- Runs one detector. -/
def runDetector (d : Detector) (ds : List Declaration) : Logged Detection := do
  note .debug ("Running detector: " ++ d.name)
  let detection : Detection := { detector := d.name, outcome := ← d.detect ds }
  noteIf detection.isSuccess .debug
    ("Detector " ++ d.name ++ " found " ++ toString detection.findings.length ++ " findings")
  return detection

/-- Runs detectors one after the other and gives all their findings. A detector that fails is warned
of and gives none. -/
def runDetectors : List Detector → List Declaration → Logged (List Finding)
  | [], _ => return []
  | d :: ds, declarations => do
    let detection ← runDetector d declarations
    noteIf (!detection.isSuccess) .warn detection.warning
    let more ← runDetectors ds declarations
    return detection.findings ++ more

/-- A finding with the severity of the settings, if they set one. -/
def override (s : Settings) (f : Finding) : Finding :=
  match s.rule.severity with
  | some severity => { f with severity := severity }
  | none => f

/-- Findings in their order, those at one place in the order in which they come. -/
def sort (findings : List Finding) : List Finding :=
  findings.mergeSort fun a b => (a.order b).isLE

/-- The declarations that are inspected. -/
def included (s : Settings) (ds : List Declaration) : List Declaration :=
  ds.filter fun d => !s.excludes d

/-- The findings among declarations. -/
def run (l : Linter) (ds : List Declaration) : Logged (List Finding) := do
  if !l.settings.ruleEnabled then
    note .info "Naming rule disabled by config, skipping detection"
    return []
  let kept := included l.settings ds
  let excluded := ds.length - kept.length
  noteIf (0 < excluded) .debug ("Excluded " ++ toString excluded ++ " declarations by config")
  note .debug ("Running detectors: " ++ Text.quoteAll l.detectorNames)
  let found ← runDetectors l.detectors kept
  let findings := sort (found.map (override l.settings))
  note .info ("Detection complete: " ++ toString findings.length ++ " findings in "
    ++ toString kept.length ++ " declarations")
  return findings

end Linter

end SuffixLint
