import Mathlib.Data.List.Forall2
import SuffixLint.Linter
import SuffixLint.Proofs.Place
/-!
# What a run finds

A linter is run here on detectors of two kinds, in any number and order: detectors of the
convention, each with its own severity, and detectors that fail. What it has to report is then known
without running it: one finding for each detector of the convention and each declaration that the
settings flag (`due`). `value_run` says that a run gives just these, sorted by their places; all
that is said of runs elsewhere starts from there.
-/

namespace SuffixLint

open Sorting

/-! ## Detectors that are registered -/

/-- A detector that gives no findings, whatever it looks at. -/
def Detector.Fails (d : Detector) : Prop :=
  ∀ ds, ∃ e, (d.detect ds).value = .error e

/-- A detector that always fails, and gives a reason. -/
def Detector.broken (reason : String) : Detector where
  name := "failing"
  description := "Always fails"
  category := "test"
  detect _ := return .error reason

theorem Detector.fails_broken (reason : String) : (broken reason).Fails := by
  intro ds
  exact ⟨reason, rfl⟩

/-- What is registered with a linter. -/
inductive Registrant where
  /-- The detector of the convention, with the severity of its findings. -/
  | suffix (severity : Severity)
  /-- A detector that fails. -/
  | failing (d : Detector) (fails : d.Fails)

namespace Registrant

/-- The detector that always fails, as it is registered. -/
def broken (reason : String) : Registrant :=
  failing (.broken reason) (Detector.fails_broken reason)

def detector : Registrant → Detector
  | suffix severity => AsyncSuffix.detector severity
  | failing d _ => d

/-- The severity of the findings of a registrant that does not fail. -/
def severity? : Registrant → Option Severity
  | suffix severity => some severity
  | failing _ _ => none

end Registrant

/-- The linter on which detectors have been registered one after the other. -/
def Linter.registering (s : Settings) (rs : List Registrant) : Linter :=
  rs.foldl (fun l r => (l.register r.detector).value) { settings := s }

/-! ## What there is to report -/

/-- Whether a declaration breaks the convention and is not left alone. -/
def Settings.flags (s : Settings) (d : Declaration) : Bool :=
  d.isAsync && !d.verdict.isCompliant && !s.excludes d

/-- Whether a declaration is reported: it is flagged, and the rule is on. -/
def Settings.reports (s : Settings) (d : Declaration) : Bool :=
  s.ruleEnabled && s.flags d

/-- The findings that are due, as the severity of each and the declaration it is about: one for
each detector that does not fail and each declaration that is flagged, by detectors first. -/
def Settings.due (s : Settings) (rs : List Registrant) (ds : List Declaration) :
    List (Severity × Declaration) :=
  (rs.filterMap Registrant.severity?).flatMap fun severity =>
    (ds.filter s.flags).map fun d => (s.rule.severity.getD severity, d)

/-- The finding that is due. -/
def Finding.ofDue (o : Severity × Declaration) : Finding :=
  AsyncSuffix.finding o.1 o.2 o.2.verdict

/-- A finding tells of a declaration, at a severity. -/
structure Finding.TellsOf (f : Finding) (severity : Severity) (d : Declaration) : Prop where
  name : f.name = d.name
  file : f.affectedFiles = d.file.toList
  line : f.line = d.line
  verdict : f.verdict = d.verdict.code
  suggestedName : f.suggestedName = d.verdict.suggestedName? d.name
  severity : f.severity = severity

theorem Finding.tellsOf_ofDue (o : Severity × Declaration) : (ofDue o).TellsOf o.1 o.2 :=
  ⟨rfl, rfl, rfl, rfl, rfl, rfl⟩

namespace Linter

/-! ## Running detectors -/

/-- Registering keeps the settings and puts the detectors in the order in which they come. -/
theorem registering_eq (s : Settings) (rs : List Registrant) :
    registering s rs = ⟨s, rs.map Registrant.detector⟩ := by
  -- for the induction the fold starts from any linter
  have hstep : ∀ l : Linter, rs.foldl (fun l r => (l.register r.detector).value) l
      = ⟨l.settings, l.detectors ++ rs.map Registrant.detector⟩ := by
    induction rs with
    | nil =>
      intro l
      rw [List.foldl_nil, List.map_nil, List.append_nil]
    | cons r rs ih =>
      intro l
      rw [List.foldl_cons, ih, List.map_cons]
      simp [register]
  rw [registering, hstep, List.nil_append]

/-- What comes of a detector is what it gave, under its name. -/
theorem value_runDetector (d : Detector) (ds : List Declaration) :
    (runDetector d ds).value = ⟨d.name, (d.detect ds).value, 0⟩ := rfl

/-- Every detector that fails is warned of, with the reason that it gave. -/
theorem mem_records_runDetectors {d : Detector} {detectors : List Detector}
    {ds : List Declaration} {reason : String} (hd : d ∈ detectors)
    (h : (d.detect ds).value = .error reason) :
    ⟨.warn, Detection.warning ⟨d.name, .error reason, 0⟩⟩ ∈
      (runDetectors detectors ds).records := by
  induction detectors with
  | nil => cases hd
  | cons d' detectors ih =>
    -- the notes of the first detector, the warning if it failed, and the notes of the others
    have hrecords : (runDetectors (d' :: detectors) ds).records =
        (runDetector d' ds).records ++
          ((Log.noteIf (!(runDetector d' ds).value.isSuccess) .warn
            (runDetector d' ds).value.warning).records ++
              ((runDetectors detectors ds).records ++ [])) := rfl
    rw [hrecords, List.append_nil]
    rcases List.mem_cons.mp hd with rfl | hd
    · rw [value_runDetector, h]
      exact List.mem_append_right _ List.mem_cons_self
    · exact List.mem_append_right _ (List.mem_append_right _ (ih hd))

/-- What a registrant contributes to a run: a failure costs the findings of the detector that
failed, and those of no other. -/
theorem findings_registrant (r : Registrant) (ds : List Declaration) :
    (runDetector r.detector ds).value.findings =
      r.severity?.toList.flatMap fun severity => AsyncSuffix.findings severity ds := by
  rw [value_runDetector, Detection.findings]
  cases r with
  | suffix severity => simp [Registrant.detector, Registrant.severity?, AsyncSuffix.detector]
  | failing d fails =>
    obtain ⟨reason, hreason⟩ := fails ds
    simp [Registrant.detector, Registrant.severity?, hreason]

/-- The registrants contribute one after the other. -/
theorem value_runDetectors (rs : List Registrant) (ds : List Declaration) :
    (runDetectors (rs.map Registrant.detector) ds).value =
      (rs.filterMap Registrant.severity?).flatMap fun severity =>
        AsyncSuffix.findings severity ds := by
  induction rs with
  | nil => rfl
  | cons r rs ih =>
    simp only [List.map_cons, runDetectors, Log.Logged.value_bind, Log.Logged.value_pure]
    rw [findings_registrant, ih]
    cases hr : r.severity? with
    | none => simp [hr]
    | some severity => simp [hr]

/-- The detector of the convention reports the declarations that are not compliant. -/
theorem findings_eq (severity : Severity) (ds : List Declaration) :
    AsyncSuffix.findings severity ds =
      (ds.filter fun d => !d.verdict.isCompliant).map fun d => .ofDue (severity, d) := by
  induction ds with
  | nil => rfl
  | cons d ds ih =>
    rw [AsyncSuffix.findings] at ih ⊢
    rw [List.filterMap_cons, AsyncSuffix.finding?, List.filter_cons]
    cases hd : d.verdict.isCompliant with
    | true => simp [ih]
    | false => simp [ih, Finding.ofDue]

/-- The severity of the settings takes the place of that of the detector. -/
theorem override_ofDue (s : Settings) (severity : Severity) (d : Declaration) :
    override s (.ofDue (severity, d)) = .ofDue (s.rule.severity.getD severity, d) := by
  rw [override]
  cases s.rule.severity with
  | none => rfl
  | some severity' => rfl

/-- A declaration that is not asynchronous is compliant, so that flags are settled by the verdict
and the settings. -/
theorem flags_eq (s : Settings) (d : Declaration) :
    s.flags d = (!d.verdict.isCompliant && !s.excludes d) := by
  rw [Settings.flags]
  cases hd : d.isAsync with
  | true => rw [Bool.true_and]
  | false => simp [Declaration.verdict, Verdict.classify, hd, Verdict.isCompliant]

/-- What is flagged is asynchronous and breaks the convention. -/
theorem of_flags {s : Settings} {d : Declaration} (h : s.flags d = true) :
    d.isAsync = true ∧ d.verdict.isCompliant = false := by
  simp only [Settings.flags, Bool.and_eq_true, Bool.not_eq_true'] at h
  exact h.1

/-- Unless the rule is switched off, what is flagged is reported. -/
theorem reports_eq_flags {s : Settings} (h : s.rule.enabled ≠ some false) :
    s.reports = s.flags := by
  funext d
  rw [Settings.reports, Settings.ruleEnabled_eq_true_iff.mpr h, Bool.true_and]

theorem reports_eq_true_iff {s : Settings} {d : Declaration} :
    s.reports d = true ↔ s.rule.enabled ≠ some false ∧ s.flags d = true := by
  rw [Settings.reports, Bool.and_eq_true, Settings.ruleEnabled_eq_true_iff]

theorem of_reports {s : Settings} {d : Declaration} (h : s.reports d = true) :
    d.isAsync = true ∧ d.verdict.isCompliant = false := by
  exact of_flags (reports_eq_true_iff.mp h).2

/-- The verdict hangs on nothing but the flag and the name. -/
theorem verdict_congr {d e : Declaration} (hasync : d.isAsync = e.isAsync)
    (hname : d.name = e.name) : d.verdict = e.verdict := by
  rw [Declaration.verdict, Declaration.verdict, hasync, hname]

/-! ## A run -/

/-- The findings of all detectors, with the severity of the settings, are those that are due. -/
theorem map_override_runDetectors (s : Settings) (rs : List Registrant) (ds : List Declaration) :
    (runDetectors (rs.map Registrant.detector) (included s ds)).value.map (override s) =
      (s.due rs ds).map .ofDue := by
  -- taking out what is excluded and then what is compliant leaves what is flagged
  have hflags : (included s ds).filter (fun d => !d.verdict.isCompliant) = ds.filter s.flags := by
    rw [included, List.filter_filter]
    exact congrArg (ds.filter ·) (funext fun d => (flags_eq s d).symm)
  rw [value_runDetectors, Settings.due, List.map_flatMap, List.map_flatMap]
  refine congrArg (List.flatMap · _) (funext fun severity => ?_)
  rw [findings_eq, hflags, List.map_map, List.map_map]
  exact List.map_congr_left fun d _ => override_ofDue s severity d

/-- A run gives no findings if the rule is switched off, and otherwise those that are due, sorted
by their places. -/
theorem value_run (s : Settings) (rs : List Registrant) (ds : List Declaration) :
    ((registering s rs).run ds).value =
      if s.rule.enabled = some false then []
      else sortBy Finding.place ((s.due rs ds).map .ofDue) := by
  rw [registering_eq, run]
  by_cases hoff : s.rule.enabled = some false
  · rw [if_pos hoff, Settings.ruleEnabled_eq_false_iff.mpr hoff]
    rfl
  · rw [if_neg hoff, Settings.ruleEnabled_eq_true_iff.mpr hoff, ← sort_eq_sortBy,
      ← map_override_runDetectors]
    -- what is left between the two sides are the notes
    rfl

/-- The finding of the standard linter for a declaration. -/
def standardFinding (s : Settings) (d : Declaration) : Finding :=
  .ofDue (s.rule.severity.getD AsyncSuffix.defaultSeverity, d)

/-- The standard linter gives one finding for each declaration that is reported. -/
theorem value_run_standard (s : Settings) (ds : List Declaration) :
    ((standard s).value.run ds).value =
      sortBy Finding.place ((ds.filter s.reports).map (standardFinding s)) := by
  have hstandard : (standard s).value = registering s [.suffix AsyncSuffix.defaultSeverity] := rfl
  rw [hstandard, value_run]
  -- with the rule switched off nothing is reported either, so one filter says both cases
  by_cases hoff : s.rule.enabled = some false
  · have hnone : ds.filter s.reports = [] := by
      rw [List.filter_eq_nil_iff]
      intro d _ hreports
      exact (reports_eq_true_iff.mp hreports).1 hoff
    rw [if_pos hoff, hnone, List.map_nil, sortBy, List.mergeSort_nil]
  · rw [if_neg hoff, reports_eq_flags hoff, Settings.due]
    simp only [List.filterMap_cons, Registrant.severity?, List.filterMap_nil, List.flatMap_cons,
      List.flatMap_nil, List.append_nil, List.map_map]
    rfl

/-- A finding of the standard linter is that for a declaration that is reported. -/
theorem mem_run_standard {s : Settings} {ds : List Declaration} {f : Finding} :
    f ∈ ((standard s).value.run ds).value ↔
      ∃ d ∈ ds, s.reports d = true ∧ standardFinding s d = f := by
  rw [value_run_standard, (sortBy_perm _ _).mem_iff, List.mem_map]
  simp only [List.mem_filter, and_assoc]

/-- There are as many findings of the standard linter as declarations that are reported. -/
theorem length_run_standard (s : Settings) (ds : List Declaration) :
    ((standard s).value.run ds).value.length = ds.countP s.reports := by
  rw [value_run_standard, (sortBy_perm _ _).length_eq, List.length_map,
    List.countP_eq_length_filter]

/-- **A run reports each violation once, in order.** With the rule switched off there are no
findings. Otherwise the findings are, up to order, one for each detector of the convention and each
declaration that is flagged, telling of that declaration at the severity of the settings or else of
the detector. They stand by their places, and at one place by detectors and then by declarations. -/
theorem run_reports_each_once_in_order (s : Settings) (rs : List Registrant)
    (ds : List Declaration) :
    let found := ((registering s rs).run ds).value
    let expected := (s.due rs ds).map Finding.ofDue
    if s.rule.enabled = some false then found = []
    else
      List.Forall₂ (fun f o => f.TellsOf o.1 o.2) expected (s.due rs ds) ∧
        found.Perm expected ∧ found.Pairwise (fun f g => f.place ≤ g.place) ∧
        ∀ k, ofKey Finding.place k found = ofKey Finding.place k expected := by
  intro found expected
  have hfound : found = _ := value_run s rs ds
  by_cases hoff : s.rule.enabled = some false
  · rw [if_pos hoff] at hfound ⊢
    exact hfound
  · rw [if_neg hoff] at hfound ⊢
    have htells : List.Forall₂ (fun f o => f.TellsOf o.1 o.2) expected (s.due rs ds) := by
      rw [List.forall₂_map_left_iff, List.forall₂_same]
      intro o _
      exact Finding.tellsOf_ofDue o
    rw [hfound]
    exact ⟨htells, sortBy_perm _ _, pairwise_sortBy _ _, ofKey_sortBy _ _⟩

end Linter

end SuffixLint
