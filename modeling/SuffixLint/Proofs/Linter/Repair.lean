import Mathlib.Data.List.Basic
import SuffixLint.Proofs.Linter.Run
/-!
# Applying the corrections

A finding proposes a name for its declaration. When each declaration that has a finding is given the
name that the finding proposes, nothing is left to report: every correction ends in the token, so
the new name is compliant (`classify_of_suggestedName?`), and a compliant declaration is not flagged
whether or not its new name is one of those that are left alone. The declarations that were
reported are then counted among the compliant ones, and nothing else changes in the counts.

The corrections are applied here as they would be by hand, from the findings alone: a declaration
looks for a finding with its name and its place (`Declaration.correctedBy`).
-/

namespace SuffixLint

/-- Whether a finding has the name and the place of a declaration. -/
def Finding.isAbout (f : Finding) (d : Declaration) : Bool :=
  f.name = d.name && f.affectedFiles = d.file.toList && f.line = d.line

/-- An asynchronous declaration that some finding is about, with the name that it proposes; any
other declaration as it is. -/
def Declaration.correctedBy (found : List Finding) (d : Declaration) : Declaration :=
  match found.find? fun f => d.isAsync && f.isAbout d with
  | some f => { d with name := f.suggestedName.getD d.name }
  | none => d

/-- The declaration with the name that its verdict proposes, if it is reported. -/
def Settings.correct (s : Settings) (d : Declaration) : Declaration :=
  if s.reports d then { d with name := (d.verdict.suggestedName? d.name).getD d.name } else d

/-! ## Proposed names -/

/-- A name that is proposed ends in the token, whichever verdict proposes it for whichever name. -/
theorem classify_of_suggestedName? {v : Verdict} {name suggested : String}
    (h : v.suggestedName? name = some suggested) (isAsync : Bool) :
    Verdict.classify isAsync suggested = .compliant := by
  rw [Verdict.suggestedName?] at h
  cases hv : v.isCompliant with
  | true =>
    rw [hv, if_pos rfl] at h
    cases h
  | false =>
    rw [hv, if_neg Bool.false_ne_true] at h
    obtain rfl := Option.some.inj h
    have hsuffix : Convention.token.toList.isSuffixOf
        (v.stem name.toList ++ Convention.token.toList) = true :=
      List.isSuffixOf_iff_suffix.mpr (List.suffix_append _ _)
    cases isAsync with
    | false => rfl
    | true =>
      rw [Verdict.classify, if_pos rfl, Verdict.ofAsyncName, String.toList_ofList, if_pos hsuffix]

/-- A name is proposed by each verdict but the one that needs no correction. -/
theorem exists_suggestedName? {v : Verdict} (h : v.isCompliant = false) (name : String) :
    ∃ suggested, v.suggestedName? name = some suggested := by
  rw [Verdict.suggestedName?, h, if_neg Bool.false_ne_true]
  exact ⟨_, rfl⟩

namespace Linter

variable {s : Settings} {ds : List Declaration}

/-! ## One declaration -/

/-- Whether a declaration is reported does not hang on its line. -/
theorem reports_congr {d e : Declaration} (hasync : d.isAsync = e.isAsync) (hname : d.name = e.name)
    (hfile : d.file = e.file) : s.reports d = s.reports e := by
  simp only [Settings.reports, Settings.flags, Settings.excludes, verdict_congr hasync hname,
    hasync, hname, hfile]

/-- A finding is about the declarations that have the name and the place of the one for which it was
made. -/
theorem isAbout_standardFinding {d e : Declaration} :
    (standardFinding s e).isAbout d = true ↔
      e.name = d.name ∧ e.file = d.file ∧ e.line = d.line := by
  have hfile : e.file.toList = d.file.toList ↔ e.file = d.file := by
    cases e.file <;> cases d.file <;> simp
  have hfinding := Finding.tellsOf_ofDue (s.rule.severity.getD AsyncSuffix.defaultSeverity, e)
  rw [Finding.isAbout, standardFinding, hfinding.name, hfinding.file, hfinding.line]
  simp only [Bool.and_eq_true, decide_eq_true_eq, hfile, and_assoc]

/-- The findings correct a declaration just as its verdict would. -/
theorem correctedBy_run {d : Declaration} (hd : d ∈ ds) :
    d.correctedBy ((standard s).value.run ds).value = s.correct d := by
  rw [Declaration.correctedBy, Settings.correct]
  cases hfind : ((standard s).value.run ds).value.find? fun f => d.isAsync && f.isAbout d with
  | none =>
    -- its own finding would have been found
    have hnot : ¬ s.reports d = true := by
      intro hreports
      have hmem : standardFinding s d ∈ ((standard s).value.run ds).value :=
        mem_run_standard.mpr ⟨d, hd, hreports, rfl⟩
      refine List.find?_eq_none.mp hfind _ hmem ?_
      rw [(of_reports hreports).1, Bool.true_and]
      exact isAbout_standardFinding.mpr ⟨rfl, rfl, rfl⟩
    rw [if_neg hnot]
  | some f =>
    -- the finding may have been made for another declaration, but for one of this name, and with
    -- the name it has the verdict in common
    obtain ⟨e, -, hreports, rfl⟩ := mem_run_standard.mp (List.mem_of_find?_eq_some hfind)
    have habout := List.find?_some hfind
    rw [Bool.and_eq_true, isAbout_standardFinding] at habout
    obtain ⟨hasync, hname, hfile, -⟩ := habout
    have hasync' : d.isAsync = e.isAsync := by rw [hasync, (of_reports hreports).1]
    have hverdict : d.verdict = e.verdict := verdict_congr hasync' hname.symm
    rw [if_pos ((reports_congr hasync' hname.symm hfile.symm).trans hreports), hverdict, ← hname]
    rfl

/-- A declaration that is reported becomes compliant and stays asynchronous. -/
theorem verdict_correct {d : Declaration} (h : s.reports d = true) :
    (s.correct d).isAsync = true ∧ (s.correct d).verdict = .compliant := by
  obtain ⟨hasync, hbreaks⟩ := of_reports h
  obtain ⟨suggested, hsuggested⟩ := exists_suggestedName? hbreaks d.name
  rw [Settings.correct, if_pos h, hsuggested]
  exact ⟨hasync, classify_of_suggestedName? hsuggested d.isAsync⟩

/-- A declaration that is not reported stays as it is. -/
theorem correct_of_not_reports {d : Declaration} (h : ¬ s.reports d = true) : s.correct d = d := by
  rw [Settings.correct, if_neg h]

/-- A declaration that has been corrected is not reported, whatever name it has now. -/
theorem not_reports_correct (s : Settings) (d : Declaration) :
    ¬ s.reports (s.correct d) = true := by
  by_cases h : s.reports d = true
  · intro hagain
    have hcompliant := (of_reports hagain).2
    rw [(verdict_correct h).2] at hcompliant
    exact absurd hcompliant (by decide)
  · rwa [correct_of_not_reports h]

/-- Whether a declaration is asynchronous is not for a correction to change. -/
theorem isAsync_correct (s : Settings) (d : Declaration) : (s.correct d).isAsync = d.isAsync := by
  by_cases h : s.reports d = true
  · rw [(verdict_correct h).1, (of_reports h).1]
  · rw [correct_of_not_reports h]

/-! ## All declarations -/

/-- Correcting the declarations that are reported makes them compliant, and no others. -/
theorem countP_correct (s : Settings) (ds : List Declaration) :
    (ds.map s.correct).countP (fun d => d.isAsync && d.verdict.isCompliant) =
      ds.countP (fun d => d.isAsync && d.verdict.isCompliant) + ds.countP s.reports := by
  induction ds with
  | nil => rfl
  | cons d ds ih =>
    rw [List.map_cons, List.countP_cons, List.countP_cons, List.countP_cons, ih]
    by_cases h : s.reports d = true
    · obtain ⟨hasync, hverdict⟩ := verdict_correct h
      have hafter : ((s.correct d).isAsync && (s.correct d).verdict.isCompliant) = true := by
        rw [hasync, hverdict]
        rfl
      have hbefore : ¬ (d.isAsync && d.verdict.isCompliant) = true := by
        rw [(of_reports h).2, Bool.and_false]
        exact Bool.false_ne_true
      rw [if_pos hafter, if_neg hbefore, if_pos h]
      omega
    · rw [correct_of_not_reports h, if_neg h]
      omega

/-- **Applying the corrections leaves nothing to report.** The findings of the standard linter
correct just the declarations that are reported. On what comes out it finds nothing, and of the
counts only that of the compliant declarations changes: it grows by the findings there were. -/
theorem run_corrected (s : Settings) (ds : List Declaration) :
    let l := (standard s).value
    let found := (l.run ds).value
    let corrected := ds.map (·.correctedBy found)
    let before := Report.ofFindings found ds
    let after := Report.ofFindings (l.run corrected).value corrected
    corrected = ds.map s.correct ∧ (l.run corrected).value = [] ∧
      after.compliant = before.compliant + found.length ∧
      after.declarations = before.declarations ∧ after.asynchronous = before.asynchronous := by
  intro l found corrected before after
  have hcorrected : corrected = ds.map s.correct :=
    List.map_congr_left fun d hd => correctedBy_run hd
  refine ⟨hcorrected, ?_, ?_, ?_, ?_⟩
  · rw [hcorrected, List.eq_nil_iff_forall_not_mem]
    intro f hf
    obtain ⟨e, he, hreports, -⟩ := mem_run_standard.mp hf
    obtain ⟨d, -, rfl⟩ := List.mem_map.mp he
    exact not_reports_correct s d hreports
  · change corrected.countP _ = ds.countP _ + found.length
    rw [hcorrected, length_run_standard]
    exact countP_correct s ds
  · exact List.length_map _
  · change corrected.countP _ = ds.countP _
    rw [hcorrected, List.countP_map]
    exact List.countP_congr fun d _ => by rw [Function.comp_apply, isAsync_correct]

end Linter

end SuffixLint
