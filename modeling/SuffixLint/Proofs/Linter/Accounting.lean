import SuffixLint.Proofs.Linter.Run
import SuffixLint.Proofs.Report.Summary
/-!
# The counts of a report

Each asynchronous declaration is compliant, or reported, or kept from being reported by the
settings, and only one of these (`countP_async`). A report counts the first kind itself and has a
finding for each of the second, so what it does not account for is the third, and none of its
differences falls below zero.
-/

namespace SuffixLint

/-- Whether a declaration breaks the convention. -/
def Declaration.breaks (d : Declaration) : Bool :=
  d.isAsync && !d.verdict.isCompliant

/-- Whether the settings keep a declaration that breaks the convention from being reported: the rule
is off, or the declaration is left alone. -/
def Settings.suppresses (s : Settings) (d : Declaration) : Bool :=
  d.breaks && (!s.ruleEnabled || s.excludes d)

namespace Linter

/-- With the rule switched off all violations are suppressed, and otherwise those that are
excluded. -/
theorem suppresses_eq (s : Settings) :
    s.suppresses = if s.rule.enabled = some false then Declaration.breaks
      else fun d => d.breaks && s.excludes d := by
  funext d
  unfold Settings.suppresses
  by_cases hoff : s.rule.enabled = some false
  · rw [if_pos hoff, Settings.ruleEnabled_eq_false_iff.mpr hoff, Bool.not_false, Bool.true_or,
      Bool.and_true]
  · rw [if_neg hoff, Settings.ruleEnabled_eq_true_iff.mpr hoff, Bool.not_true, Bool.false_or]

/-- An asynchronous declaration is compliant, reported or suppressed, and only one of these. -/
theorem countP_async (s : Settings) (ds : List Declaration) :
    ds.countP (·.isAsync) =
      ds.countP (fun d => d.isAsync && d.verdict.isCompliant) + ds.countP s.reports +
        ds.countP s.suppresses := by
  induction ds with
  | nil => rfl
  | cons d ds ih =>
    simp only [List.countP_cons, ih]
    -- four answers settle which of the counts go up: is it asynchronous, is it compliant, is the
    -- rule on, is it left alone
    unfold Settings.reports Settings.flags Settings.suppresses Declaration.breaks
    cases d.isAsync <;> cases d.verdict.isCompliant <;> cases s.ruleEnabled <;>
      cases s.excludes d <;> simp <;> omega

/-- **A report accounts for every declaration.** Its counts do not exceed each other, its findings
are counted once each by severity, and what is left of the asynchronous declarations, without those
that are compliant and those that have a finding, are the violations that the settings suppress. -/
theorem report_accounts_for_each (s : Settings) (ds : List Declaration) :
    let found := ((standard s).value.run ds).value
    let r := Report.ofFindings found ds
    r.compliant ≤ r.asynchronous ∧ r.asynchronous ≤ r.declarations ∧
      (r.summary.total = found.length ∧
        r.summary.critical + r.summary.high + r.summary.medium + r.summary.low + r.summary.info =
          r.summary.total) ∧
      r.compliant + found.length ≤ r.asynchronous ∧
      r.compliant + r.unreported = r.asynchronous ∧
      r.asynchronous - r.compliant - found.length =
        if s.rule.enabled = some false then ds.countP Declaration.breaks
        else ds.countP fun d => d.breaks && s.excludes d := by
  intro found r
  -- all counts are counts over the declarations, and `countP_async` is the one equation among them
  have hfound : found.length = ds.countP s.reports := length_run_standard s ds
  have hasync : r.asynchronous = r.compliant + found.length + ds.countP s.suppresses := by
    rw [hfound]
    exact countP_async s ds
  have hsuppressed : ds.countP s.suppresses =
      if s.rule.enabled = some false then ds.countP Declaration.breaks
      else ds.countP fun d => d.breaks && s.excludes d := by
    rw [suppresses_eq]
    split <;> rfl
  have hunreported : r.unreported = r.asynchronous - r.compliant := rfl
  refine ⟨by omega, List.countP_le_length, Summary.total_ofFindings found, by omega, by omega, ?_⟩
  rw [← hsuppressed]
  omega

end Linter

end SuffixLint
