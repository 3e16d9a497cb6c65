import Mathlib.Data.List.Basic
import SuffixLint.Report
/-!
# What a summary counts

A summary holds one count for each severity. Adding up the counts of some severities gives the
number of findings that have one of them (`addUp_count`); all the severities together give the
total, and those from a threshold on give what reaches it.
-/

namespace SuffixLint

theorem Severity.mem_all (s : Severity) : s ∈ Severity.all := by
  cases s <;> decide

theorem Severity.nodup_all : Severity.all.Nodup := by
  decide

namespace Summary

/-- The counts of some severities, added up. -/
def addUp (s : Summary) (severities : List Severity) : Nat :=
  (severities.map s.count).foldl (· + ·) 0

/-- The count of a severity is the number of findings that have it. -/
theorem count_ofFindings (found : List Finding) (s : Severity) :
    (ofFindings found).count s = found.countP fun f => f.severity = s := by
  cases s <;> rfl

/-- The start of a sum may be added in the end. -/
theorem foldl_add_start (ns : List Nat) (n : Nat) :
    ns.foldl (· + ·) n = n + ns.foldl (· + ·) 0 := by
  induction ns generalizing n with
  | nil => rfl
  | cons m ns ih =>
    rw [List.foldl_cons, List.foldl_cons, ih (n + m), ih (0 + m)]
    omega

/-- Findings that have a severity or one of some others are counted with that severity or with the
others, and with both only if the severity is one of the others. -/
theorem countP_cons_severity {s : Severity} {ss : List Severity} (h : s ∉ ss)
    (found : List Finding) :
    found.countP (fun f => f.severity ∈ s :: ss) =
      found.countP (fun f => f.severity = s) + found.countP (fun f => f.severity ∈ ss) := by
  induction found with
  | nil => rfl
  | cons f found ih =>
    rw [List.countP_cons, List.countP_cons, List.countP_cons, ih]
    by_cases hf : f.severity = s
    · simp only [hf, List.mem_cons, true_or, h, decide_true, decide_false, if_true,
        Bool.false_eq_true, if_false]
      omega
    · simp only [List.mem_cons, hf, false_or, decide_false, Bool.false_eq_true, if_false]
      omega

/-- The counts of different severities add up to the findings that have one of them. -/
theorem addUp_count (found : List Finding) {severities : List Severity} (h : severities.Nodup) :
    (ofFindings found).addUp severities = found.countP fun f => f.severity ∈ severities := by
  induction severities with
  | nil =>
    rw [eq_comm, addUp, List.map_nil, List.foldl_nil, List.countP_eq_zero]
    intro f _
    simp
  | cons s ss ih =>
    obtain ⟨hs, hss⟩ := List.nodup_cons.mp h
    rw [addUp, List.map_cons, List.foldl_cons, foldl_add_start, ← addUp, ih hss,
      countP_cons_severity hs, count_ofFindings]
    omega

/-- The five counts add up to the total, which is the number of findings. -/
theorem total_ofFindings (found : List Finding) :
    let s := ofFindings found
    s.total = found.length ∧ s.critical + s.high + s.medium + s.low + s.info = s.total := by
  intro s
  have hall : s.addUp Severity.all = found.length := by
    rw [addUp_count found Severity.nodup_all, List.countP_eq_length]
    intro f _
    exact decide_eq_true (Severity.mem_all f.severity)
  refine ⟨rfl, ?_⟩
  change _ = found.length
  rw [← hall]
  simp only [addUp, Severity.all, List.map_cons, List.map_nil, List.foldl_cons, List.foldl_nil,
    count]
  omega

/-- What is counted at or above a threshold are the findings whose severity is. -/
theorem atLeast_ofFindings (found : List Finding) (threshold : Severity) :
    (ofFindings found).atLeast threshold = found.countP fun f => threshold ≤ f.severity := by
  have hnodup : (Severity.all.filter (threshold ≤ ·)).Nodup :=
    Severity.nodup_all.sublist List.filter_sublist
  rw [atLeast, ← addUp, addUp_count found hnodup]
  refine List.countP_congr fun f _ => ?_
  simp only [List.mem_filter, Severity.mem_all, true_and, decide_eq_true_eq]

end Summary

end SuffixLint
