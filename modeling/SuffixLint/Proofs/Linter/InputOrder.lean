import Mathlib.Data.List.Perm.Basic
import SuffixLint.Proofs.Linter.Run
/-!
# The order of declarations

The findings of a run do not depend on the order in which the declarations come, as far as anyone
can see. Places tell findings apart only up to the spelling of a path, and several detectors report
a declaration at one place, so a sort alone does not settle the order. But the findings at one place
that come from one detector all look alike (`shown_eq_of_place`), and the detectors keep their
order.
-/

namespace SuffixLint

open Sorting

/-- Two findings tell of one violation: they agree but for the spelling of the file and for what is
made of that spelling. -/
structure Finding.Agrees (f g : Finding) : Prop where
  file : f.affectedFiles.head?.map Path.components = g.affectedFiles.head?.map Path.components
  line : f.line = g.line
  name : f.name = g.name
  verdict : f.verdict = g.verdict
  severity : f.severity = g.severity
  title : f.title = g.title
  suggestedName : f.suggestedName = g.suggestedName
  suggestedFix : f.suggestedFix = g.suggestedFix

/-- What findings that agree have in common, with the place in front. -/
def Finding.shown (f : Finding) :=
  (f.place, f.verdict, f.severity, f.title, f.suggestedName, f.suggestedFix)

theorem Finding.agrees_of_shown_eq {f g : Finding} (h : f.shown = g.shown) : f.Agrees g := by
  simp only [shown, Prod.mk.injEq] at h
  obtain ⟨hplace, hverdict, hseverity, htitle, hname, hfix⟩ := h
  obtain ⟨hfile, hline, hname'⟩ := place_eq_iff.mp hplace
  exact ⟨hfile, hline, hname', hverdict, hseverity, htitle, hname, hfix⟩

namespace Linter

variable {s : Settings} {ds ds' : List Declaration}

/-- The findings at one place that come from one detector look alike: the name decides the verdict,
and the two decide the rest. -/
theorem shown_eq_of_place {severity : Severity} {d e : Declaration} (hd : s.flags d = true)
    (he : s.flags e = true)
    (h : (Finding.ofDue (severity, d)).place = (Finding.ofDue (severity, e)).place) :
    (Finding.ofDue (severity, d)).shown = (Finding.ofDue (severity, e)).shown := by
  have hname : d.name = e.name := (place_eq_iff.mp h).2.2
  have hasync : d.isAsync = e.isAsync := by rw [(of_flags hd).1, (of_flags he).1]
  have hverdict : d.verdict = e.verdict := verdict_congr hasync hname
  simp only [Finding.shown, h]
  simp only [Finding.ofDue, AsyncSuffix.finding, hverdict, hname]

/-- Of each place, one detector gives findings of one look, as many as there are declarations. -/
theorem ofKey_shown_suffix (h : ds.Perm ds') (severity : Severity) (k) :
    ofKey Prod.fst k ((ds.filter s.flags).map fun d => (Finding.ofDue (severity, d)).shown) =
      ofKey Prod.fst k ((ds'.filter s.flags).map fun d =>
        (Finding.ofDue (severity, d)).shown) := by
  have hperm := (h.filter s.flags).map fun d => (Finding.ofDue (severity, d)).shown
  -- the elements of a list that are all equal make up only one list
  refine eq_of_perm_of_forall_eq (ofKey_perm hperm k) ?_
  intro x hx y hy
  obtain ⟨hx, hxk⟩ := mem_ofKey.mp hx
  obtain ⟨hy, hyk⟩ := mem_ofKey.mp hy
  obtain ⟨d, hd, rfl⟩ := List.mem_map.mp hx
  obtain ⟨e, he, rfl⟩ := List.mem_map.mp hy
  exact shown_eq_of_place (List.mem_filter.mp hd).2 (List.mem_filter.mp he).2 (hxk.trans hyk.symm)

/-- What is due of each place looks the same in whatever order the declarations come. -/
theorem ofKey_shown_due (h : ds.Perm ds') (rs : List Registrant) (k) :
    ofKey Prod.fst k (((s.due rs ds).map .ofDue).map Finding.shown) =
      ofKey Prod.fst k (((s.due rs ds').map .ofDue).map Finding.shown) := by
  have hflat : ∀ es : List Declaration,
      ofKey Prod.fst k (((s.due rs es).map .ofDue).map Finding.shown) =
        (rs.filterMap Registrant.severity?).flatMap fun severity =>
          ofKey Prod.fst k ((es.filter s.flags).map fun d =>
            (Finding.ofDue (s.rule.severity.getD severity, d)).shown) := by
    intro es
    rw [Settings.due, List.map_flatMap, List.map_flatMap, ofKey, List.filter_flatMap]
    simp only [List.map_map]
    rfl
  rw [hflat, hflat]
  exact congrArg (List.flatMap · _) (funext fun severity => ofKey_shown_suffix h _ k)

/-- What is due is the same up to order in whatever order the declarations come. -/
theorem due_perm (h : ds.Perm ds') (rs : List Registrant) : (s.due rs ds).Perm (s.due rs ds') := by
  rw [Settings.due, Settings.due]
  exact List.Perm.flatMap_left _ fun _ _ => (h.filter s.flags).map _

/-- **The order of the declarations does not show.** The findings of two runs on the same
declarations in different orders are the same up to order, and they agree position by position. -/
theorem run_agrees_of_perm (s : Settings) (rs : List Registrant) {ds ds' : List Declaration}
    (h : ds.Perm ds') :
    let found := ((registering s rs).run ds).value
    let found' := ((registering s rs).run ds').value
    List.Forall₂ Finding.Agrees found found' ∧ found.Perm found' := by
  intro found found'
  have hfound : found = _ := value_run s rs ds
  have hfound' : found' = _ := value_run s rs ds'
  by_cases hoff : s.rule.enabled = some false
  · rw [if_pos hoff] at hfound hfound'
    rw [hfound, hfound']
    exact ⟨List.Forall₂.nil, List.Perm.refl _⟩
  · rw [if_neg hoff] at hfound hfound'
    rw [hfound, hfound']
    refine ⟨?_, ?_⟩
    · -- a stable sort is settled by what there is of each place, which looks the same in both runs
      have hshown : (sortBy Finding.place ((s.due rs ds).map .ofDue)).map Finding.shown =
          (sortBy Finding.place ((s.due rs ds').map .ofDue)).map Finding.shown := by
        rw [map_sortBy Finding.place Prod.fst fun _ => rfl,
          map_sortBy Finding.place Prod.fst fun _ => rfl]
        exact sortBy_congr (ofKey_shown_due h rs)
      rw [← List.forall₂_eq_eq_eq, List.forall₂_map_left_iff, List.forall₂_map_right_iff] at hshown
      exact hshown.imp fun _ _ => Finding.agrees_of_shown_eq
    · exact (sortBy_perm _ _).trans (((due_perm h rs).map _).trans (sortBy_perm _ _).symm)

/-- Two spellings of one path, seen by two detectors and by one between them that fails. -/
theorem run_agrees_of_perm_spellings :
    let ds : List Declaration :=
      [⟨"Load", true, some ⟨"a//b"⟩, some 3⟩, ⟨"Load", true, some ⟨"a/b"⟩, some 3⟩]
    let rs : List Registrant := [.suffix .info, .broken "boom", .suffix .high]
    let run (es : List Declaration) := ((registering {} rs).run es).value
    ds.Perm ds.reverse ∧ List.Forall₂ Finding.Agrees (run ds) (run ds.reverse) ∧
      (run ds).Perm (run ds.reverse) := by
  intro ds rs run
  have h : ds.Perm ds.reverse := (List.reverse_perm ds).symm
  exact ⟨h, run_agrees_of_perm {} rs h⟩

end Linter

end SuffixLint
