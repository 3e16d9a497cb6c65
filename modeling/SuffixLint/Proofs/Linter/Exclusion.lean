import SuffixLint.Proofs.Linter.Run
/-!
# Exclusions

What is excluded is taken out before anything is looked at. As far as the findings go it could as
well be taken out of them in the end: a finding carries the name and the file by which its
declaration is excluded (`covers_ofDue`), the detectors look at each declaration alone, and a sort
that is stable goes with leaving out elements.
-/

namespace SuffixLint

open Sorting

/-- Whether a finding is about something that exclusions name: its name is listed, or a pattern
names its file. -/
def Exclusions.covers (e : Exclusions) (f : Finding) : Bool :=
  e.names.contains f.name || f.affectedFiles.any fun p => e.paths.any (·.accepts p.text)

namespace Linter

/-- A finding is covered just if its declaration is excluded. -/
theorem covers_ofDue (s : Settings) (o : Severity × Declaration) :
    s.exclude.covers (.ofDue o) = s.excludes o.2 := by
  have hfile : o.2.file.toList.any s.excludesPath = o.2.file.any s.excludesPath := by
    cases o.2.file with
    | none => rfl
    | some p => exact Bool.or_false _
  rw [Settings.excludes, Settings.excludesNamed, ← hfile]
  rfl

/-- Fewer exclusions exclude no more. -/
theorem excludes_of_subset {s : Settings} {e : Exclusions} (hpaths : e.paths ⊆ s.exclude.paths)
    (hnames : e.names ⊆ s.exclude.names) {d : Declaration}
    (h : { s with exclude := e }.excludes d = true) : s.excludes d = true := by
  rw [Settings.excludes, Settings.excludesNamed, Bool.or_eq_true, List.contains_iff_mem] at h ⊢
  rcases h with hname | hfile
  · exact Or.inl (hnames hname)
  · rw [Option.any_eq_true] at hfile ⊢
    obtain ⟨p, hp, hpath⟩ := hfile
    rw [Settings.excludesPath, List.any_eq_true] at hpath
    obtain ⟨g, hg, haccepts⟩ := hpath
    exact Or.inr ⟨p, hp, List.any_eq_true.mpr ⟨g, hpaths hg, haccepts⟩⟩

/-- What is due under more exclusions is what is due under fewer, without what is excluded. -/
theorem filter_due (s s' : Settings) (hrule : s'.rule = s.rule)
    (h : ∀ d, s'.excludes d = true → s.excludes d = true) (rs : List Registrant)
    (ds : List Declaration) :
    (s'.due rs ds).filter (fun o => !s.excludes o.2) = s.due rs ds := by
  -- what is excluded under fewer exclusions is so under more, so one test settles both
  have hflags : ∀ d, (!s.excludes d && s'.flags d) = s.flags d := by
    intro d
    rw [Settings.flags, Settings.flags]
    cases hd : s'.excludes d with
    | false => rw [Bool.not_false, Bool.and_true, Bool.and_comm]
    | true => simp [h d hd]
  rw [Settings.due, List.filter_flatMap, Settings.due, hrule]
  refine congrArg (List.flatMap · _) (funext fun severity => ?_)
  rw [List.filter_map, List.filter_filter]
  exact congrArg (List.map _ ·) (List.filter_congr fun d _ => hflags d)

/-- A run under more exclusions gives what a run under fewer gives, without what is covered. -/
theorem run_eq_filter_run {s : Settings} {e : Exclusions} (hpaths : e.paths ⊆ s.exclude.paths)
    (hnames : e.names ⊆ s.exclude.names) (rs : List Registrant) (ds : List Declaration) :
    ((registering s rs).run ds).value =
      ((registering { s with exclude := e } rs).run ds).value.filter
        fun f => !s.exclude.covers f := by
  rw [value_run, value_run]
  by_cases hoff : s.rule.enabled = some false
  · rw [if_pos hoff, if_pos hoff, List.filter_nil]
  · -- what is covered may be left out before the sort as well as behind it
    rw [if_neg hoff, if_neg hoff, filter_sortBy, List.filter_map]
    have hcovers : ((fun f => !s.exclude.covers f) ∘ Finding.ofDue) = fun o => !s.excludes o.2 :=
      funext fun o => congrArg not (covers_ofDue s o)
    have hdue := filter_due s { s with exclude := e } rfl
      (fun d => excludes_of_subset hpaths hnames) rs ds
    rw [hcovers, hdue]

/-- **Exclusions only take findings away.** A run gives what it would give without exclusions, less
the findings that they cover, and what is left stands as it stood. So whatever exclusions are added,
a run gives some of the findings that it gave before, in the order in which it gave them. -/
theorem exclusions_only_delete (s : Settings) (rs : List Registrant) (ds : List Declaration) :
    ((registering s rs).run ds).value =
        ((registering { s with exclude := {} } rs).run ds).value.filter
          (fun f => !s.exclude.covers f) ∧
      ∀ e : Exclusions, e.paths ⊆ s.exclude.paths → e.names ⊆ s.exclude.names →
        ((registering s rs).run ds).value.Sublist
          ((registering { s with exclude := e } rs).run ds).value := by
  refine ⟨run_eq_filter_run (List.nil_subset _) (List.nil_subset _) rs ds, ?_⟩
  intro e hpaths hnames
  rw [run_eq_filter_run hpaths hnames rs ds]
  exact List.filter_sublist

/-- A pattern is added to a name that was excluded before, and one of the detectors fails. -/
theorem exclusions_only_delete_pattern :
    let s : Settings := { exclude := { paths := [⟨"gen/"⟩], names := ["Main"] } }
    let e : Exclusions := { names := ["Main"] }
    let rs : List Registrant := [.broken "boom", .suffix .info]
    let ds : List Declaration :=
      [⟨"Main", true, none, none⟩, ⟨"Load", true, some ⟨"gen/a"⟩, some 3⟩,
        ⟨"Load", true, some ⟨"a"⟩, some 3⟩]
    e.paths ⊆ s.exclude.paths ∧ e.names ⊆ s.exclude.names ∧
      ((registering s rs).run ds).value.Sublist
        ((registering { s with exclude := e } rs).run ds).value := by
  intro s e rs ds
  have hpaths : e.paths ⊆ s.exclude.paths := List.nil_subset _
  have hnames : e.names ⊆ s.exclude.names := List.Subset.refl _
  exact ⟨hpaths, hnames, (exclusions_only_delete s rs ds).2 e hpaths hnames⟩

end Linter

end SuffixLint
