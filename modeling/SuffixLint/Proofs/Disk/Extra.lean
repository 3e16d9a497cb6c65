import SuffixLint.Proofs.Disk.Walk
/-!
# Disks that differ in one file

One disk holds a file that another does not hold, and nothing else differs (`Extra`). It does not
matter which of the two was there first, so what is said here holds of a file that is laid on a disk
and of one that is taken off it.

A path leads to the same place on both disks (`locate_iff`): only directories are passed on the way,
and no directory is where the file lies. The rules of a walk are the same too, unless the file is a
rule file itself, and so a walk on the fuller disk finds the extra file and what it finds on the
other (`declarationFiles_filter`).
-/

namespace SuffixLint.Disk

open Sorting

/-- Nothing lies at a location of one disk where a file lies on the other, and elsewhere the same
lies on both. -/
structure Extra (less more : Disk) (l : Location) : Prop where
  current : less.current = more.current
  elsewhere : ∀ m, m ≠ l → less.at? m = more.at? m
  missing : less.at? l = none
  file : ∃ content, more.at? l = some (.file content)

/-- There is a directory from which relative paths start, and one at the top. -/
theorem at?_ne_none_of_prefix {d : Disk} {l : Location} (h : l <+: d.current) : d.at? l ≠ none := by
  have habove : d.isAbove l = true := by
    rw [isAbove, List.isPrefixOf_iff_prefix.mpr h, Bool.true_or]
  unfold at?
  split
  · exact Option.some_ne_none _
  · rw [if_pos habove]
    exact Option.some_ne_none _

/-- Everything above what is listed or above the current directory is there. -/
theorem isAbove_of_prefix {d : Disk} {l m : Location} (h : d.isAbove l = true) (hm : m <+: l) :
    d.isAbove m = true := by
  rw [isAbove, Bool.or_eq_true, List.any_eq_true] at h ⊢
  rcases h with hcurrent | ⟨e, he, hfront⟩
  · exact Or.inl (List.isPrefixOf_iff_prefix.mpr (hm.trans (List.isPrefixOf_iff_prefix.mp hcurrent)))
  · refine Or.inr ⟨e, he, ?_⟩
    exact List.isPrefixOf_iff_prefix.mpr (hm.trans (List.isPrefixOf_iff_prefix.mp hfront))

/-- A directory is there by what lies below it, or because it is listed. -/
theorem isAbove_of_directory {d : Disk} {l : Location} (h : d.at? l = some .directory) :
    d.isAbove l = true := by
  unfold at? at h
  split at h
  · rename_i e hlookup
    rw [isAbove, Bool.or_eq_true, List.any_eq_true]
    refine Or.inr ⟨(l, e), mem_of_lookup hlookup, ?_⟩
    exact List.isPrefixOf_iff_prefix.mpr (List.prefix_refl l)
  · by_cases habove : d.isAbove l = true
    · exact habove
    · rw [if_neg habove] at h
      cases h

/-- Elsewhere lies what lay there before something was laid, as long as what is above it was
there. -/
theorem at?_put_of_ne {d : Disk} {l m : Location} {e : Entry}
    (habove : ∀ k, k <+: l → k ≠ l → d.isAbove k = true) (hm : m ≠ l) :
    (d.put l e).at? m = d.at? m := by
  have hsame : (d.put l e).isAbove m = d.isAbove m := by
    rw [Bool.eq_iff_iff]
    constructor
    · intro h
      rw [isAbove, Bool.or_eq_true, List.any_eq_true] at h ⊢
      rcases h with hcurrent | ⟨x, hx, hfront⟩
      · exact Or.inl hcurrent
      · rcases List.mem_append.mp hx with hx | hx
        · exact Or.inr ⟨x, (List.mem_filter.mp hx).1, hfront⟩
        · -- what has been laid brings in nothing above it that was not there
          rw [List.mem_singleton.mp hx, List.isPrefixOf_iff_prefix] at hfront
          have hthere := habove m hfront hm
          rwa [isAbove, Bool.or_eq_true, List.any_eq_true] at hthere
    · exact isAbove_put
  rw [at?, at?, lookup_put_of_ne hm, hsame]

/-- What is above a place in a directory is there. -/
theorem isAbove_of_directory_concat {d : Disk} {dir k : Location} {name : String}
    (hdirectory : d.at? dir = some .directory) (hk : k <+: dir ++ [name])
    (hne : k ≠ dir ++ [name]) : d.isAbove k = true := by
  rcases List.prefix_concat_iff.mp hk with heq | hfront
  · exact absurd heq hne
  · exact isAbove_of_prefix (isAbove_of_directory hdirectory) hfront

/-- What is above the place that a path leads to is there. -/
theorem isAbove_of_locate {d : Disk} {p : Path} {l k : Location} (h : d.locate p = .ok l)
    (hk : k <+: l) (hne : k ≠ l) : d.isAbove k = true := by
  -- the last piece of the path makes the last step, which starts from a directory
  obtain ⟨parent, piece, hstep⟩ : ∃ parent piece, d.step parent piece = .ok l := by
    unfold locate at h
    split at h
    · cases h
    rw [← List.dropLast_concat_getLast (Path.splitSlashes_ne_nil p.text.toList),
      follow_append_eq_ok] at h
    obtain ⟨parent, -, hlast⟩ := h
    obtain ⟨m, hstep, hend⟩ := follow_cons_eq_ok.mp hlast
    obtain rfl : m = l := Except.ok.inj hend
    exact ⟨parent, _, hstep⟩
  have hparent := directory_of_step hstep
  have habove := isAbove_of_directory hparent
  rw [step, hparent] at hstep
  simp only at hstep
  split at hstep
  · rw [← Except.ok.inj hstep] at hk hne
    exact isAbove_of_directory_concat hparent hk hne
  · rw [← Except.ok.inj hstep] at hk
    exact isAbove_of_prefix habove (hk.trans (List.dropLast_prefix parent))
  · rw [← Except.ok.inj hstep] at hk
    exact isAbove_of_prefix habove hk

/-- A file that is laid where nothing was is all that a disk has more, as long as what is above it
was there. -/
theorem extra_of_isAbove {d : Disk} {l : Location} {content : ByteArray}
    (habove : ∀ k, k <+: l → k ≠ l → d.isAbove k = true) (hnone : d.at? l = none) :
    Extra d (d.put l (.file content)) l := by
  refine ⟨rfl, ?_, hnone, content, at?_put _ _ _⟩
  intro m hm
  rw [at?_put_of_ne habove hm]

theorem extra_put {d : Disk} {dir : Location} {name : String} {content : ByteArray}
    (hdirectory : d.at? dir = some .directory) (hnone : d.at? (dir ++ [name]) = none) :
    Extra d (d.put (dir ++ [name]) (.file content)) (dir ++ [name]) :=
  extra_of_isAbove (fun _ => isAbove_of_directory_concat hdirectory) hnone

theorem extra_of_target {d : Disk} {p : Path} {l : Location} {content : ByteArray}
    (htarget : d.target p = .ok l) (hnone : d.at? l = none) :
    Extra d (d.put l (.file content)) l :=
  extra_of_isAbove (fun _ => isAbove_of_locate (locate_of_target htarget).1) hnone

section Differ

variable {less more : Disk} {l m n : Location} (h : Extra less more l)
include h

/-! ## Following paths -/

theorem Extra.directory_iff : less.at? m = some .directory ↔ more.at? m = some .directory := by
  by_cases hm : m = l
  · obtain ⟨content, hfile⟩ := h.file
    rw [hm, h.missing, hfile]
    simp
  · rw [h.elsewhere m hm]

theorem Extra.step_iff {piece : List Char} :
    less.step m piece = .ok n ↔ more.step m piece = .ok n := by
  constructor
  · intro hstep
    have hdirectory := directory_of_step hstep
    rw [step, hdirectory] at hstep
    rw [step, h.directory_iff.mp hdirectory]
    exact hstep
  · intro hstep
    have hdirectory := directory_of_step hstep
    rw [step, hdirectory] at hstep
    rw [step, h.directory_iff.mpr hdirectory]
    exact hstep

theorem Extra.follow_iff {pieces : List (List Char)} :
    less.follow m pieces = .ok n ↔ more.follow m pieces = .ok n := by
  induction pieces generalizing m with
  | nil => exact Iff.rfl
  | cons piece pieces ih => simp only [follow_cons_eq_ok, h.step_iff, ih]

theorem Extra.start_eq (p : Path) : less.start p = more.start p := by
  rw [start, start, h.current]

/-- A path leads to the same location on both disks. -/
theorem Extra.locate_iff {p : Path} : less.locate p = .ok m ↔ more.locate p = .ok m := by
  rw [locate, locate, h.start_eq]
  split
  · exact Iff.rfl
  · exact h.follow_iff

theorem Extra.isDirectory_eq (p : Path) : less.isDirectory p = more.isDirectory p := by
  rw [Bool.eq_iff_iff, isDirectory_iff, isDirectory_iff]
  simp only [h.locate_iff, h.directory_iff]

/-! ## Paths that stay away from the file -/

theorem Extra.not_directory_below {x : String} : less.at? (l ++ [x]) ≠ some .directory := by
  intro hdirectory
  have habove := isAbove_of_prefix (isAbove_of_directory hdirectory) (List.prefix_append l [x])
  have hmissing := h.missing
  unfold at? at hmissing
  split at hmissing
  · cases hmissing
  · rw [if_pos habove] at hmissing
    cases hmissing

/-- A step that does not name the file does not come to where it lies. -/
theorem Extra.step_away {piece : List Char}
    (hpiece : ∀ name, l.getLast? = some name → Path.Component.ofPiece? piece ≠ some (.entry name))
    (hm : m ≠ l) (hstep : less.step m piece = .ok n) : n ≠ l := by
  have hdirectory := directory_of_step hstep
  rw [step, hdirectory] at hstep
  simp only at hstep
  split at hstep
  · rename_i name hentry
    rintro rfl
    rw [← Except.ok.inj hstep] at hpiece
    exact hpiece name List.getLast?_concat hentry
  · rintro rfl
    have hup : m.dropLast = n := Except.ok.inj hstep
    by_cases hnil : m = []
    · rw [hnil] at hup hm
      exact hm hup
    · rw [← List.dropLast_concat_getLast hnil, hup] at hdirectory
      exact h.not_directory_below hdirectory
  · rw [← Except.ok.inj hstep]
    exact hm

theorem Extra.follow_away {pieces : List (List Char)}
    (hpieces : ∀ piece ∈ pieces, ∀ name, l.getLast? = some name →
      Path.Component.ofPiece? piece ≠ some (.entry name)) (hm : m ≠ l) :
    less.follow m pieces = more.follow m pieces ∧ ∀ n, less.follow m pieces = .ok n → n ≠ l := by
  induction pieces generalizing m with
  | nil =>
    refine ⟨rfl, ?_⟩
    rintro n hn rfl
    exact hm (Except.ok.inj hn)
  | cons piece pieces ih =>
    have hsame : less.step m piece = more.step m piece := by
      rw [step, step, h.elsewhere m hm]
    rw [follow, follow, hsame]
    cases hstep : more.step m piece with
    | error refusal =>
      refine ⟨rfl, ?_⟩
      intro n hn
      cases hn
    | ok k =>
      rw [hstep] at hsame
      apply ih
      · intro next hnext
        exact hpieces next (List.mem_cons_of_mem piece hnext)
      · exact h.step_away (hpieces piece List.mem_cons_self) hm hsame

/-- A path that nowhere names the file leads to the same on both disks. -/
theorem Extra.find_eq {p : Path}
    (hp : ∀ name, l.getLast? = some name → .entry name ∉ p.components) :
    less.find p = more.find p := by
  have hstart : more.start p ≠ l := by
    rw [← h.start_eq]
    rintro rfl
    have hmissing := h.missing
    unfold start at hmissing
    split at hmissing
    · exact at?_ne_none_of_prefix List.nil_prefix hmissing
    · exact at?_ne_none_of_prefix (List.prefix_refl less.current) hmissing
  obtain ⟨hsame, haway⟩ : less.locate p = more.locate p ∧ ∀ n, less.locate p = .ok n → n ≠ l := by
    rw [locate, locate, h.start_eq]
    split
    · refine ⟨rfl, ?_⟩
      intro n hn
      cases hn
    · apply h.follow_away _ hstart
      intro piece hpiece name hname hentry
      exact hp name hname (Path.mem_components hpiece hentry)
  rw [find, find, ← hsame]
  cases hlocate : less.locate p with
  | error refusal => rfl
  | ok n =>
    simp only
    rw [h.elsewhere n (haway n hlocate)]

/-! ## Walks -/

theorem Extra.rulesAt_eq (hm : m ≠ l) : less.rulesAt m = more.rulesAt m := by
  rw [rulesAt, rulesAt, h.elsewhere m hm]

theorem Extra.upToRepository_eq (hgit : ∀ place, place ++ [".git"] ≠ l) (dirs : List Location) :
    less.upToRepository dirs = more.upToRepository dirs := by
  induction dirs with
  | nil => rfl
  | cons dir dirs ih =>
    rw [upToRepository, upToRepository, isRepository, isRepository, h.elsewhere _ (hgit dir), ih]

/-- Rules are read where the file does not lie. -/
theorem Extra.choice?_eq (hrules : ∀ place, ∀ file ∈ [".git"] :: ruleFiles, place ++ file ≠ l)
    (m : Location) (isDirectory : Bool) : less.choice? m isDirectory = more.choice? m isDirectory := by
  have hgit : ∀ place, place ++ [".git"] ≠ l := fun place => hrules place _ List.mem_cons_self
  have hchoice : ∀ file ∈ ruleFiles, ∀ dirs,
      less.choiceOf? dirs file m isDirectory = more.choiceOf? dirs file m isDirectory := by
    intro file hfile dirs
    have hsame : ∀ place, less.rulesAt (place ++ file) = more.rulesAt (place ++ file) :=
      fun place => h.rulesAt_eq (hrules place file (List.mem_cons_of_mem _ hfile))
    simp only [choiceOf?, hsame]
  have hrepository : less.isRepository = more.isRepository := by
    funext place
    rw [isRepository, isRepository, h.elsewhere _ (hgit place)]
  unfold choice?
  simp only
  rw [hrepository, h.upToRepository_eq hgit, hchoice [".ignore"] (by decide),
    hchoice [".gitignore"] (by decide), hchoice [".git", "info", "exclude"] (by decide)]

theorem Extra.isWalked_eq (hrules : ∀ place, ∀ file ∈ [".git"] :: ruleFiles, place ++ file ≠ l)
    (dir m : Location) : less.isWalked dir m = more.isWalked dir m := by
  have hadmits : ∀ n isDirectory, less.admits n isDirectory = more.admits n isDirectory := by
    intro n isDirectory
    rw [admits, admits, h.choice?_eq hrules]
  simp only [isWalked, hadmits, h.directory_iff]

/-- **A walk on the fuller disk finds what it finds on the other**, and the extra file. -/
theorem Extra.declarationFiles_filter (hless : less.IsTree) (hmore : more.IsTree)
    (hrules : ∀ place, ∀ file ∈ [".git"] :: ruleFiles, place ++ file ≠ l) {root : Path}
    (hroot : more.isDirectory root = true) :
    (more.declarationFiles root).filter (fun p => more.locate p ≠ .ok l) =
      less.declarationFiles root := by
  obtain ⟨dir, hlocate, hdirectory⟩ := isDirectory_iff.mp hroot
  by_cases hstandard : root.components = [.entry "-"]
  · rw [declarationFiles_of_standard hstandard, declarationFiles_of_standard hstandard,
      List.filter_nil]
  have hlocate' := h.locate_iff.mpr hlocate
  have hdirectory' := h.directory_iff.mpr hdirectory
  have hsorted := pairwise_declarationFiles hmore hlocate hdirectory hstandard
  have hsorted' := pairwise_declarationFiles hless hlocate' hdirectory' hstandard
  -- both lists are in strict order, so they are equal when they have the same members
  apply eq_of_pairwise_lt (hsorted.filter _) hsorted'
  intro p
  rw [List.mem_filter, mem_declarationFiles_iff, mem_declarationFiles_iff,
    mem_walkedFiles hstandard hlocate hdirectory, mem_walkedFiles hstandard hlocate' hdirectory',
    decide_eq_true_eq]
  constructor
  · rintro ⟨⟨⟨names, content, hlisted, hwalked, rfl⟩, hsupported⟩, hne⟩
    rw [locate_listed hmore hlocate (isWalked_append.mp hwalked).1 hlisted] at hne
    have helse : dir ++ names ≠ l := fun heq => hne (congrArg Except.ok heq)
    refine ⟨⟨names, content, ?_, ?_, rfl⟩, hsupported⟩
    · rw [← at?_eq_file, h.elsewhere _ helse]
      exact at?_eq_file.mpr hlisted
    · rw [h.isWalked_eq hrules]
      exact hwalked
  · rintro ⟨⟨names, content, hlisted, hwalked, rfl⟩, hsupported⟩
    have hfile := at?_eq_file.mpr hlisted
    have helse : dir ++ names ≠ l := by
      rintro rfl
      rw [h.missing] at hfile
      cases hfile
    rw [h.elsewhere _ helse] at hfile
    rw [h.isWalked_eq hrules] at hwalked
    have hlisted' := at?_eq_file.mp hfile
    refine ⟨⟨⟨names, content, hlisted', hwalked, rfl⟩, hsupported⟩, ?_⟩
    rw [locate_listed hmore hlocate (isWalked_append.mp hwalked).1 hlisted']
    exact fun heq => helse (Except.ok.inj heq)

end Differ

end SuffixLint.Disk
