import SuffixLint.Input
import SuffixLint.Proofs.Disk.Tree
import SuffixLint.Proofs.Place
/-!
# What a walk comes to

Where no rule file speaks, a walk from a directory comes to every file below it on whose way no name
is hidden, and to nothing else (`mem_declarationFiles`). Each file comes up under one path, the path
of the directory followed by the names to the file, so the files stand in the strict order of their
paths (`pairwise_declarationFiles`).

A path that is `-` alone is an exception: it stands for standard input, and a walk from it comes to
no file, although a directory may have that name (`declarationFiles_standard`).
-/

namespace SuffixLint.Disk

open Sorting

variable {d : Disk} {dir l : Location} {names : List String}

/-! ## Rules -/

/-- The files that hold rules, from the directory for which they speak. -/
def ruleFiles : List Location :=
  [[".ignore"], [".gitignore"], [".git", "info", "exclude"]]

/-- No rule file lies in or below a directory or in one above it. -/
def Unruled (d : Disk) (dir : Location) : Prop :=
  ∀ place, place <+: dir ∨ dir <+: place → ∀ file ∈ ruleFiles, ∀ content,
    d.at? (place ++ file) ≠ some (.file content)

/-- No rule file lies anywhere if no location that is listed ends as one does. -/
theorem unruled_of_forall (h : ∀ e ∈ d.entries, ∀ file ∈ ruleFiles, ¬ file <:+ e.1) :
    d.Unruled dir := by
  intro place _ file hfile content hat
  exact h _ (at?_eq_file.mp hat) file hfile (List.suffix_append place file)

theorem rulesAt_of_forall (h : ∀ content, d.at? l ≠ some (.file content)) : d.rulesAt l = [] := by
  unfold rulesAt
  split
  · rename_i content hfile
    exact absurd hfile (h content)
  · rfl

/-- Directories none of which has rules have nothing to say. -/
theorem choiceOf?_of_forall {dirs : List Location} {file : Location}
    (h : ∀ place ∈ dirs, d.rulesAt (place ++ file) = []) (isDirectory : Bool) :
    d.choiceOf? dirs file l isDirectory = none := by
  rw [choiceOf?, List.findSome?_eq_none_iff]
  intro place hplace
  rw [h place hplace]
  rfl

theorem mem_of_mem_upToRepository {place : Location} {dirs : List Location}
    (h : place ∈ d.upToRepository dirs) : place ∈ dirs := by
  induction dirs with
  | nil => exact h
  | cons first dirs ih =>
    rw [upToRepository] at h
    split at h
    · rw [List.mem_singleton.mp h]
      exact List.mem_cons_self
    · rcases List.mem_cons.mp h with rfl | h
      · exact List.mem_cons_self
      · exact List.mem_cons_of_mem first (ih h)

theorem prefix_of_mem_directoriesAbove {place : Location} (h : place ∈ directoriesAbove l) :
    place <+: l := by
  obtain ⟨n, -, rfl⟩ := List.mem_map.mp h
  exact List.take_prefix n l

/-- Without rule files nothing is said of what lies below a directory. -/
theorem choice?_of_unruled (h : d.Unruled dir) (hl : dir <+: l) (isDirectory : Bool) :
    d.choice? l isDirectory = none := by
  have hnone : ∀ file ∈ ruleFiles, ∀ place ∈ directoriesAbove l,
      d.rulesAt (place ++ file) = [] := by
    intro file hfile place hplace
    have hrelated := List.prefix_or_prefix_of_prefix (prefix_of_mem_directoriesAbove hplace) hl
    exact rulesAt_of_forall (h place hrelated file hfile)
  have hinside : ∀ place ∈ (if (directoriesAbove l).any d.isRepository then
      d.upToRepository (directoriesAbove l) else []), place ∈ directoriesAbove l := by
    intro place hplace
    split at hplace
    · exact mem_of_mem_upToRepository hplace
    · cases hplace
  unfold choice?
  simp only
  rw [choiceOf?_of_forall (hnone [".ignore"] (by decide)),
    choiceOf?_of_forall fun place hplace =>
      hnone [".gitignore"] (by decide) place (hinside place hplace),
    choiceOf?_of_forall fun place hplace =>
      hnone [".git", "info", "exclude"] (by decide) place (hinside place hplace)]
  rfl

/-- Without rule files a name is passed over just if it is hidden. -/
theorem admits_of_unruled (h : d.Unruled dir) {n : String} (hlast : names.getLast? = some n)
    (isDirectory : Bool) : d.admits (dir ++ names) isDirectory = !n.startsWith "." := by
  have hne : names ≠ [] := by
    rintro rfl
    cases hlast
  rw [admits, choice?_of_unruled h (List.prefix_append dir names)]
  simp only [isHidden, List.getLastD_eq_getLast?, List.getLast?_append_of_ne_nil dir hne, hlast,
    Option.getD_some]

/-! ## The way from a directory -/

theorem mem_drop_range {m j n : Nat} : n ∈ (List.range m).drop j ↔ j ≤ n ∧ n < m := by
  rw [List.range_eq_range', List.drop_range', List.mem_range'_1]
  omega

/-- A walk comes to what lies below its directory when it enters every directory on the way. -/
theorem isWalked_append : d.isWalked dir (dir ++ names) = true ↔ names ≠ [] ∧
    (∀ k, 0 < k → k < names.length → d.at? (dir ++ names.take k) = some .directory ∧
      d.admits (dir ++ names.take k) true = true) ∧ d.admits (dir ++ names) false = true := by
  have htake : ∀ k, (dir ++ names).take (dir.length + k) = dir ++ names.take k := by
    intro k
    rw [List.take_append, List.take_of_length_le (Nat.le_add_right _ _), Nat.add_sub_cancel_left]
  have hlength : dir.length < dir.length + names.length ↔ names ≠ [] := by
    rw [← List.length_pos_iff]
    omega
  simp only [isWalked, Bool.and_eq_true, List.isPrefixOf_iff_prefix, List.prefix_append, true_and,
    decide_eq_true_eq, List.all_eq_true, mem_drop_range, List.length_append, hlength, and_assoc]
  refine and_congr_right fun _ => and_congr_left fun _ => ?_
  constructor
  · intro h k hpos hk
    have hway := h (dir.length + k) (by omega)
    rwa [htake] at hway
  · rintro h n ⟨hpos, hn⟩
    obtain ⟨k, rfl⟩ := Nat.exists_eq_add_of_le (Nat.le_of_succ_le hpos)
    rw [htake]
    exact h k (by omega) (by omega)

/-- What a walk comes to lies below its directory. -/
theorem exists_of_isWalked (h : d.isWalked dir l = true) : ∃ names, l = dir ++ names := by
  simp only [isWalked, Bool.and_eq_true, List.isPrefixOf_iff_prefix, and_assoc] at h
  obtain ⟨⟨names, hnames⟩, -⟩ := h
  exact ⟨names, hnames.symm⟩

/-- Without rule files a walk comes to what lies below its directory when no name on the way is
hidden. -/
theorem isWalked_of_unruled (h : d.Unruled dir) (hne : names ≠ []) :
    d.isWalked dir (dir ++ names) = true ↔
      (∀ k, 0 < k → k < names.length → d.at? (dir ++ names.take k) = some .directory) ∧
        ∀ n ∈ names, n.startsWith "." = false := by
  -- the last name on the way to a place decides whether the place is taken
  have hadmits : ∀ k, ∀ hk : k < names.length, ∀ isDirectory,
      d.admits (dir ++ names.take (k + 1)) isDirectory = !names[k].startsWith "." := by
    intro k hk isDirectory
    refine admits_of_unruled h ?_ isDirectory
    rw [List.getLast?_take, if_neg (Nat.succ_ne_zero k), Nat.add_sub_cancel,
      List.getElem?_eq_getElem hk, Option.some_or]
  have hwhole : names.take (names.length - 1 + 1) = names :=
    List.take_of_length_le (by omega)
  have hlast : names.length - 1 < names.length :=
    Nat.sub_lt (List.length_pos_iff.mpr hne) Nat.one_pos
  rw [isWalked_append]
  constructor
  · rintro ⟨-, hway, hend⟩
    refine ⟨fun k hpos hk => (hway k hpos hk).1, fun n hn => ?_⟩
    obtain ⟨k, hk, rfl⟩ := List.getElem_of_mem hn
    by_cases hinner : k + 1 < names.length
    · have hadmit := (hway (k + 1) (Nat.succ_pos k) hinner).2
      rwa [hadmits k hk, Bool.not_eq_true'] at hadmit
    · obtain rfl : k = names.length - 1 := by omega
      rw [← hwhole, hadmits _ hlast, Bool.not_eq_true'] at hend
      exact hend
  · rintro ⟨hway, hshown⟩
    refine ⟨hne, fun k hpos hk => ⟨hway k hpos hk, ?_⟩, ?_⟩
    · obtain ⟨j, rfl⟩ := Nat.exists_eq_succ_of_ne_zero (Nat.ne_of_gt hpos)
      rw [hadmits j (by omega), hshown _ (List.getElem_mem _)]
      rfl
    · rw [← hwhole, hadmits _ hlast, hshown _ (List.getElem_mem _)]
      rfl

/-! ## The files of a walk -/

/-- A path that leads to a directory leads to a location that is one. -/
theorem isDirectory_iff {p : Path} :
    d.isDirectory p = true ↔ ∃ dir, d.locate p = .ok dir ∧ d.at? dir = some .directory := by
  rw [isDirectory, decide_eq_true_eq, find]
  cases d.locate p with
  | error e => simp [Except.toOption]
  | ok dir =>
    cases hdir : d.at? dir with
    | none => simp [Except.toOption, hdir]
    | some e => simp [Except.toOption, hdir]

/-- A path that leads somewhere is not empty. -/
theorem text_ne_empty_of_locate {p : Path} (h : d.locate p = .ok l) : p.text ≠ "" := by
  intro htext
  rw [locate, if_pos (String.isEmpty_iff.mpr htext)] at h
  cases h

theorem walkedFiles_of_directory {root : Path} (hroot : root.components ≠ [.entry "-"])
    (hlocate : d.locate root = .ok dir) (hdirectory : d.at? dir = some .directory) :
    d.walkedFiles root = d.entries.filterMap (d.walkedFile? root dir) := by
  have hfind : d.find root = .ok .directory := by
    rw [find, hlocate]
    simp only [hdirectory]
  rw [walkedFiles, if_neg hroot, hlocate, hfind]

/-- A file that a walk comes to stands under the path that goes on to it. -/
theorem walkedFile?_eq_some {root : Path} {x : Location × Entry} {p : Path} :
    d.walkedFile? root dir x = some p ↔ ∃ names content, x = (dir ++ names, .file content) ∧
      d.isWalked dir (dir ++ names) = true ∧ p = root.join (String.intercalate "/" names) := by
  constructor
  · intro h
    unfold walkedFile? at h
    split at h
    · rename_i l content
      rw [Option.ite_none_right_eq_some, Option.some.injEq] at h
      obtain ⟨hwalked, rfl⟩ := h
      obtain ⟨names, rfl⟩ := exists_of_isWalked hwalked
      refine ⟨names, content, rfl, hwalked, ?_⟩
      rw [pathBelow, List.drop_left]
    · cases h
  · rintro ⟨names, content, rfl, hwalked, rfl⟩
    rw [walkedFile?, if_pos hwalked, pathBelow, List.drop_left]

/-- The declaration files of a walk are sorted by the components of their paths. -/
theorem declarationFiles_eq_sortBy (d : Disk) (root : Path) :
    d.declarationFiles root =
      sortBy Path.key ((d.walkedFiles root).filter DeclarationFile.isSupported) := by
  have hle : (fun p q : Path => (p.order q).isLE) = fun p q => decide (p.key ≤ q.key) := by
    funext p q
    rw [Bool.eq_iff_iff, Ordering.isLE_iff_ne_gt, decide_eq_true_eq]
    exact (path_compares p q).ne_gt
  rw [declarationFiles, sortBy, hle]

theorem mem_walkedFiles {root : Path} (hroot : root.components ≠ [.entry "-"])
    (hlocate : d.locate root = .ok dir) (hdirectory : d.at? dir = some .directory) {p : Path} :
    p ∈ d.walkedFiles root ↔ ∃ names content, (dir ++ names, .file content) ∈ d.entries ∧
      d.isWalked dir (dir ++ names) = true ∧ p = root.join (String.intercalate "/" names) := by
  rw [walkedFiles_of_directory hroot hlocate hdirectory, List.mem_filterMap]
  constructor
  · rintro ⟨x, hx, hfile⟩
    obtain ⟨names, content, rfl, hwalked, rfl⟩ := walkedFile?_eq_some.mp hfile
    exact ⟨names, content, hx, hwalked, rfl⟩
  · rintro ⟨names, content, hlisted, hwalked, rfl⟩
    exact ⟨_, hlisted, walkedFile?_eq_some.mpr ⟨names, content, rfl, hwalked, rfl⟩⟩

theorem mem_declarationFiles_iff {root p : Path} : p ∈ d.declarationFiles root ↔
    p ∈ d.walkedFiles root ∧ DeclarationFile.isSupported p = true := by
  rw [declarationFiles_eq_sortBy, (sortBy_perm _ _).mem_iff, List.mem_filter]

theorem declarationFiles_of_standard {root : Path} (h : root.components = [.entry "-"]) :
    d.declarationFiles root = [] := by
  rw [declarationFiles, walkedFiles, if_pos h, List.filter_nil, List.mergeSort_nil]

/-- A file is a declaration file when the text behind the last dot of its name is one of their
extensions. -/
theorem isSupported_iff {p : Path} :
    DeclarationFile.isSupported p = true ↔
      ∃ ext, p.extension? = some ext ∧ ext ∈ DeclarationFile.extensions := by
  rw [DeclarationFile.isSupported, DeclarationFile.Form.ofPath?]
  cases p.extension? with
  | none => simp
  | some ext => simp [DeclarationFile.extensions, List.find?_isSome]

/-- The form of a file is told by its name. -/
theorem ofPath?_congr {p q : Path} (h : p.fileName? = q.fileName?) :
    DeclarationFile.Form.ofPath? p = DeclarationFile.Form.ofPath? q := by
  rw [DeclarationFile.Form.ofPath?, DeclarationFile.Form.ofPath?, Path.extension?, Path.extension?, h]

theorem exists_fileName?_of_isSupported {p : Path} (h : DeclarationFile.isSupported p = true) :
    ∃ name, p.fileName? = some name := by
  obtain ⟨ext, hext, -⟩ := isSupported_iff.mp h
  obtain ⟨name, hname, -⟩ := Option.bind_eq_some_iff.mp hext
  exact ⟨name, hname⟩

/-- A declaration file is no rule file, and no sign of a repository. -/
theorem append_ruleFile_ne {p : Path} (h : DeclarationFile.isSupported p = true)
    (hname : p.fileName? = l.getLast?) (place : Location) {file : Location}
    (hfile : file ∈ [".git"] :: ruleFiles) : place ++ file ≠ l := by
  rintro rfl
  obtain ⟨ext, hext, hmem⟩ := isSupported_iff.mp h
  have hne : file ≠ [] := by
    rintro rfl
    exact absurd hfile (by decide)
  rw [List.getLast?_append_of_ne_nil place hne] at hname
  rw [Path.extension?, hname] at hext
  have hnone : ∀ file ∈ [".git"] :: ruleFiles, ∀ ext ∈ DeclarationFile.extensions,
      (file.getLast?.bind fun name =>
        (Path.extensionOfName? name.toList).map String.ofList) ≠ some ext := by
    decide
  exact hnone file hfile ext hmem hext

theorem extension?_join {root : Path} (hroot : root.text ≠ "") {name : String}
    (hnames : ∀ n ∈ names ++ [name], IsName n) :
    (root.join (String.intercalate "/" (names ++ [name]))).extension? =
      (Path.extensionOfName? name.toList).map String.ofList := by
  have hne : names ++ [name] ≠ [] := List.append_ne_nil_of_right_ne_nil names (List.cons_ne_nil _ _)
  have hlast : (root.components ++ (names ++ [name]).map Path.Component.entry).getLast? =
      some (.entry name) := by
    rw [List.map_append, ← List.append_assoc]
    exact List.getLast?_concat
  rw [Path.extension?, Path.fileName?, Path.components_join hroot hne hnames, hlast]
  rfl

/-- A name that is not hidden has as extension what follows its last dot. -/
theorem extensionOfName?_of_not_hidden {name : String} (h : name.startsWith "." = false)
    {ext : List Char} : Path.extensionOfName? name.toList = some ext ↔
      ∃ stem, name.toList = stem ++ '.' :: ext ∧ '.' ∉ ext := by
  rw [Path.extensionOfName?_eq_some]
  constructor
  · rintro ⟨stem, -, hext, hname⟩
    exact ⟨stem, hname, hext⟩
  · rintro ⟨stem, hname, hext⟩
    refine ⟨stem, ?_, hext, hname⟩
    rintro rfl
    have hhidden : name.startsWith "." = true := by
      rw [String.startsWith_string_iff, hname]
      exact List.prefix_append ['.'] ext
    rw [h] at hhidden
    cases hhidden

section Below

variable {root : Path}

/-- **A walk gives the declaration files below its directory on whose way no name is hidden.** -/
theorem mem_declarationFiles (htree : d.IsTree) (hlocate : d.locate root = .ok dir)
    (hdirectory : d.at? dir = some .directory) (hrules : d.Unruled dir)
    (hroot : root.components ≠ [.entry "-"]) {p : Path} :
    p ∈ d.declarationFiles root ↔ ∃ names name content,
      d.at? (dir ++ (names ++ [name])) = some (.file content) ∧
        (∀ n ∈ names ++ [name], n.startsWith "." = false) ∧
        (∃ stem ext, name.toList = stem ++ '.' :: ext ∧ '.' ∉ ext ∧
          String.ofList ext ∈ DeclarationFile.extensions) ∧
        p = root.join (String.intercalate "/" (names ++ [name])) := by
  have htext := text_ne_empty_of_locate hlocate
  rw [mem_declarationFiles_iff, mem_walkedFiles hroot hlocate hdirectory]
  constructor
  · rintro ⟨⟨all, content, hx, hwalked, rfl⟩, hsupported⟩
    have hne := (isWalked_append.mp hwalked).1
    obtain ⟨-, hshown⟩ := (isWalked_of_unruled hrules hne).mp hwalked
    obtain ⟨names, name, rfl⟩ : ∃ names name, all = names ++ [name] :=
      ⟨all.dropLast, all.getLast hne, (List.dropLast_concat_getLast hne).symm⟩
    have hnames : ∀ n ∈ names ++ [name], IsName n := fun n hn =>
      htree.names _ hx n (List.mem_append_right dir hn)
    refine ⟨names, name, content, at?_eq_file.mpr hx, hshown, ?_, rfl⟩
    obtain ⟨ext, hext, hmem⟩ := isSupported_iff.mp hsupported
    rw [extension?_join htext hnames, Option.map_eq_some_iff] at hext
    obtain ⟨ext, hext, rfl⟩ := hext
    have hname : name.startsWith "." = false := hshown name List.mem_concat_self
    obtain ⟨stem, hstem, hdot⟩ := (extensionOfName?_of_not_hidden hname).mp hext
    exact ⟨stem, ext, hstem, hdot, hmem⟩
  · rintro ⟨names, name, content, hfile, hshown, ⟨stem, ext, hstem, hdot, hmem⟩, rfl⟩
    have hlisted := at?_eq_file.mp hfile
    have hnames : ∀ n ∈ names ++ [name], IsName n := fun n hn =>
      htree.names _ hlisted n (List.mem_append_right dir hn)
    have hne : names ++ [name] ≠ [] := List.concat_ne_nil name names
    have hway : ∀ k, 0 < k → k < (names ++ [name]).length →
        d.at? (dir ++ (names ++ [name]).take k) = some .directory := by
      intro k _ hk
      exact directory_between htree hlisted hk
    refine ⟨⟨_, content, hlisted, ?_, rfl⟩, ?_⟩
    · exact (isWalked_of_unruled hrules hne).mpr ⟨hway, hshown⟩
    · have hname : name.startsWith "." = false := hshown name List.mem_concat_self
      have hext := (extensionOfName?_of_not_hidden hname).mpr ⟨stem, hstem, hdot⟩
      refine isSupported_iff.mpr ⟨String.ofList ext, ?_, hmem⟩
      rw [extension?_join htext hnames, hext]
      rfl

/-- Different files come up under different paths. -/
theorem pairwise_walkedFiles (htree : d.IsTree) (hlocate : d.locate root = .ok dir)
    (hdirectory : d.at? dir = some .directory) (hroot : root.components ≠ [.entry "-"]) :
    (d.walkedFiles root).Pairwise fun p q => p.key ≠ q.key := by
  have htext := text_ne_empty_of_locate hlocate
  have hdistinct : d.entries.Pairwise fun x y => x.1 ≠ y.1 := List.pairwise_map.mp d.distinct
  rw [walkedFiles_of_directory hroot hlocate hdirectory, List.pairwise_filterMap]
  refine hdistinct.imp_of_mem ?_
  intro x y hx hy hxy p hp q hq hkey
  obtain ⟨xs, _, rfl, hxs, rfl⟩ := walkedFile?_eq_some.mp hp
  obtain ⟨ys, _, rfl, hys, rfl⟩ := walkedFile?_eq_some.mp hq
  have hcomponents := component_key_injective.list_map hkey
  rw [Path.components_join htext (isWalked_append.mp hxs).1 fun n hn =>
      htree.names _ hx n (List.mem_append_right dir hn),
    Path.components_join htext (isWalked_append.mp hys).1 fun n hn =>
      htree.names _ hy n (List.mem_append_right dir hn)] at hcomponents
  have hentry : Function.Injective Path.Component.entry := fun _ _ h =>
    Path.Component.entry.inj h
  exact hxy (congrArg (dir ++ ·) (hentry.list_map (List.append_cancel_left hcomponents)))

/-- The declaration files of a walk stand in the strict order of their paths. -/
theorem pairwise_declarationFiles (htree : d.IsTree) (hlocate : d.locate root = .ok dir)
    (hdirectory : d.at? dir = some .directory) (hroot : root.components ≠ [.entry "-"]) :
    (d.declarationFiles root).Pairwise fun p q => p.key < q.key := by
  rw [declarationFiles_eq_sortBy]
  have hne := ((pairwise_walkedFiles htree hlocate hdirectory hroot).filter
    DeclarationFile.isSupported).perm (sortBy_perm Path.key _).symm Ne.symm
  refine ((pairwise_sortBy Path.key _).and hne).imp ?_
  rintro p q ⟨hle, hkey⟩
  exact lt_of_le_of_ne hle hkey

/-- A file has a form just when a walk that comes to it takes it. -/
theorem loadFile_ne_unsupported {p : Path} (h : DeclarationFile.isSupported p = true) (q : Path) :
    Input.loadFile d p ≠ .error (.unsupported q) := by
  rw [DeclarationFile.isSupported, Option.isSome_iff_exists] at h
  obtain ⟨form, hform⟩ := h
  rw [Input.loadFile, hform]
  cases d.readText p with
  | error e => exact nofun
  | ok text =>
    cases form with
    | document =>
      simp only [Input.parseDocument]
      cases DeclarationFile.ofDocument text.toList <;> exact nofun
    | lines =>
      simp only [Input.parseLines]
      cases DeclarationFile.ofLines text.toList <;> exact nofun

/-- **What a walk lists, where no rule file speaks.** A file is listed when it lies below the
directory, its name ends in an extension of a declaration file and no name on the way to it is
hidden. The list is in strict order of the paths, all of which go on from the path of the directory
as it was given, and each of which has a form that a file is read in. -/
theorem declarationFiles_are_those_below (htree : d.IsTree) (hlocate : d.locate root = .ok dir)
    (hdirectory : d.at? dir = some .directory) (hrules : d.Unruled dir)
    (hroot : root.components ≠ [.entry "-"]) :
    (∀ p, p ∈ d.declarationFiles root ↔ ∃ names name content,
      d.at? (dir ++ (names ++ [name])) = some (.file content) ∧
        (∀ n ∈ names ++ [name], n.startsWith "." = false) ∧
        (∃ stem ext, name.toList = stem ++ '.' :: ext ∧ '.' ∉ ext ∧
          String.ofList ext ∈ ["json", "jsonl", "ndjson"]) ∧
        p = root.join (String.intercalate "/" (names ++ [name]))) ∧
    (d.declarationFiles root).Pairwise (fun p q => p.order q = .lt) ∧
    (d.declarationFiles root).Nodup ∧
    ∀ p ∈ d.declarationFiles root, root.text.toList <+: p.text.toList ∧
      root.components <+: p.components ∧ ∀ q, Input.loadFile d p ≠ .error (.unsupported q) := by
  have hsorted := pairwise_declarationFiles htree hlocate hdirectory hroot
  refine ⟨?_, ?_, nodup_of_pairwise_lt hsorted, ?_⟩
  · intro p
    exact mem_declarationFiles htree hlocate hdirectory hrules hroot
  · apply hsorted.imp
    intro p q hlt
    exact (path_compares p q).eq_lt.mpr hlt
  · intro p hp
    obtain ⟨hfound, hsupported⟩ := mem_declarationFiles_iff.mp hp
    obtain ⟨names, content, hlisted, hwalked, rfl⟩ :=
      (mem_walkedFiles hroot hlocate hdirectory).mp hfound
    have hne := (isWalked_append.mp hwalked).1
    have hcomponents := Path.components_join (text_ne_empty_of_locate hlocate) hne fun n hn =>
      htree.names _ hlisted n (List.mem_append_right dir hn)
    refine ⟨root.text_prefix_join _, ?_, ?_⟩
    · rw [hcomponents]
      exact List.prefix_append _ _
    · exact loadFile_ne_unsupported hsupported

/-- Below `w` lie a declaration file in a directory that is named like one, and one in a hidden
directory. -/
theorem declarationFiles_are_those_below_nested :
    let d : Disk := {
      entries := [(["w", "x.jsonl", "c.json"], .file .empty),
        (["w", ".d", "a.json"], .file .empty)] }
    d.IsTree ∧ d.locate ⟨"w/"⟩ = .ok ["w"] ∧ d.at? ["w"] = some .directory ∧ d.Unruled ["w"] ∧
      (⟨"w/"⟩ : Path).components ≠ [.entry "-"] ∧ ⟨"w/x.jsonl/c.json"⟩ ∈ d.declarationFiles ⟨"w/"⟩ ∧
      (d.declarationFiles ⟨"w/"⟩).Nodup := by
  intro d
  have htree : d.IsTree := ⟨by decide, by decide⟩
  have hlocate : d.locate ⟨"w/"⟩ = .ok ["w"] := by decide +kernel
  have hdirectory : d.at? ["w"] = some .directory := by decide
  have hrules : d.Unruled ["w"] := unruled_of_forall (by decide)
  have hroot : (⟨"w/"⟩ : Path).components ≠ [.entry "-"] := by decide
  obtain ⟨hmem, -, hnodup, -⟩ :=
    declarationFiles_are_those_below htree hlocate hdirectory hrules hroot
  refine ⟨htree, hlocate, hdirectory, hrules, hroot, ?_, hnodup⟩
  refine (hmem _).mpr ⟨["x.jsonl"], "c.json", .empty, by decide, by simp, ?_, by decide⟩
  exact ⟨['c'], ['j', 's', 'o', 'n'], by decide, by decide, by decide⟩

/-- **A directory that is named `-` is not walked**, although a path with a slash behind that name
leads to it and a declaration file lies in it. -/
theorem declarationFiles_standard :
    let d : Disk := { entries := [(["-", "a.json"], .file .empty)] }
    d.IsTree ∧ d.locate ⟨"-/"⟩ = .ok ["-"] ∧ d.at? ["-"] = some .directory ∧ d.Unruled ["-"] ∧
      d.at? (["-"] ++ ["a.json"]) = some (.file .empty) ∧
      (⟨"-/"⟩ : Path).join "a.json" ∉ d.declarationFiles ⟨"-/"⟩ := by
  intro d
  have hlocate : d.locate ⟨"-/"⟩ = .ok ["-"] := by decide +kernel
  refine ⟨⟨by decide, by decide⟩, hlocate, by decide, unruled_of_forall (by decide), by decide, ?_⟩
  rw [declarationFiles_of_standard (by decide)]
  exact List.not_mem_nil

end Below

end SuffixLint.Disk
