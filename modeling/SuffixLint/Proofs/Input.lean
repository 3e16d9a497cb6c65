import SuffixLint.Proofs.Disk.Extra
import SuffixLint.Proofs.Except
/-!
# What inputs give

Each input gives declarations on its own, or an error if it is named and does not load (`given`).
Loading inputs puts together what they give, in their order, and stops at the first error
(`load_cons`), so every statement on many inputs is one induction over that equation.

A walk passes over a file that does not load. So such a file may be laid into a directory that is
walked, or taken out of it, and the inputs give what they gave before (`given_extra`). An input that
is the file itself, or that is to be reached by way of it, is refused either way, if for another
reason.
-/

namespace SuffixLint

open Log

namespace Input

variable {d : Disk} {stdin : ByteArray} {inputs : List Path} {p q : Path} {ds : List Declaration}
  {e : InputError}

/-! ## One file -/

/-- The declarations in a file, none if the file does not load. -/
def loaded (d : Disk) (p : Path) : List Declaration :=
  (loadFile d p).toOption.getD []

theorem loaded_of_ok (h : loadFile d p = .ok ds) : loaded d p = ds := by
  rw [loaded, h]
  rfl

theorem loaded_of_error (h : loadFile d p = .error e) : loaded d p = [] := by
  rw [loaded, h]
  rfl

/-- The declarations that a text of a form lists, if it is a text of that form. -/
def listed? (text : List Char) : DeclarationFile.Form → Option (List Declaration)
  | .document => (DeclarationFile.ofDocument text).toOption
  | .lines => (DeclarationFile.ofLines text).toOption

/-- A file loads by its form, what is read from it, and what that lists. -/
theorem loadFile_eq_ok : loadFile d p = .ok ds ↔ ∃ form text,
    DeclarationFile.Form.ofPath? p = some form ∧ d.readText p = .ok text ∧
      listed? text.toList form = some ds := by
  unfold loadFile
  cases DeclarationFile.Form.ofPath? p with
  | none => simp
  | some form =>
    cases d.readText p with
    | error e => simp
    | ok text =>
      cases form with
      | document => simp [parseDocument, mapError_eq_ok, listed?, toOption_eq_some]
      | lines => simp [parseLines, mapError_eq_ok, listed?, toOption_eq_some]

/-- The error of a file names the file. -/
theorem path_of_loadFile (h : loadFile d p = .error e) : e.path = p := by
  unfold loadFile at h
  split at h
  · cases h
    rfl
  split at h
  · cases h
    rfl
  split at h
  · obtain ⟨cause, -, rfl⟩ := mapError_eq_error.mp h
    rfl
  · obtain ⟨cause, -, rfl⟩ := mapError_eq_error.mp h
    rfl

/-! ## One input -/

/-- What an input other than standard input gives. -/
def given (d : Disk) (p : Path) : Except InputError (List Declaration) :=
  if d.isDirectory p then .ok ((d.declarationFiles p).flatMap (loaded d)) else loadFile d p

/-- The share that an input has in what is loaded. -/
def share (d : Disk) (p : Path) : List Declaration :=
  if d.isDirectory p then (d.declarationFiles p).flatMap (loaded d) else loaded d p

/-- A directory always gives something, a file when it loads. -/
theorem given_eq_ok : given d p = .ok ds ↔
    (d.isDirectory p = false → ∃ ds, loadFile d p = .ok ds) ∧ ds = share d p := by
  unfold given share
  by_cases hdirectory : d.isDirectory p = true
  · rw [if_pos hdirectory, if_pos hdirectory, Except.ok.injEq, hdirectory]
    simp [eq_comm]
  · rw [if_neg hdirectory, if_neg hdirectory]
    rw [Bool.not_eq_true] at hdirectory
    constructor
    · intro hload
      exact ⟨fun _ => ⟨ds, hload⟩, (loaded_of_ok hload).symm⟩
    · rintro ⟨hload, rfl⟩
      obtain ⟨ds, hds⟩ := hload hdirectory
      rw [hds, loaded_of_ok hds]

theorem given_eq_error : given d p = .error e ↔ d.isDirectory p = false ∧ loadFile d p = .error e := by
  unfold given
  by_cases hdirectory : d.isDirectory p = true
  · simp [hdirectory]
  · simp [hdirectory]

/-! ## Inputs -/

/-- Of the files of a walk those that do not load are passed over. -/
theorem value_loadThose (d : Disk) (ps : List Path) :
    (loadThose d ps).value = ps.flatMap (loaded d) := by
  induction ps with
  | nil => rfl
  | cons p ps ih =>
    rw [List.flatMap_cons, ← ih, loadThose]
    cases hload : loadFile d p with
    | error e =>
      rw [loaded_of_error hload]
      rfl
    | ok ds =>
      rw [loaded_of_ok hload]
      rfl

/-- Each file that is passed over is told of. -/
theorem mem_records_loadThose {ps : List Path} (hp : p ∈ ps) (h : loadFile d p = .error e) :
    ⟨.warn, "Skipping " ++ e.message⟩ ∈ (loadThose d ps).records := by
  induction ps with
  | nil => cases hp
  | cons q ps ih =>
    rw [loadThose]
    rcases List.mem_cons.mp hp with rfl | hp
    · rw [h]
      exact List.mem_cons_self
    · cases loadFile d q with
      | error e' => exact List.mem_append_right _ (ih hp)
      | ok ds => exact List.mem_append_left _ (ih hp)

theorem value_loadDirectory (d : Disk) (root : Path) :
    (loadDirectory d root).value = (d.declarationFiles root).flatMap (loaded d) := by
  rw [loadDirectory]
  simp only [Logged.value_bind, value_loadThose]

theorem value_loadOne (hp : p ≠ standard) : (loadOne d stdin p).value = given d p := by
  rw [loadOne, if_neg hp, given]
  by_cases hdirectory : d.isDirectory p = true
  · rw [if_pos hdirectory, if_pos hdirectory]
    simp only [Logged.value_bind, Logged.value_pure, value_loadDirectory]
  · rw [if_neg hdirectory, if_neg hdirectory]
    cases loadFile d p with
    | error e => rfl
    | ok ds => rfl

theorem value_load (d : Disk) (stdin : ByteArray) (inputs : List Path) :
    (load d stdin inputs).value = (loadEach d stdin inputs).value := by
  rw [load, Logged.value_bind]
  cases (loadEach d stdin inputs).value with
  | error e => rfl
  | ok ds => rfl

theorem load_nil (d : Disk) (stdin : ByteArray) : (load d stdin []).value = .ok [] := by
  rw [value_load, loadEach, Logged.value_pure]

/-- **Inputs are loaded one after the other**, up to the first that is refused. -/
theorem load_cons (hp : p ≠ standard) : (load d stdin (p :: inputs)).value =
    (given d p).bind fun ds => (load d stdin inputs).value.map (ds ++ ·) := by
  rw [value_load, value_load, loadEach, Logged.value_bind, value_loadOne hp]
  cases given d p with
  | error e => rfl
  | ok ds =>
    simp only [if_neg hp, Logged.value_bind, Except.bind]
    cases (loadEach d stdin inputs).value with
    | error e => rfl
    | ok more => rfl

/-- What is loaded is the share of each input, and there is an error just if an input is named and
does not load. -/
theorem load_eq_ok (h : standard ∉ inputs) : (load d stdin inputs).value = .ok ds ↔
    (∀ p ∈ inputs, d.isDirectory p = false → ∃ ds, loadFile d p = .ok ds) ∧
      ds = inputs.flatMap (share d) := by
  induction inputs generalizing ds with
  | nil =>
    rw [load_nil, Except.ok.injEq, List.flatMap_nil, eq_comm]
    exact (and_iff_right nofun).symm
  | cons p inputs ih =>
    obtain ⟨hp, hinputs⟩ := not_or.mp (List.mem_cons.not.mp h)
    have hsplit : (load d stdin (p :: inputs)).value = .ok ds ↔
        ∃ first, given d p = .ok first ∧
          ∃ others, (load d stdin inputs).value = .ok others ∧ first ++ others = ds := by
      rw [load_cons (Ne.symm hp)]
      cases given d p with
      | error e => simp [Except.bind]
      | ok first =>
        cases (load d stdin inputs).value with
        | error e => simp [Except.bind, Except.map]
        | ok others => simp [Except.bind, Except.map]
    rw [hsplit, List.flatMap_cons, List.forall_mem_cons]
    constructor
    · rintro ⟨first, hfirst, others, hothers, rfl⟩
      obtain ⟨hloads, rfl⟩ := given_eq_ok.mp hfirst
      obtain ⟨hrest, rfl⟩ := (ih hinputs).mp hothers
      exact ⟨⟨hloads, hrest⟩, rfl⟩
    · rintro ⟨⟨hloads, hrest⟩, rfl⟩
      exact ⟨share d p, given_eq_ok.mpr ⟨hloads, rfl⟩, _, (ih hinputs).mpr ⟨hrest, rfl⟩, rfl⟩

/-- The first input that is named and does not load decides the error. -/
theorem load_eq_error (h : standard ∉ inputs) : (load d stdin inputs).value = .error e ↔
    ∃ before p behind, inputs = before ++ p :: behind ∧
      (d.isDirectory p = false ∧ loadFile d p = .error e) ∧
        ∀ q ∈ before, d.isDirectory q = false → ∃ ds, loadFile d q = .ok ds := by
  induction inputs with
  | nil =>
    rw [load_nil]
    simp
  | cons p inputs ih =>
    obtain ⟨hp, hinputs⟩ := not_or.mp (List.mem_cons.not.mp h)
    have hsplit : (load d stdin (p :: inputs)).value = .error e ↔
        given d p = .error e ∨
          (∃ first, given d p = .ok first) ∧ (load d stdin inputs).value = .error e := by
      rw [load_cons (Ne.symm hp)]
      cases given d p with
      | error e => simp [Except.bind]
      | ok first =>
        cases (load d stdin inputs).value with
        | error e => simp [Except.bind, Except.map]
        | ok others => simp [Except.bind, Except.map]
    rw [hsplit, ih hinputs, given_eq_error]
    constructor
    · rintro (hrefused | ⟨⟨first, hfirst⟩, before, q, behind, rfl, hrefused, hloads⟩)
      · exact ⟨[], p, inputs, rfl, hrefused, nofun⟩
      · refine ⟨p :: before, q, behind, rfl, hrefused, ?_⟩
        rw [List.forall_mem_cons]
        exact ⟨(given_eq_ok.mp hfirst).1, hloads⟩
    · rintro ⟨before, q, behind, heq, hrefused, hloads⟩
      cases before with
      | nil =>
        obtain ⟨rfl, rfl⟩ := List.cons.inj heq
        exact Or.inl hrefused
      | cons first before =>
        obtain ⟨rfl, rfl⟩ := List.cons.inj heq
        rw [List.forall_mem_cons] at hloads
        refine Or.inr ⟨⟨share d p, given_eq_ok.mpr ⟨hloads.1, rfl⟩⟩, ?_⟩
        exact ⟨before, q, behind, rfl, hrefused, hloads.2⟩

/-- Inputs that give the same, up to a view of their errors, are loaded alike up to that view. -/
theorem load_congr {d' : Disk} {ε : Type} {view : InputError → ε} (h : standard ∉ inputs)
    (hgiven : ∀ p ∈ inputs, (given d p).mapError view = (given d' p).mapError view) :
    (load d stdin inputs).value.mapError view = (load d' stdin inputs).value.mapError view := by
  induction inputs with
  | nil => rw [load_nil, load_nil]
  | cons p inputs ih =>
    obtain ⟨hp, hinputs⟩ := not_or.mp (List.mem_cons.not.mp h)
    rw [List.forall_mem_cons] at hgiven
    obtain ⟨hfirst, hothers⟩ := hgiven
    have hrest := ih hinputs hothers
    rw [load_cons (Ne.symm hp), load_cons (Ne.symm hp)]
    cases hd : given d p with
    | error e =>
      rw [hd] at hfirst
      obtain ⟨e', he', hview⟩ := mapError_eq_error.mp hfirst.symm
      rw [he']
      exact congrArg Except.error hview.symm
    | ok ds =>
      rw [hd] at hfirst
      rw [mapError_eq_ok.mp hfirst.symm]
      simp only [Except.bind]
      cases hload : (load d stdin inputs).value with
      | error e =>
        rw [hload] at hrest
        obtain ⟨e', he', hview⟩ := mapError_eq_error.mp hrest.symm
        rw [he']
        exact congrArg Except.error hview.symm
      | ok more =>
        rw [hload] at hrest
        rw [mapError_eq_ok.mp hrest.symm]

/-! ## Refused inputs

Here standard input may be among the inputs. It is read to its end where it is first named, so where
it is named again nothing is left of it, and nothing is never refused. -/

/-- An input is refused: it is no directory and does not load. -/
def Refused (d : Disk) (stdin : ByteArray) (p : Path) : Prop :=
  if p = standard then ∃ e, loadStandard stdin = .error e
  else d.isDirectory p = false ∧ ∃ e, loadFile d p = .error e

theorem loadStandard_empty : loadStandard .empty = .ok [] := by
  decide +kernel

/-- Of one input there is an error just if it is refused. -/
theorem exists_loadOne_eq_error_iff :
    (∃ e, (loadOne d stdin p).value = .error e) ↔ Refused d stdin p := by
  unfold Refused
  by_cases hp : p = standard
  · rw [if_pos hp, loadOne, if_pos hp]
    cases loadStandard stdin with
    | error e => rfl
    | ok ds => simp
  · rw [if_neg hp, value_loadOne hp]
    simp only [given_eq_error, exists_and_left]

/-- Once standard input has been read, the same other inputs are refused as before, and standard
input is not. -/
theorem refused_empty_iff : Refused d .empty p ↔ p ≠ standard ∧ Refused d stdin p := by
  unfold Refused
  by_cases hp : p = standard
  · rw [if_pos hp, loadStandard_empty]
    simp [hp]
  · simp [hp]

/-- **Inputs are refused just if one of them is**, wherever it stands among them. -/
theorem exists_load_eq_error_iff :
    (∃ e, (load d stdin inputs).value = .error e) ↔ ∃ p ∈ inputs, Refused d stdin p := by
  rw [value_load]
  induction inputs generalizing stdin with
  | nil => simp [loadEach]
  | cons p inputs ih =>
    have hfirst : (∃ e, (loadOne d stdin p).value = .error e) ↔ Refused d stdin p :=
      exists_loadOne_eq_error_iff
    rw [loadEach, Logged.value_bind, List.exists_mem_cons_iff]
    cases hone : (loadOne d stdin p).value with
    | error e =>
      have hrefused : Refused d stdin p := hfirst.mp ⟨e, hone⟩
      simp [hrefused]
    | ok ds =>
      have hloads : ¬Refused d stdin p := by
        rw [← hfirst, hone]
        simp
      have hrest : (∃ e, (loadEach d (if p = standard then .empty else stdin) inputs).value =
          .error e) ↔ ∃ q ∈ inputs, Refused d stdin q := by
        rw [ih]
        by_cases hp : p = standard
        · -- the first input loads, so standard input is refused nowhere
          rw [if_pos hp]
          apply exists_congr
          intro q
          have hempty : Refused d .empty q ↔ q ≠ standard ∧ Refused d stdin q := refused_empty_iff
          rw [hempty]
          constructor
          · exact fun h => ⟨h.1, h.2.2⟩
          · rintro ⟨hq, hrefused⟩
            refine ⟨hq, ?_, hrefused⟩
            rintro rfl
            exact hloads (hp ▸ hrefused)
        · rw [if_neg hp]
      rw [or_iff_right hloads, ← hrest, Logged.value_bind]
      cases (loadEach d (if p = standard then .empty else stdin) inputs).value with
      | error e => simp
      | ok more => simp

/-! ## A file more or less -/

/-- Whether a file loads does not depend on the path that leads to it. -/
theorem not_loads_of_locate {l : Location} {content : ByteArray}
    (hfile : d.at? l = some (.file content)) (hp : d.locate p = .ok l) (hq : d.locate q = .ok l)
    (hsupported : DeclarationFile.isSupported p = true) (hload : loadFile d p = .error e) :
    loadFile d q ≠ .ok ds := by
  intro hloads
  obtain ⟨form, text, hform, htext, hds⟩ := loadFile_eq_ok.mp hloads
  have hsupported' : DeclarationFile.isSupported q = true := by
    rw [DeclarationFile.isSupported, hform, Option.isSome_some]
  obtain ⟨name, hname⟩ := Disk.exists_fileName?_of_isSupported hsupported
  obtain ⟨name', hname'⟩ := Disk.exists_fileName?_of_isSupported hsupported'
  -- both paths end in the name of the file
  have hsame : p.fileName? = q.fileName? := by
    rw [hname, hname', ← Disk.getLast?_of_locate hp hfile hname,
      Disk.getLast?_of_locate hq hfile hname']
  have hread : d.readText p = .ok text := by
    rw [Disk.readText_eq_ok] at htext ⊢
    obtain ⟨l', content', hl', hcontent'⟩ := htext
    rw [hq, Except.ok.injEq] at hl'
    subst hl'
    exact ⟨l, content', hp, hcontent'⟩
  rw [← Disk.ofPath?_congr hsame] at hform
  rw [loadFile_eq_ok.mpr ⟨form, text, hform, hread, hds⟩] at hload
  cases hload

/-- Leaving out a file that does not load leaves out no declarations. -/
theorem flatMap_loaded_filter {l : Location}
    (hbad : ∀ q ds, d.locate q = .ok l → loadFile d q ≠ .ok ds) (ps : List Path) :
    (ps.filter fun q => d.locate q ≠ .ok l).flatMap (loaded d) = ps.flatMap (loaded d) := by
  induction ps with
  | nil => rfl
  | cons p ps ih =>
    by_cases hp : d.locate p = .ok l
    · have hnone : loaded d p = [] := by
        cases hload : loadFile d p with
        | ok ds => exact absurd hload (hbad p ds hp)
        | error e => exact loaded_of_error hload
      rw [List.filter_cons_of_neg (by simpa using hp), List.flatMap_cons, hnone, ih,
        List.nil_append]
    · rw [List.filter_cons_of_pos (by simpa using hp), List.flatMap_cons, List.flatMap_cons, ih]

section Extra

variable {less more : Disk} {l : Location} (h : Disk.Extra less more l)
include h

/-- Files load on both disks or on neither when the extra file does not load. -/
theorem loadFile_extra (hbad : ∀ q ds, more.locate q = .ok l → loadFile more q ≠ .ok ds) :
    loadFile less q = .ok ds ↔ loadFile more q = .ok ds := by
  constructor
  · intro hless
    obtain ⟨form, text, hform, htext, hds⟩ := loadFile_eq_ok.mp hless
    obtain ⟨m, content, hm, hfile, hcontent⟩ := Disk.readText_eq_ok.mp htext
    have helse : m ≠ l := by
      rintro rfl
      rw [h.missing] at hfile
      cases hfile
    rw [h.elsewhere m helse] at hfile
    have hread := Disk.readText_eq_ok.mpr ⟨m, content, h.locate_iff.mp hm, hfile, hcontent⟩
    exact loadFile_eq_ok.mpr ⟨form, text, hform, hread, hds⟩
  · intro hmore
    obtain ⟨form, text, hform, htext, hds⟩ := loadFile_eq_ok.mp hmore
    obtain ⟨m, content, hm, hfile, hcontent⟩ := Disk.readText_eq_ok.mp htext
    have helse : m ≠ l := by
      rintro rfl
      exact hbad q ds hm hmore
    rw [← h.elsewhere m helse] at hfile
    have hread := Disk.readText_eq_ok.mpr ⟨m, content, h.locate_iff.mpr hm, hfile, hcontent⟩
    exact loadFile_eq_ok.mpr ⟨form, text, hform, hread, hds⟩

theorem loaded_extra (hbad : ∀ q ds, more.locate q = .ok l → loadFile more q ≠ .ok ds) :
    loaded less q = loaded more q := by
  cases hmore : loadFile more q with
  | ok ds => rw [loaded_of_ok hmore, loaded_of_ok ((loadFile_extra h hbad).mpr hmore)]
  | error e =>
    cases hless : loadFile less q with
    | ok ds =>
      rw [loadFile_extra h hbad, hmore] at hless
      cases hless
    | error e' => rw [loaded_of_error hmore, loaded_of_error hless]

/-- **A walk passes over the extra file**, if it does not load. -/
theorem share_extra (hless : less.IsTree) (hmore : more.IsTree)
    (hbad : ∀ q ds, more.locate q = .ok l → loadFile more q ≠ .ok ds)
    (hrules : ∀ place, ∀ file ∈ [".git"] :: Disk.ruleFiles, place ++ file ≠ l) :
    share less q = share more q := by
  have hloaded : loaded less = loaded more := by
    funext q
    exact loaded_extra h hbad
  unfold share
  rw [h.isDirectory_eq, hloaded]
  by_cases hdirectory : more.isDirectory q = true
  · rw [if_pos hdirectory, if_pos hdirectory,
      ← h.declarationFiles_filter hless hmore hrules hdirectory]
    exact flatMap_loaded_filter hbad _
  · rw [if_neg hdirectory, if_neg hdirectory]

/-- Every input gives the same on both disks, or an error with the same path. -/
theorem given_extra (hless : less.IsTree) (hmore : more.IsTree)
    (hbad : ∀ q ds, more.locate q = .ok l → loadFile more q ≠ .ok ds)
    (hrules : ∀ place, ∀ file ∈ [".git"] :: Disk.ruleFiles, place ++ file ≠ l) :
    (given less q).mapError InputError.path = (given more q).mapError InputError.path := by
  have hok : ∀ ds, given less q = .ok ds ↔ given more q = .ok ds := by
    intro ds
    simp only [given_eq_ok, h.isDirectory_eq, loadFile_extra h hbad,
      share_extra h hless hmore hbad hrules]
  cases hgiven : given more q with
  | ok ds =>
    rw [(hok ds).mpr hgiven]
  | error e =>
    cases hgiven' : given less q with
    | ok ds =>
      rw [hok, hgiven] at hgiven'
      cases hgiven'
    | error e' =>
      have hpath := path_of_loadFile (given_eq_error.mp hgiven).2
      have hpath' := path_of_loadFile (given_eq_error.mp hgiven').2
      exact congrArg Except.error (hpath'.trans hpath.symm)

/-- An input that does not name the extra file gives the same on both disks. -/
theorem given_extra_away (hless : less.IsTree) (hmore : more.IsTree)
    (hbad : ∀ q ds, more.locate q = .ok l → loadFile more q ≠ .ok ds)
    (hrules : ∀ place, ∀ file ∈ [".git"] :: Disk.ruleFiles, place ++ file ≠ l)
    (hq : more.isDirectory q = false → ∀ name, l.getLast? = some name → .entry name ∉ q.components) :
    given less q = given more q := by
  by_cases hdirectory : more.isDirectory q = true
  · have hshare := share_extra h (q := q) hless hmore hbad hrules
    rw [share, share, h.isDirectory_eq, if_pos hdirectory, if_pos hdirectory] at hshare
    rw [given, given, h.isDirectory_eq, if_pos hdirectory, if_pos hdirectory, hshare]
  · rw [given, given, h.isDirectory_eq, if_neg hdirectory, if_neg hdirectory]
    rw [Bool.not_eq_true] at hdirectory
    rw [loadFile, loadFile, Disk.readText, Disk.readText, h.find_eq (hq hdirectory)]

end Extra

/-- The declaration files below a directory stand in the order of their paths. -/
theorem ordered_declarationFiles (d : Disk) (p : Path) :
    (d.declarationFiles p).Pairwise fun q q' => (q.order q').isLE := by
  rw [Disk.declarationFiles_eq_sortBy]
  apply (Sorting.pairwise_sortBy Path.key _).imp
  intro q q' hle
  rw [Ordering.isLE_iff_ne_gt]
  exact (path_compares q q').ne_gt.mpr hle

/-- **Each input in its turn.** Inputs are loaded just if those that are no directories load, and
then give what each of them gives, one behind the other: a file its declarations, a directory those
of its declaration files that load, in the order of their paths. Otherwise the first input that is no
directory and does not load decides the error. So inputs that follow others add their declarations
to those of the others. A declaration file that does not load may be laid on the disk or taken off
it: all is loaded as before, or refused on account of the same input, and for the same reason unless
an input other than a directory names the file. -/
theorem load_in_turn (d : Disk) (stdin : ByteArray) {inputs : List Path}
    (h : standard ∉ inputs) :
    ((∃ ds, (load d stdin inputs).value = .ok ds) ↔
      ∀ p ∈ inputs, d.isDirectory p = false → ∃ ds, loadFile d p = .ok ds) ∧
    (∀ ds, (load d stdin inputs).value = .ok ds → ds = inputs.flatMap fun p =>
      if d.isDirectory p then (d.declarationFiles p).flatMap (loaded d) else loaded d p) ∧
    (∀ p, (d.declarationFiles p).Pairwise fun q q' => (q.order q').isLE) ∧
    (∀ e, (load d stdin inputs).value = .error e ↔
      ∃ before p behind, inputs = before ++ p :: behind ∧
        (d.isDirectory p = false ∧ loadFile d p = .error e) ∧
          ∀ q ∈ before, d.isDirectory q = false → ∃ ds, loadFile d q = .ok ds) ∧
    (∀ others ds ds', standard ∉ others → (load d stdin inputs).value = .ok ds →
      (load d stdin others).value = .ok ds' →
        (load d stdin (inputs ++ others)).value = .ok (ds ++ ds')) ∧
    ∀ (less : Disk) (l : Location) (file : Path) (e : InputError), Disk.Extra less d l →
      less.IsTree → d.IsTree → d.locate file = .ok l →
      DeclarationFile.isSupported file = true → loadFile d file = .error e →
        (load less stdin inputs).value.mapError InputError.path =
            (load d stdin inputs).value.mapError InputError.path ∧
          ((∀ p ∈ inputs, d.isDirectory p = false →
              ∀ name, file.fileName? = some name → .entry name ∉ p.components) →
            (load less stdin inputs).value = (load d stdin inputs).value) := by
  refine ⟨?_, ?_, ordered_declarationFiles d, ?_, ?_, ?_⟩
  · constructor
    · rintro ⟨ds, hds⟩
      exact ((load_eq_ok h).mp hds).1
    · intro hloads
      exact ⟨_, (load_eq_ok h).mpr ⟨hloads, rfl⟩⟩
  · intro ds hds
    exact ((load_eq_ok h).mp hds).2
  · intro e
    exact load_eq_error h
  · intro others ds ds' hothers hds hds'
    obtain ⟨hloads, rfl⟩ := (load_eq_ok h).mp hds
    obtain ⟨hloads', rfl⟩ := (load_eq_ok hothers).mp hds'
    apply (load_eq_ok _).mpr
    · rw [List.forall_mem_append, List.flatMap_append]
      exact ⟨⟨hloads, hloads'⟩, rfl⟩
    · exact List.not_mem_append h hothers
  · intro less l file e hextra hless htree hlocate hsupported hrefused
    obtain ⟨content, hfile⟩ := hextra.file
    obtain ⟨name, hname⟩ := Disk.exists_fileName?_of_isSupported hsupported
    have hlast := Disk.getLast?_of_locate hlocate hfile hname
    have hbad : ∀ q ds, d.locate q = .ok l → loadFile d q ≠ .ok ds := by
      intro q ds hq
      exact not_loads_of_locate hfile hlocate hq hsupported hrefused
    have hrules : ∀ place, ∀ rules ∈ [".git"] :: Disk.ruleFiles, place ++ rules ≠ l := by
      intro place rules hmem
      exact Disk.append_ruleFile_ne hsupported (hname.trans hlast.symm) place hmem
    constructor
    · apply load_congr h
      intro p hp
      exact given_extra hextra hless htree hbad hrules
    · intro haway
      have hsame : (load less stdin inputs).value.mapError id =
          (load d stdin inputs).value.mapError id := by
        apply load_congr h
        intro p hp
        rw [given_extra_away hextra hless htree hbad hrules]
        intro hdirectory name' hname'
        exact haway p hp hdirectory name' (hname.trans (hlast.symm.trans hname'))
      rwa [mapError_id, mapError_id] at hsame

/-- An empty document is laid into a directory that is walked, beside a line that tells of one
declaration. -/
theorem load_in_turn_empty_document :
    let line := "\x7b\"name\":\"Load\",\"is_async\":true\x7d\n"
    let less : Disk := { entries := [(["w", "a.jsonl"], .file line.toUTF8)] }
    let more : Disk := less.put ["w", "b.json"] (.file .empty)
    standard ∉ [(⟨"w"⟩ : Path)] ∧ Disk.Extra less more ["w", "b.json"] ∧ less.IsTree ∧ more.IsTree ∧
      more.locate ⟨"w/b.json"⟩ = .ok ["w", "b.json"] ∧
      DeclarationFile.isSupported ⟨"w/b.json"⟩ = true ∧
      loadFile more ⟨"w/b.json"⟩ = .error (.badDocument ⟨"w/b.json"⟩ .endInValue) ∧
      more.isDirectory ⟨"w"⟩ = true ∧
      (load less .empty [⟨"w"⟩]).value = .ok [⟨"Load", true, none, none⟩] ∧
      (load less .empty [⟨"w"⟩]).value = (load more .empty [⟨"w"⟩]).value := by
  intro line less more
  have hstandard : standard ∉ [(⟨"w"⟩ : Path)] := by decide
  have hparent : less.at? ["w"] = some .directory := by decide
  have hnone : less.at? (["w"] ++ ["b.json"]) = none := by decide
  have hextra : Disk.Extra less more ["w", "b.json"] := Disk.extra_put hparent hnone
  have hless : less.IsTree := ⟨by decide, by decide⟩
  have hmore : more.IsTree := ⟨by decide, by decide⟩
  have hlocate : more.locate ⟨"w/b.json"⟩ = .ok ["w", "b.json"] := by decide +kernel
  have hsupported : DeclarationFile.isSupported ⟨"w/b.json"⟩ = true := by decide
  have hrefused : loadFile more ⟨"w/b.json"⟩ = .error (.badDocument ⟨"w/b.json"⟩ .endInValue) := by
    decide +kernel
  have hdirectory : more.isDirectory ⟨"w"⟩ = true := by decide +kernel
  -- the walk is computed without the empty document, and the theorem adds it
  have hloads : (load less .empty [⟨"w"⟩]).value = .ok [⟨"Load", true, none, none⟩] := by
    decide +kernel
  obtain ⟨-, -, -, -, -, hlast⟩ := load_in_turn more .empty hstandard
  refine ⟨hstandard, hextra, hless, hmore, hlocate, hsupported, hrefused, hdirectory, hloads, ?_⟩
  apply (hlast less _ _ _ hextra hless hmore hlocate hsupported hrefused).2
  intro p hp hfile
  rw [List.mem_singleton.mp hp, hdirectory] at hfile
  cases hfile

end Input

end SuffixLint
