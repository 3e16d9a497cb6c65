import SuffixLint.Proofs.Disk.Write
import SuffixLint.Proofs.Path
/-!
# Disks as trees

A disk lists files by their locations, and a location is any list of texts. What is read from a
real disk says more: the texts are names, and nothing lies below a file (`IsTree`). On such a disk
the directories above a file are there (`directory_above`), and a path that goes on by the names
from a directory to what lies below it leads there (`locate_join`).
-/

namespace SuffixLint.Disk

variable {d : Disk} {dir l m : Location}

/-- A disk that is a tree: locations are made of names, and only directories have something below
them. -/
structure IsTree (d : Disk) : Prop where
  names : ∀ e ∈ d.entries, ∀ n ∈ e.1, IsName n
  above : ∀ e ∈ d.entries, ∀ below ∈ d.entries, e.1 <+: below.1 → e.1 ≠ below.1 → e.2 = .directory

/-! ## What is listed -/

theorem lookup_of_mem_of_nodup {entries : List (Location × Entry)}
    (hdistinct : (entries.map Prod.fst).Nodup) {e : Entry} (h : (l, e) ∈ entries) :
    entries.lookup l = some e := by
  induction entries with
  | nil => cases h
  | cons x entries ih =>
    rw [List.map_cons, List.nodup_cons] at hdistinct
    rcases List.mem_cons.mp h with rfl | hbehind
    · exact List.lookup_cons_self
    · have hne : (l == x.1) = false := by
        rw [beq_eq_false_iff_ne]
        rintro rfl
        exact hdistinct.1 (List.mem_map.mpr ⟨(x.1, e), hbehind, rfl⟩)
      rw [List.lookup_cons, hne]
      exact ih hdistinct.2 hbehind

/-- At most one entry is listed for a location, so a listed one is found. -/
theorem lookup_of_mem {e : Entry} (h : (l, e) ∈ d.entries) : d.entries.lookup l = some e :=
  lookup_of_mem_of_nodup d.distinct h

theorem mem_of_lookup {e : Entry} (h : d.entries.lookup l = some e) : (l, e) ∈ d.entries := by
  obtain ⟨before, behind, hentries, -⟩ := List.lookup_eq_some_iff.mp h
  rw [hentries]
  exact List.mem_append_right before List.mem_cons_self

/-- A file lies just where one is listed. -/
theorem at?_eq_file {content : ByteArray} :
    d.at? l = some (.file content) ↔ (l, .file content) ∈ d.entries := by
  constructor
  · intro h
    unfold at? at h
    split at h
    · rename_i hlookup
      rw [h] at hlookup
      exact mem_of_lookup hlookup
    · split at h <;> cases h
  · intro h
    unfold at?
    rw [lookup_of_mem h]

/-- Above something that is listed there are directories only. -/
theorem directory_above (htree : d.IsTree) {e : Entry} (h : (l, e) ∈ d.entries)
    (hfront : m <+: l) (hne : m ≠ l) : d.at? m = some .directory := by
  unfold at?
  split
  · rename_i found hlookup
    exact congrArg some (htree.above _ (mem_of_lookup hlookup) _ h hfront hne)
  · have habove : d.isAbove m = true := by
      rw [isAbove, Bool.or_eq_true, List.any_eq_true]
      exact Or.inr ⟨(l, e), h, List.isPrefixOf_iff_prefix.mpr hfront⟩
    rw [if_pos habove]

/-- Between a directory and what lies below it there are directories only. -/
theorem directory_between (htree : d.IsTree) {names : List String} {e : Entry}
    (h : (dir ++ names, e) ∈ d.entries) {k : Nat} (hk : k < names.length) :
    d.at? (dir ++ names.take k) = some .directory := by
  apply directory_above htree h
  · exact (List.prefix_append_right_inj dir).mpr (List.take_prefix k names)
  · intro heq
    have hlength := congrArg List.length (List.append_cancel_left heq)
    rw [List.length_take] at hlength
    omega

/-! ## Following names -/

/-- From a directory a name leads to what lies in it by that name. -/
theorem step_of_isName {n : String} (hn : IsName n) (h : d.at? l = some .directory) :
    d.step l n.toList = .ok (l ++ [n]) := by
  rw [step, h]
  simp only [Path.ofPiece?_of_isName hn]

/-- Names lead from directory to directory, and from the last one to whatever has the last name. -/
theorem follow_names {names : List String} (hnames : ∀ n ∈ names, IsName n)
    (h : ∀ k < names.length, d.at? (l ++ names.take k) = some .directory) :
    d.follow l (names.map String.toList) = .ok (l ++ names) := by
  induction names generalizing l with
  | nil => rw [List.map_nil, follow, List.append_nil]
  | cons n names ih =>
    have hhere : d.at? l = some .directory := by
      have hfirst := h 0 (Nat.succ_pos names.length)
      rwa [List.take_zero, List.append_nil] at hfirst
    have hbehind : ∀ k < names.length, d.at? (l ++ [n] ++ names.take k) = some .directory := by
      intro k hk
      have hnext := h (k + 1) (Nat.succ_lt_succ hk)
      rwa [List.take_succ_cons, List.append_cons] at hnext
    rw [List.map_cons, follow_cons_eq_ok]
    refine ⟨l ++ [n], step_of_isName (hnames n List.mem_cons_self) hhere, ?_⟩
    rw [ih (fun m hm => hnames m (List.mem_cons_of_mem n hm)) hbehind, ← List.append_cons]

/-- An empty piece leads nowhere else. -/
theorem eq_of_step_nil (h : d.step l [] = .ok m) : m = l := by
  have hdirectory := directory_of_step h
  rw [step, hdirectory] at h
  exact (Except.ok.inj h).symm

/-- A path that goes on starts where the path starts that it goes on from. -/
theorem start_join {p : Path} (hp : p.text ≠ "") (name : String) :
    d.start (p.join name) = d.start p := by
  have hslash : (p.join name).text.startsWith "/" = p.text.startsWith "/" := by
    rw [Bool.eq_iff_iff, String.startsWith_string_iff, String.startsWith_string_iff]
    obtain ⟨more, hmore⟩ := p.text_prefix_join name
    rw [← hmore]
    cases htext : p.text.toList with
    | nil => exact absurd (String.toList_eq_nil_iff.mp htext) hp
    | cons c cs =>
      have hone : "/".toList = ['/'] := rfl
      rw [hone, List.cons_append, List.cons_prefix_cons, List.cons_prefix_cons]
      simp only [List.nil_prefix]
  rw [start, start, hslash]

/-- A path that goes on leads first to where the path leads that it goes on from. -/
theorem exists_pieces_join {root : Path} (hroot : d.locate root = .ok dir) (name : String) :
    ∃ pieces, Path.splitSlashes (root.join name).text.toList =
        pieces ++ Path.splitSlashes name.toList ∧
      d.follow (d.start (root.join name)) pieces = .ok dir ∧ (root.join name).text ≠ "" := by
  have hfollow : root.text ≠ "" ∧
      d.follow (d.start root) (Path.splitSlashes root.text.toList) = .ok dir := by
    unfold locate at hroot
    split at hroot
    · cases hroot
    · rename_i hempty
      exact ⟨fun htext => hempty (String.isEmpty_iff.mpr htext), hroot⟩
  obtain ⟨htext, hfollow⟩ := hfollow
  obtain ⟨pieces, -, hends, hjoin⟩ := Path.splitSlashes_join htext name
  refine ⟨pieces, hjoin, ?_, ?_⟩
  · rw [start_join htext]
    rcases hends with hends | hends
    · rwa [hends] at hfollow
    · -- the slash at the end of the path leads nowhere else
      rw [hends, follow_append_eq_ok] at hfollow
      obtain ⟨m, hm, hlast⟩ := hfollow
      obtain ⟨n, hstep, hend⟩ := follow_cons_eq_ok.mp hlast
      obtain rfl : n = dir := Except.ok.inj hend
      rw [hm, eq_of_step_nil hstep]
  · intro hempty
    have hfront := root.text_prefix_join name
    rw [hempty] at hfront
    exact htext (String.toList_eq_nil_iff.mp (List.prefix_nil.mp hfront))

/-- **A path that goes on by names from a directory leads to what lies there**, as long as all names
but the last are names of directories. -/
theorem locate_join {root : Path} (hroot : d.locate root = .ok dir) {names : List String}
    (hne : names ≠ []) (hnames : ∀ n ∈ names, IsName n)
    (h : ∀ k < names.length, d.at? (dir ++ names.take k) = some .directory) :
    d.locate (root.join (String.intercalate "/" names)) = .ok (dir ++ names) := by
  obtain ⟨pieces, hjoin, hpieces, hfull⟩ :=
    exists_pieces_join hroot (String.intercalate "/" names)
  rw [locate, if_neg fun hempty => hfull (String.isEmpty_iff.mp hempty), hjoin,
    Path.splitSlashes_intercalate hne hnames, follow_append_eq_ok]
  exact ⟨dir, hpieces, follow_names hnames h⟩

/-- A text is read from a path that leads to a file of text. -/
theorem readText_eq_ok {p : Path} {text : String} : d.readText p = .ok text ↔
    ∃ l content, d.locate p = .ok l ∧ d.at? l = some (.file content) ∧
      decodeText content = .ok text := by
  rw [readText, find]
  cases d.locate p with
  | error refusal => simp
  | ok l =>
    cases hl : d.at? l with
    | none => simp [hl]
    | some e =>
      cases e with
      | file content => simp [hl]
      | directory => simp [hl]

/-- A path that ends in a name leads to the file of that name, if it leads to a file. -/
theorem getLast?_of_locate {p : Path} (h : d.locate p = .ok l) {content : ByteArray}
    (hfile : d.at? l = some (.file content)) {name : String} (hname : p.fileName? = some name) :
    l.getLast? = some name := by
  have hne := Path.splitSlashes_ne_nil p.text.toList
  have hpieces : Path.splitSlashes p.text.toList = _ := (List.dropLast_concat_getLast hne).symm
  unfold locate at h
  split at h
  · cases h
  rw [hpieces, follow_append_eq_ok] at h
  obtain ⟨parent, -, hlast⟩ := h
  obtain ⟨end', hstep, hend⟩ := follow_cons_eq_ok.mp hlast
  obtain rfl : end' = l := Except.ok.inj hend
  have hparent := directory_of_step hstep
  rw [step, hparent] at hstep
  simp only at hstep
  unfold Path.fileName? at hname
  split at hstep
  · rename_i entry hentry
    rw [Path.getLast?_components hpieces hentry] at hname
    obtain rfl : entry = name := Option.some.inj hname
    rw [← Except.ok.inj hstep, List.getLast?_concat]
  · rename_i hup
    rw [Path.getLast?_components hpieces hup] at hname
    cases hname
  · -- a piece that says nothing leaves the path in a directory
    obtain rfl : parent = end' := Except.ok.inj hstep
    rw [hparent] at hfile
    cases hfile

/-- A path that goes on by names from a directory leads to what is listed there. -/
theorem locate_listed (htree : d.IsTree) {root : Path} (hroot : d.locate root = .ok dir)
    {names : List String} (hne : names ≠ []) {e : Entry} (h : (dir ++ names, e) ∈ d.entries) :
    d.locate (root.join (String.intercalate "/" names)) = .ok (dir ++ names) := by
  apply locate_join hroot hne
  · intro n hn
    exact htree.names _ h n (List.mem_append_right dir hn)
  · intro k hk
    exact directory_between htree h hk

end SuffixLint.Disk
