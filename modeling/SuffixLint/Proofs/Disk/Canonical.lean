import SuffixLint.Proofs.Disk.Walk
import SuffixLint.Proofs.Except
/-!
# Canonical paths

A path is canonical when it names what it passes from the top on, without steps up and without
steps that stay. Following any path keeps to locations that names lead to (`IsReached`), and so the
canonical path of a directory leads to the directory itself (`locate_canonical`): it does not matter
by which of the two a file in the directory is looked for, or written (`target_child`).
-/

namespace SuffixLint

/-- No slash is left in a piece between slashes. -/
theorem Path.noSlash_of_mem_splitSlashes {cs piece : List Char} (h : piece ∈ splitSlashes cs) :
    '/' ∉ piece := by
  induction cs generalizing piece with
  | nil =>
    rw [splitSlashes, List.mem_singleton] at h
    rw [h]
    exact List.not_mem_nil
  | cons c cs ih =>
    by_cases hc : c = '/'
    · subst hc
      rw [splitSlashes, List.mem_cons] at h
      rcases h with rfl | h
      · exact List.not_mem_nil
      · exact ih h
    · obtain ⟨first, others, hsplit⟩ := List.exists_cons_of_ne_nil (splitSlashes_ne_nil cs)
      rw [splitSlashes_cons hc hsplit, List.mem_cons] at h
      rw [hsplit] at ih
      rcases h with rfl | h
      · have hfirst := ih List.mem_cons_self
        simp [Ne.symm hc, hfirst]
      · exact ih (List.mem_cons_of_mem first h)

/-- A piece that is the step to an entry is a name. -/
theorem Path.isName_of_ofPiece? {piece : List Char} (hslash : '/' ∉ piece) {name : String}
    (h : Component.ofPiece? piece = some (.entry name)) : IsName name := by
  unfold Component.ofPiece? at h
  split at h
  · cases h
  rename_i hsays
  split at h
  · cases h
  rename_i hup
  obtain rfl : String.ofList piece = name := by simpa using h
  rw [not_or] at hsays
  exact
    { ne_empty := by simpa using hsays.1
      noSlash := by simpa using hslash
      notHere := fun heq => hsays.2 (by simpa using congrArg String.toList heq)
      notUp := fun heq => hup (by simpa using congrArg String.toList heq) }

namespace Disk

variable {d : Disk} {l m : Location} {p : Path} {name : String}

/-- Names lead to a location from the top: there are directories above it, and nothing is in its
place that is no name. -/
structure IsReached (d : Disk) (l : Location) : Prop where
  names : ∀ n ∈ l, IsName n
  directory : ∀ k < l.length, d.at? (l.take k) = some .directory

theorem isReached_nil (d : Disk) : d.IsReached [] :=
  ⟨by simp, by simp⟩

/-- A step goes on by a name, back up, or nowhere. -/
theorem IsReached.step (h : d.IsReached l) {piece : List Char} (hslash : '/' ∉ piece)
    (hstep : d.step l piece = .ok m) : d.IsReached m := by
  have hhere := directory_of_step hstep
  rw [Disk.step, hhere] at hstep
  simp only at hstep
  split at hstep
  · rename_i n hentry
    obtain rfl : l ++ [n] = m := Except.ok.inj hstep
    refine ⟨?_, ?_⟩
    · rw [List.forall_mem_append, List.forall_mem_singleton]
      exact ⟨h.names, Path.isName_of_ofPiece? hslash hentry⟩
    · intro k hk
      rw [List.length_append, List.length_singleton] at hk
      rw [List.take_append_of_le_length (by omega)]
      by_cases hlast : k = l.length
      · rw [hlast, List.take_length, hhere]
      · exact h.directory k (by omega)
  · obtain rfl : l.dropLast = m := Except.ok.inj hstep
    refine ⟨fun n hn => h.names n ((List.dropLast_prefix l).subset hn), ?_⟩
    intro k hk
    rw [List.length_dropLast] at hk
    rw [List.dropLast_eq_take, List.take_take, Nat.min_eq_left (by omega)]
    exact h.directory k (by omega)
  · obtain rfl : l = m := Except.ok.inj hstep
    exact h

theorem IsReached.follow (h : d.IsReached l) {pieces : List (List Char)}
    (hslash : ∀ piece ∈ pieces, '/' ∉ piece) (hfollow : d.follow l pieces = .ok m) :
    d.IsReached m := by
  induction pieces generalizing l with
  | nil =>
    obtain rfl : l = m := Except.ok.inj hfollow
    exact h
  | cons piece pieces ih =>
    rw [List.forall_mem_cons] at hslash
    obtain ⟨n, hstep, hrest⟩ := follow_cons_eq_ok.mp hfollow
    exact ih (h.step hslash.1 hstep) hslash.2 hrest

/-- **A path leads to what can be reached by names**, when the place from which relative paths start
can be. -/
theorem isReached_of_locate (hcurrent : d.IsReached d.current) (h : d.locate p = .ok l) :
    d.IsReached l := by
  have hstart : d.IsReached (d.start p) := by
    unfold start
    split
    · exact isReached_nil d
    · exact hcurrent
  unfold locate at h
  split at h
  · cases h
  · exact hstart.follow (fun _ => Path.noSlash_of_mem_splitSlashes) h

/-- The path that names what is passed from the top leads to the location that it names. -/
theorem IsReached.locate_names (h : d.IsReached l) (htop : d.at? [] = some .directory) :
    d.locate ⟨"/" ++ String.intercalate "/" l⟩ = .ok l := by
  have hroot : d.locate ⟨"/"⟩ = .ok [] := by
    have hstep : d.step [] [] = .ok [] := by
      rw [Disk.step, htop]
      rfl
    have hstart : d.start ⟨"/"⟩ = [] := by
      rw [start, if_pos (by decide +kernel)]
    have hpieces : Path.splitSlashes "/".toList = [[], []] := rfl
    rw [locate, if_neg (by decide +kernel), hstart, hpieces]
    simp only [Disk.follow, hstep]
  by_cases hnil : l = []
  · rw [hnil]
    exact hroot
  · exact locate_join hroot hnil h.names h.directory

/-- A path that begins at the top and leads somewhere shows that the top is a directory. -/
theorem directory_of_locate_top {names : String} (h : d.locate ⟨"/" ++ names⟩ = .ok m) :
    d.at? [] = some .directory := by
  have htext : ("/" ++ names).toList = '/' :: names.toList := String.toList_append
  have hstart : d.start ⟨"/" ++ names⟩ = [] := by
    rw [start, if_pos]
    rw [String.startsWith_string_iff, String.toList_append]
    exact List.prefix_append _ _
  unfold locate at h
  split at h
  · cases h
  rw [hstart, htext, Path.splitSlashes, follow_cons_eq_ok] at h
  obtain ⟨n, hstep, -⟩ := h
  exact directory_of_step hstep

/-- **The canonical path of a directory leads to the directory.** -/
theorem locate_canonical (hcurrent : d.IsReached d.current) (h : d.locate p = .ok l)
    (hl : d.at? l = some .directory) :
    ∃ q, d.canonical p = .ok q ∧ d.locate q = .ok l := by
  have hfind : d.find p = .ok .directory := by
    rw [find, h]
    simp only [hl]
  have hreached := isReached_of_locate hcurrent h
  have htop : d.at? [] = some .directory := by
    by_cases hnil : l = []
    · rwa [hnil] at hl
    · exact hreached.directory 0 (List.length_pos_iff.mpr hnil)
  refine ⟨_, ?_, hreached.locate_names htop⟩
  rw [canonical, hfind, h]
  rfl

/-- The canonical path of what is no directory does not lead to one either. -/
theorem isDirectory_canonical {q : Path} (hcurrent : d.IsReached d.current)
    (h : d.canonical p = .ok q) (hp : d.isDirectory p = false) : d.isDirectory q = false := by
  rw [Bool.eq_false_iff] at hp ⊢
  intro hq
  apply hp
  rw [isDirectory_iff] at hq ⊢
  obtain ⟨m, hm, hdirectory⟩ := hq
  obtain ⟨l, hl, rfl⟩ : ∃ l, d.locate p = .ok l ∧ (⟨"/" ++ String.intercalate "/" l⟩ : Path) = q := by
    unfold canonical at h
    split at h
    · cases h
    · exact map_eq_ok.mp h
  rw [(isReached_of_locate hcurrent hl).locate_names (directory_of_locate_top hm)] at hm
  obtain rfl : l = m := Except.ok.inj hm
  exact ⟨l, hl, hdirectory⟩

/-! ## Files in a directory -/

/-- A path that goes on by one name leads from a directory to what has the name there. -/
theorem locate_child (h : d.locate p = .ok l) (hl : d.at? l = some .directory) (hname : IsName name) :
    d.locate (p.join name) = .ok (l ++ [name]) := by
  have hjoin := locate_join h (List.cons_ne_nil name []) (by simpa using hname) (by simpa using hl)
  rwa [String.intercalate_singleton] at hjoin

/-- A file may be written by its name into a directory, unless it is a directory itself. -/
theorem target_child (h : d.locate p = .ok l) (hl : d.at? l = some .directory) (hname : IsName name)
    (hfree : d.at? (l ++ [name]) ≠ some .directory) :
    d.target (p.join name) = .ok (l ++ [name]) := by
  obtain ⟨pieces, hjoin, hfollow, hfull⟩ := exists_pieces_join h name
  rw [Path.splitSlashes_of_not_mem hname.noSlash] at hjoin
  have hpiece : ¬name.toList.isEmpty = true := by
    simpa using hname.ne_empty
  have hreverse : (Path.splitSlashes (p.join name).text.toList).reverse =
      name.toList :: pieces.reverse := by
    rw [hjoin, List.reverse_append]
    rfl
  unfold target
  simp only [hreverse, List.dropWhile_cons_of_neg hpiece, List.reverse_reverse, hfollow,
    step_of_isName hname hl, bind, Except.bind, List.head?_cons, hfree]
  simp

/-! ## Trees -/

/-- A tree stays a tree when a file is laid where names lead to and no directory is. -/
theorem IsTree.put (htree : d.IsTree) (h : d.IsReached l) (hl : d.at? l ≠ some .directory)
    (content : ByteArray) : (d.put l (.file content)).IsTree := by
  refine ⟨?_, ?_⟩
  · intro e he
    rcases List.mem_append.mp he with he | he
    · exact htree.names e (List.mem_filter.mp he).1
    · rw [List.mem_singleton.mp he]
      exact h.names
  · intro e he below hbelow hfront hne
    rcases List.mem_append.mp he with he | he
    · have helisted := (List.mem_filter.mp he).1
      rcases List.mem_append.mp hbelow with hbelow | hbelow
      · exact htree.above e helisted below (List.mem_filter.mp hbelow).1 hfront hne
      · -- what is above the file is one of the directories on the way to it
        rw [List.mem_singleton.mp hbelow] at hfront hne
        have hshorter : e.1.length < l.length := by
          refine Nat.lt_of_le_of_ne hfront.length_le fun hlength => hne ?_
          exact hfront.eq_of_length hlength
        have hdirectory := h.directory e.1.length hshorter
        rw [← List.prefix_iff_eq_take.mp hfront] at hdirectory
        rw [at?, lookup_of_mem helisted] at hdirectory
        exact Option.some.inj hdirectory
    · rw [List.mem_singleton.mp he] at hfront hne ⊢
      rcases List.mem_append.mp hbelow with hbelow | hbelow
      · exact absurd (directory_above htree (List.mem_filter.mp hbelow).1 hfront hne) hl
      · rw [List.mem_singleton.mp hbelow] at hne
        exact absurd rfl hne

end Disk

end SuffixLint
