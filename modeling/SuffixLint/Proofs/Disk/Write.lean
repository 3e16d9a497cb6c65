import SuffixLint.Disk
/-!
# Files read back after they have been written

A text that is written to a path is read back from it. A file is laid only where no directory is,
so the directories on the way to it are still there afterwards, and the path leads where it led
before.
-/

namespace SuffixLint.Disk

variable {d : Disk} {l m : Location} {e : Entry}

/-! ## What lies where after something has been laid -/

/-- What has been laid lies there. -/
theorem at?_put (d : Disk) (l : Location) (e : Entry) : (d.put l e).at? l = some e := by
  have hothers : (d.entries.filter fun x => x.1 ≠ l).lookup l = none := by
    rw [List.lookup_eq_none_iff]
    intro x hx
    have hne := (List.mem_filter.mp hx).2
    rw [decide_eq_true_eq] at hne
    exact bne_iff_ne.mpr (Ne.symm hne)
  have hlookup : (d.put l e).entries.lookup l = some e := by
    unfold put
    rw [List.lookup_append, hothers, Option.none_or, List.lookup_cons_self]
  unfold at?
  rw [hlookup]

/-- Elsewhere is listed what was listed before. -/
theorem lookup_put_of_ne (h : m ≠ l) : (d.put l e).entries.lookup m = d.entries.lookup m := by
  have hlaid : [(l, e)].lookup m = none := by
    rw [List.lookup_cons, beq_eq_false_iff_ne.mpr h]
    rfl
  unfold put
  rw [List.lookup_append, hlaid, Option.or_none]
  induction d.entries with
  | nil => rfl
  | cons x xs ih =>
    by_cases hx : x.1 = l
    · have hm : (m == x.1) = false := by
        rw [beq_eq_false_iff_ne, hx]
        exact h
      rw [List.filter_cons_of_neg (by simpa using hx), List.lookup_cons, hm, ih]
    · rw [List.filter_cons_of_pos (by simpa using hx), List.lookup_cons, List.lookup_cons, ih]

/-- A location that something lay below still has something below it. -/
theorem isAbove_put (h : d.isAbove m = true) : (d.put l e).isAbove m = true := by
  unfold isAbove at h ⊢
  rw [Bool.or_eq_true, List.any_eq_true] at h ⊢
  rcases h with hcurrent | ⟨x, hx, hprefix⟩
  · exact Or.inl hcurrent
  · right
    by_cases hl : x.1 = l
    · refine ⟨(l, e), List.mem_append_right _ (List.mem_singleton_self _), ?_⟩
      rwa [hl] at hprefix
    · have hkept : x ∈ d.entries.filter fun y => y.1 ≠ l :=
        List.mem_filter.mpr ⟨hx, decide_eq_true hl⟩
      exact ⟨x, List.mem_append_left _ hkept, hprefix⟩

/-- Directories stay directories when something is laid where no directory is. -/
theorem directory_put (hl : d.at? l ≠ some .directory) (hm : d.at? m = some .directory) :
    (d.put l e).at? m = some .directory := by
  -- what was laid does not lie in the place of the directory
  have hne : m ≠ l := by
    rintro rfl
    exact hl hm
  unfold at? at hm ⊢
  rw [lookup_put_of_ne hne]
  split at hm
  · exact hm
  · by_cases habove : d.isAbove m = true
    · rw [if_pos (isAbove_put habove)]
    · rw [if_neg habove] at hm
      cases hm

/-! ## Following the same path -/

/-- A step starts from a directory. -/
theorem directory_of_step {piece : List Char} (h : d.step l piece = .ok m) :
    d.at? l = some .directory := by
  unfold step at h
  split at h
  · cases h
  · cases h
  · assumption

theorem step_put {piece : List Char} {n : Location} (hl : d.at? l ≠ some .directory)
    (h : d.step m piece = .ok n) : (d.put l e).step m piece = .ok n := by
  have hm := directory_of_step h
  unfold step at h ⊢
  rw [hm] at h
  rw [directory_put hl hm]
  exact h

/-- A path is followed when its first piece leads somewhere and the others go on from there. -/
theorem follow_cons_eq_ok {piece : List Char} {pieces : List (List Char)} {n : Location} :
    d.follow l (piece :: pieces) = .ok n ↔
      ∃ m, d.step l piece = .ok m ∧ d.follow m pieces = .ok n := by
  rw [follow]
  rcases d.step l piece with refusal | m
  · simp only [reduceCtorEq, false_and, exists_false]
  · simp only [Except.ok.injEq, exists_eq_left']

theorem follow_append_eq_ok {pieces more : List (List Char)} {n : Location} :
    d.follow l (pieces ++ more) = .ok n ↔
      ∃ m, d.follow l pieces = .ok m ∧ d.follow m more = .ok n := by
  induction pieces generalizing l with
  | nil => simp only [List.nil_append, follow, Except.ok.injEq, exists_eq_left']
  | cons piece pieces ih =>
    rw [List.cons_append, follow_cons_eq_ok]
    constructor
    · rintro ⟨l', hstep, hrest⟩
      obtain ⟨m, hpieces, hmore⟩ := ih.mp hrest
      exact ⟨m, follow_cons_eq_ok.mpr ⟨l', hstep, hpieces⟩, hmore⟩
    · rintro ⟨m, hpieces, hmore⟩
      obtain ⟨l', hstep, hrest⟩ := follow_cons_eq_ok.mp hpieces
      exact ⟨l', hstep, ih.mpr ⟨m, hrest, hmore⟩⟩

theorem follow_put {pieces : List (List Char)} {n : Location} (hl : d.at? l ≠ some .directory)
    (h : d.follow m pieces = .ok n) : (d.put l e).follow m pieces = .ok n := by
  induction pieces generalizing m with
  | nil => exact h
  | cons piece pieces ih =>
    obtain ⟨m', hstep, hrest⟩ := follow_cons_eq_ok.mp h
    exact follow_cons_eq_ok.mpr ⟨m', step_put hl hstep, ih hrest⟩

/-- A path leads where it led before something was laid where no directory is. -/
theorem locate_put {p : Path} {n : Location} (hl : d.at? l ≠ some .directory)
    (h : d.locate p = .ok n) : (d.put l e).locate p = .ok n := by
  unfold locate at h ⊢
  by_cases hp : p.text.isEmpty = true
  · rw [if_pos hp] at h
    cases h
  · rw [if_neg hp] at h ⊢
    exact follow_put hl h

/-- Nothing lies where a path leads that leads to nothing. -/
theorem at?_of_not_holds {p : Path} (h : d.holds p = false) (hp : d.locate p = .ok l) :
    d.at? l = none := by
  cases hat : d.at? l with
  | none => rfl
  | some e =>
    rw [holds, find, hp] at h
    simp only [hat] at h
    cases h

/-! ## Writing -/

/-- When two steps that may be refused are taken one after the other, neither has been refused. -/
theorem exists_of_bind_eq_ok {α β : Type} {x : Except Refusal α} {f : α → Except Refusal β} {y : β}
    (h : x >>= f = .ok y) : ∃ a, x = .ok a ∧ f a = .ok y := by
  rcases x with refusal | a
  · cases h
  · exact ⟨a, rfl, h⟩

/-- A path that ends in a name is that name behind the other pieces, since no piece is dropped from
its end. -/
theorem pieces_of_dropWhile {pieces before : List (List Char)} {last : List Char}
    (hdrop : pieces.reverse.dropWhile List.isEmpty = last :: before)
    (hlast : pieces.reverse.head? = some last) : pieces = before.reverse ++ [last] := by
  obtain ⟨others, hothers⟩ := List.head?_eq_some_iff.mp hlast
  have hfull : ¬last.isEmpty = true := by
    have hnot := List.head?_dropWhile_not List.isEmpty pieces.reverse
    rw [hdrop] at hnot
    exact Bool.eq_false_iff.mp hnot
  rw [hothers, List.dropWhile_cons_of_neg hfull, List.cons.injEq] at hdrop
  rw [hdrop.2] at hothers
  rw [← List.reverse_reverse pieces, hothers, List.reverse_cons]

/-- A file is written where its path leads, and never in the place of a directory. -/
theorem locate_of_target {p : Path} (h : d.target p = .ok l) :
    d.locate p = .ok l ∧ d.at? l ≠ some .directory := by
  unfold target at h
  simp only at h
  split at h
  · cases h
  · rename_i last before hdrop
    obtain ⟨parent, hparent, h⟩ := exists_of_bind_eq_ok h
    obtain ⟨n, hstep, h⟩ := exists_of_bind_eq_ok h
    split at h
    · cases h
    · rename_i hname
      rw [not_or, Classical.not_not] at hname
      cases h
      have hnonempty : ¬p.text.isEmpty = true := by
        intro hempty
        rw [String.isEmpty_iff.mp hempty] at hdrop
        cases hdrop
      refine ⟨?_, hname.2⟩
      unfold locate
      rw [if_neg hnonempty, pieces_of_dropWhile hdrop hname.1]
      exact follow_append_eq_ok.mpr ⟨parent, hparent, follow_cons_eq_ok.mpr ⟨l, hstep, rfl⟩⟩

theorem decodeText_toUTF8 (text : String) : decodeText text.toUTF8 = .ok text := by
  have hdecode : String.fromUTF8? text.toUTF8 = some text := by
    unfold String.fromUTF8?
    rw [String.toUTF8_eq_toByteArray, dif_pos text.isValidUTF8]
    rfl
  unfold decodeText
  rw [hdecode]

/-- Writing lays a file at the location that the path leads to. -/
theorem exists_of_write_eq_ok {after : Disk} {p : Path} {text : String}
    (h : d.write p text = .ok after) :
    ∃ l, d.target p = .ok l ∧ after = d.put l (.file text.toUTF8) := by
  unfold write at h
  rcases htarget : d.target p with refusal | l
  · rw [htarget] at h
    cases h
  · rw [htarget] at h
    exact ⟨l, rfl, (Except.ok.inj h).symm⟩

/-- A path leads to what has been laid where it was to be written. -/
theorem find_put {p : Path} (h : d.target p = .ok l) (e : Entry) : (d.put l e).find p = .ok e := by
  obtain ⟨hlocate, hdirectory⟩ := locate_of_target h
  -- the path still leads to the same place, and nothing else lies there
  unfold find
  rw [locate_put hdirectory hlocate]
  simp only [at?_put]

/-- **What is written to a path is read back from it.** -/
theorem readText_write {after : Disk} {p : Path} {text : String}
    (h : d.write p text = .ok after) : after.readText p = .ok text := by
  obtain ⟨l, htarget, rfl⟩ := exists_of_write_eq_ok h
  unfold readText
  rw [find_put htarget]
  exact decodeText_toUTF8 text

end SuffixLint.Disk
