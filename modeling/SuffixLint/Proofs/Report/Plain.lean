import SuffixLint.Proofs.Decimal.Digits
import SuffixLint.Proofs.Terminal
import SuffixLint.Report.Text
/-!
# The report without styles

What a report shows of its findings stands in cells: the place, the name, the proposed name and the
message. All else that it shows is its own and has no escape characters. A cell is followed by a
space or a line end, with nothing but a style between, so a report is stripped cell by cell
(`strip_colored_styled`): what is left of the styles is nothing, and of the cells what stripping
leaves of each on its own.

So a report whose findings have no escape characters is shown without styles exactly
(`strip_colored_eq_bare`), and for any report one can tell from the cells whether an introducer is
left (`introducer_infix_strip_colored`).
-/

namespace SuffixLint

/-- The strings of a finding. -/
def Finding.strings (f : Finding) : List String :=
  [f.id, f.detector, f.title, f.description, f.name, f.verdict] ++ f.affectedFiles.map Path.text ++
    f.suggestedFix.toList ++ f.suggestedName.toList ++ f.category.toList

namespace Report

open Terminal

/-! ## Texts without escape characters -/

variable {text : List Char} {f : Finding} {r : Report}

/-- Whether a character is a digit, or one that cuts a text or divides the parts of a place. -/
def isMark (c : Char) : Bool :=
  c = '.' || c = ':' || c = '-' || c.isDigit

theorem isEscape_of_isMark {c : Char} (h : isMark c = true) : isEscape c = false := by
  simp only [isEscape, Bool.or_eq_false_iff, decide_eq_false_iff_not]
  constructor
  · rintro rfl
    exact absurd h (by decide)
  · rintro rfl
    exact absurd h (by decide)

theorem isMark_of_mem_digits {c : Char} {n : Nat} (h : c ∈ Decimal.digits n) : isMark c = true := by
  rw [isMark, Decimal.isDigit_of_mem_digits h, Bool.or_true]

theorem hasNoEscape_digits (n : Nat) : HasNoEscape (Decimal.digits n) :=
  hasNoEscape_iff.mpr fun _ hc => isEscape_of_isMark (isMark_of_mem_digits hc)

theorem hasNoEscape_toString (n : Nat) : HasNoEscape (toString n).toList := by
  rw [Decimal.toList_toString]
  exact hasNoEscape_digits n

theorem hasNoEscape_padLeft (width : Nat) (h : HasNoEscape text) :
    HasNoEscape (padLeft width text) :=
  hasNoEscape_append.mpr ⟨hasNoEscape_replicate (by decide) _, h⟩

theorem hasNoEscape_padRight (width : Nat) (h : HasNoEscape text) :
    HasNoEscape (padRight width text) :=
  hasNoEscape_append.mpr ⟨h, hasNoEscape_replicate (by decide) _⟩

theorem hasNoEscape_severityTag (s : Severity) : HasNoEscape (severityTag s) := by
  cases s <;> decide

/-! ## Cells -/

/-- What is shown of a finding: its place, its name, the proposed name and its message. -/
def cells (f : Finding) : List (List Char) :=
  [place f, shorten columnWidth f.name.toList, (f.suggestedName.getD "").toList, messageOf f]

theorem harmless_heading (r : Report) : Harmless (heading r) := by
  simp only [heading, paint, plain, endLine, harmless_cons_plain, harmless_append,
    harmless_inStyle, harmless_nil, String.toList_append, hasNoEscape_append, hasNoEscape_toString]
  decide

theorem harmless_emptyNote (r : Report) : Harmless (emptyNote r) := by
  unfold emptyNote
  split <;>
    simp only [paint, gap, endLine, harmless_cons_plain, harmless_append, harmless_inStyle,
      harmless_nil, String.toList_append, hasNoEscape_append, hasNoEscape_toString] <;>
    decide

theorem harmless_tableHeading : Harmless tableHeading := by
  simp only [tableHeading, paint, endLine, harmless_cons_plain, harmless_append, harmless_inStyle,
    harmless_nil]
  decide

theorem breaks_gap (t : Styled) : Breaks (gap :: t) :=
  .inl rfl

theorem breaks_endLine (t : Styled) : Breaks (endLine :: t) :=
  .inr rfl

theorem apart_gap (t : Styled) : Apart (gap :: t) ↔ Apart t :=
  apart_cons_plain_of_hasNoEscape (by decide)

theorem apart_endLine (t : Styled) : Apart (endLine :: t) ↔ Apart t :=
  apart_cons_plain_of_hasNoEscape (by decide)

/-- Each cell is followed by a gap or by the end of its line. -/
theorem apart_rows (number : Nat) (f : Finding) {t : Styled} (h : Apart t) :
    Apart (rows number f ++ t) := by
  simp only [rows, List.append_assoc, List.cons_append, List.nil_append, apart_gap, apart_endLine,
    apart_cons_plain, apart_inStyle_append, breaks_gap, breaks_endLine,
    apart_cons_plain_of_hasNoEscape (hasNoEscape_replicate (by decide : isEscape ' ' = false) 12)]
  exact h

theorem apart_rowsFrom (number : Nat) (fs : List Finding) {t : Styled} (h : Apart t) :
    Apart (rowsFrom number fs ++ t) := by
  induction fs generalizing number with
  | nil => exact h
  | cons f fs ih =>
    rw [rowsFrom, List.append_assoc]
    exact apart_rows number f (ih (number + 1))

/-- The cells of a report keep to themselves. -/
theorem apart_styled (r : Report) : Apart r.styled := by
  unfold styled
  split
  · rw [← List.append_nil (heading r ++ emptyNote r)]
    exact Apart.append_of_harmless
      (harmless_append.mpr ⟨harmless_heading r, harmless_emptyNote r⟩) trivial
  · rw [List.append_assoc]
    refine Apart.append_of_harmless
      (harmless_append.mpr ⟨harmless_heading r, harmless_tableHeading⟩) ?_
    exact apart_rowsFrom 1 r.findings ((apart_endLine []).mpr trivial)

/-- A report is stripped piece by piece. -/
theorem strip_colored_styled (r : Report) :
    strip (colored r.styled) = r.styled.flatMap Piece.stripped :=
  strip_colored (apart_styled r)

/-! ## Introducers in cells -/

/-- In the lines of a finding an introducer is left by its cells or by nothing. -/
theorem leaves_rows (number : Nat) (f : Finding) :
    Leaves (rows number f) ↔ ∃ cell ∈ cells f, LeavesIntroducer cell := by
  have hspaces := not_leavesIntroducer (hasNoEscape_replicate (by decide : isEscape ' ' = false) 12)
  have hnumber := not_leavesIntroducer (hasNoEscape_padLeft 3 (hasNoEscape_digits number))
  have htag := not_leavesIntroducer (hasNoEscape_severityTag f.severity)
  have hgap : ¬LeavesIntroducer [' ', ' '] := not_leavesIntroducer (by decide)
  have hend : ¬LeavesIntroducer ['\n'] := not_leavesIntroducer (by decide)
  simp only [rows, gap, endLine, leaves_append, leaves_cons_plain, leaves_inStyle, leaves_nil,
    hspaces, hnumber, htag, hgap, hend, padRight, leavesIntroducer_append_spaces, false_or,
    or_false, cells, List.exists_mem_cons_iff, List.not_mem_nil, false_and, exists_false, or_assoc]

theorem leaves_rowsFrom (number : Nat) (fs : List Finding) :
    Leaves (rowsFrom number fs) ↔ ∃ f ∈ fs, ∃ cell ∈ cells f, LeavesIntroducer cell := by
  induction fs generalizing number with
  | nil => simp [rowsFrom]
  | cons f fs ih => rw [rowsFrom, leaves_append, leaves_rows, ih, List.exists_mem_cons_iff]

/-- **An introducer is left in a report** just where one is left in a cell. -/
theorem introducer_infix_strip_colored (r : Report) :
    introducer <:+: strip (colored r.styled) ↔
      ∃ f ∈ r.findings, ∃ cell ∈ cells f, LeavesIntroducer cell := by
  have hend : ¬Leaves [endLine] := Harmless.not_leaves (by simp [endLine]; decide)
  have hheading := (harmless_heading r).not_leaves
  rw [strip_colored_styled, introducer_infix_flatMap_stripped (apart_styled r)]
  unfold styled
  by_cases hr : r.findings = []
  · simp [hr, hheading, (harmless_emptyNote r).not_leaves]
  · simp [hr, hheading, harmless_tableHeading.not_leaves, hend, leaves_rowsFrom]

/-! ## Escape characters in cells -/

variable {c : Char}

/-- A character of what is cut is one of the text, or a dot. -/
theorem mem_shorten (width : Nat) (h : c ∈ shorten width text) : c ∈ text ∨ isMark c = true := by
  unfold shorten at h
  split at h
  · exact .inl h
  · refine (List.mem_append.mp h).imp List.mem_of_mem_take fun hdots => ?_
    exact List.all_eq_true.mp (by decide : ellipsis.all isMark = true) c hdots

theorem mem_shortenPath (width : Nat) (h : c ∈ shortenPath width text) :
    c ∈ text ∨ isMark c = true := by
  unfold shortenPath at h
  split at h
  · exact .inl h
  · refine (List.mem_append.mp h).symm.imp List.mem_of_mem_drop fun hdots => ?_
    exact List.all_eq_true.mp (by decide : ellipsis.all isMark = true) c hdots

/-- A character of a place is one of the path, or one that cuts it or belongs to the line. -/
theorem mem_place (h : c ∈ place f) :
    (∃ p ∈ f.affectedFiles.head?, c ∈ p.text.toList) ∨ isMark c = true := by
  unfold place at h
  split at h
  next =>
    rw [List.mem_singleton.mp h]
    exact .inr (by decide)
  next p hp =>
    have hpath : c ∈ shortenPath pathWidth p.text.toList →
        (∃ p ∈ f.affectedFiles.head?, c ∈ p.text.toList) ∨ isMark c = true := fun hmem =>
      (mem_shortenPath pathWidth hmem).imp_left fun hc => ⟨p, hp, hc⟩
    dsimp only at h
    split at h
    next line hgiven =>
      rw [List.mem_append, List.mem_cons] at h
      rcases h with h | rfl | h
      · exact hpath h
      · exact .inr (by decide)
      · exact .inr (isMark_of_mem_digits h)
    next => exact hpath h

/-- An escape character in a cell is one of the path, the name, the proposed name or the message. -/
theorem mem_cell_cases {cell : List Char} (hcell : cell ∈ cells f) (hc : isEscape c = true)
    (h : c ∈ cell) : (∃ p ∈ f.affectedFiles.head?, c ∈ p.text.toList) ∨ c ∈ f.name.toList ∨
      (∃ s ∈ f.suggestedName, c ∈ s.toList) ∨ c ∈ messageOf f := by
  have hmark : ¬isMark c = true := fun h => absurd (isEscape_of_isMark h) (by simp [hc])
  simp only [cells, List.mem_cons, List.not_mem_nil, or_false] at hcell
  rcases hcell with rfl | rfl | rfl | rfl
  · exact .inl ((mem_place h).resolve_right hmark)
  · exact .inr (.inl ((mem_shorten columnWidth h).resolve_right hmark))
  · cases hsuggested : f.suggestedName with
    | none =>
      rw [hsuggested] at h
      cases h
    | some suggested =>
      rw [hsuggested] at h
      exact .inr (.inr (.inl ⟨suggested, rfl, h⟩))
  · exact .inr (.inr (.inr h))

/-- An escape character in a cell is one of a string of the finding. -/
theorem exists_string_of_mem_cell {cell : List Char} (hcell : cell ∈ cells f)
    (hc : isEscape c = true) (h : c ∈ cell) : ∃ s ∈ f.strings, c ∈ s.toList := by
  simp only [Finding.strings, List.mem_append, List.mem_cons, List.not_mem_nil, or_false]
  rcases mem_cell_cases hcell hc h with ⟨p, hp, hmem⟩ | hmem | ⟨s, hs, hmem⟩ | hmem
  · have hfile : p.text ∈ f.affectedFiles.map Path.text :=
      List.mem_map_of_mem (List.mem_of_mem_head? hp)
    exact ⟨p.text, by simp [hfile], hmem⟩
  · exact ⟨f.name, by simp, hmem⟩
  · exact ⟨s, by simp [Option.mem_def.mp hs], hmem⟩
  · exact ⟨f.title, by simp, (List.takeWhile_subset _) hmem⟩

/-- A finding whose strings have no escape characters has none in its lines. -/
theorem harmless_rows (number : Nat) (h : ∀ s ∈ f.strings, HasNoEscape s.toList) :
    Harmless (rows number f) := by
  have hcells : ∀ cell ∈ cells f, HasNoEscape cell := by
    intro cell hcell
    refine hasNoEscape_iff.mpr fun c hmem => ?_
    by_contra hc
    rw [Bool.not_eq_false] at hc
    obtain ⟨s, hs, hcs⟩ := exists_string_of_mem_cell hcell hc hmem
    exact absurd (hasNoEscape_iff.mp (h s hs) c hcs) (by simp [hc])
  simp only [cells, List.forall_mem_cons] at hcells
  obtain ⟨hplace, hname, hsuggested, hmessage, -⟩ := hcells
  simp only [rows, gap, endLine, harmless_append, harmless_cons_plain, harmless_inStyle,
    harmless_nil, hasNoEscape_padLeft 3 (hasNoEscape_digits number),
    hasNoEscape_severityTag, hasNoEscape_padRight columnWidth hplace,
    hasNoEscape_padRight columnWidth hname, hsuggested, hmessage]
  decide

theorem harmless_rowsFrom (number : Nat) {fs : List Finding}
    (h : ∀ f ∈ fs, ∀ s ∈ f.strings, HasNoEscape s.toList) : Harmless (rowsFrom number fs) := by
  induction fs generalizing number with
  | nil => exact harmless_nil
  | cons f fs ih =>
    obtain ⟨hf, hfs⟩ := List.forall_mem_cons.mp h
    exact harmless_append.mpr ⟨harmless_rows number hf, ih (number + 1) hfs⟩

/-- A report whose findings have no escape characters is stripped of its styles and of nothing
else. -/
theorem strip_colored_eq_bare (h : ∀ f ∈ r.findings, ∀ s ∈ f.strings, HasNoEscape s.toList) :
    strip (colored r.styled) = bare r.styled := by
  have hstyled : Harmless r.styled := by
    unfold styled
    split
    · exact harmless_append.mpr ⟨harmless_heading r, harmless_emptyNote r⟩
    · simp only [harmless_append, harmless_heading, harmless_tableHeading, harmless_rowsFrom 1 h]
      simp [endLine]
      decide
  rw [strip_colored_styled, flatMap_stripped_eq_bare hstyled]

end Report

end SuffixLint
