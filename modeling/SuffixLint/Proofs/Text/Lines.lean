import Mathlib.Data.List.Forall2
import SuffixLint.Text.Lines
/-!
# Lines put together

Pieces of text that are joined by newlines come apart into the same pieces, as long as none of them
is empty or holds a newline: a newline would end the line earlier, and an empty piece in the last
place is no line. A carriage return at the end of a piece may be taken for a part of the line's end
(`IsLineOf`). So a piece is sure to come back as it is if there is no carriage return in it either
(`FitsLine`).
-/

namespace SuffixLint.Text

/-- A text that may stand on a line of its own. -/
structure FitsLine (piece : List Char) : Prop where
  ne_nil : piece ≠ []
  noNewline : '\n' ∉ piece
  noReturn : '\r' ∉ piece

/-! ## Pieces between newlines -/

/-- A character that is no newline belongs to the first piece. -/
theorem splitNewlines_cons {c : Char} (hc : c ≠ '\n') {text piece : List Char}
    {pieces : List (List Char)} (h : splitNewlines text = piece :: pieces) :
    splitNewlines (c :: text) = (c :: piece) :: pieces := by
  rw [splitNewlines.eq_3 c text hc, h]

/-- A text without newlines is one piece. -/
theorem splitNewlines_of_not_mem {piece : List Char} (h : '\n' ∉ piece) :
    splitNewlines piece = [piece] := by
  induction piece with
  | nil => rfl
  | cons c piece ih =>
    rw [List.mem_cons, not_or] at h
    obtain ⟨hc, hpiece⟩ := h
    exact splitNewlines_cons (Ne.symm hc) (ih hpiece)

/-- There is a first piece, be it empty. -/
theorem exists_splitNewlines_eq_cons (text : List Char) :
    ∃ piece pieces, splitNewlines text = piece :: pieces := by
  fun_cases splitNewlines text with
  | case1 => exact ⟨[], [], rfl⟩
  | case2 r => exact ⟨[], splitNewlines r, rfl⟩
  | case3 c r => exact ⟨[c], [], rfl⟩
  | case4 c r _ piece pieces => exact ⟨c :: piece, pieces, rfl⟩

/-- A newline between two texts keeps their pieces apart. -/
theorem splitNewlines_append_newline (text more : List Char) :
    splitNewlines (text ++ '\n' :: more) = splitNewlines text ++ splitNewlines more := by
  induction text with
  | nil => rfl
  | cons c text ih =>
    by_cases hc : c = '\n'
    · subst hc
      exact congrArg ([] :: ·) ih
    · obtain ⟨piece, pieces, hpieces⟩ := exists_splitNewlines_eq_cons text
      rw [hpieces] at ih
      rw [splitNewlines_cons hc hpieces]
      exact splitNewlines_cons hc ih

/-- A newline ends the piece before it. -/
theorem splitNewlines_append {piece : List Char} (h : '\n' ∉ piece) (text : List Char) :
    splitNewlines (piece ++ '\n' :: text) = piece :: splitNewlines text := by
  rw [splitNewlines_append_newline, splitNewlines_of_not_mem h]
  rfl

theorem length_splitNewlines (text : List Char) :
    (splitNewlines text).length = text.count '\n' + 1 := by
  induction text with
  | nil => rfl
  | cons c text ih =>
    by_cases hc : c = '\n'
    · subst hc
      rw [splitNewlines, List.length_cons, ih, List.count_cons_self]
    · obtain ⟨piece, pieces, hpieces⟩ := exists_splitNewlines_eq_cons text
      rw [hpieces] at ih
      rw [splitNewlines_cons hc hpieces, List.count_cons_of_ne hc]
      exact ih

/-- What stands in a piece stands in the text. -/
theorem mem_of_mem_splitNewlines {text piece : List Char} (hpiece : piece ∈ splitNewlines text)
    {c : Char} (hc : c ∈ piece) : c ∈ text := by
  induction text generalizing piece with
  | nil =>
    rw [List.mem_singleton.mp hpiece] at hc
    exact hc
  | cons d text ih =>
    by_cases hd : d = '\n'
    · subst hd
      rcases List.mem_cons.mp hpiece with rfl | hpiece
      · cases hc
      · exact List.mem_cons_of_mem _ (ih hpiece hc)
    · obtain ⟨first, pieces, hpieces⟩ := exists_splitNewlines_eq_cons text
      rw [hpieces] at ih
      rw [splitNewlines_cons hd hpieces] at hpiece
      rcases List.mem_cons.mp hpiece with rfl | hpiece
      · rcases List.mem_cons.mp hc with rfl | hc
        · exact List.mem_cons_self
        · exact List.mem_cons_of_mem d (ih List.mem_cons_self hc)
      · exact List.mem_cons_of_mem d (ih (List.mem_cons_of_mem first hpiece) hc)

/-- Joined pieces come apart at the newlines that join them. -/
theorem splitNewlines_intercalate {piece : List Char} {pieces : List (List Char)}
    (h : ∀ p ∈ piece :: pieces, '\n' ∉ p) :
    splitNewlines (['\n'].intercalate (piece :: pieces)) = piece :: pieces := by
  induction pieces generalizing piece with
  | nil =>
    rw [List.intercalate_singleton]
    exact splitNewlines_of_not_mem (h piece List.mem_cons_self)
  | cons next pieces ih =>
    rw [List.intercalate_cons_cons, List.append_assoc, List.singleton_append,
      splitNewlines_append (h piece List.mem_cons_self),
      ih fun p hp => h p (List.mem_cons_of_mem piece hp)]

/-! ## Lines -/

/-- A line of a piece is the piece, or the piece without the carriage return at its end. -/
def IsLineOf (line piece : List Char) : Prop :=
  piece = line ∨ piece = line ++ ['\r']

theorem isLineOf_dropReturn (piece : List Char) : IsLineOf (dropReturn piece) piece := by
  fun_induction dropReturn piece with
  | case1 => exact Or.inl rfl
  | case2 => exact Or.inr rfl
  | case3 c r _ ih =>
    rcases ih with h | h
    · exact Or.inl (congrArg (c :: ·) h)
    · exact Or.inr (congrArg (c :: ·) h)

/-- A text with a carriage return before each of its newlines. -/
def withReturns (text : List Char) : List Char :=
  text.flatMap fun c => if c = '\n' then ['\r', '\n'] else [c]

/-- Each piece of a text then has one carriage return more at its end, but for the last. -/
theorem forall₂_splitNewlines_withReturns (text : List Char) :
    List.Forall₂ IsLineOf (splitNewlines text) (splitNewlines (withReturns text)) := by
  induction text with
  | nil => exact .cons (Or.inl rfl) .nil
  | cons c text ih =>
    by_cases hc : c = '\n'
    · subst hc
      exact .cons (Or.inr rfl) ih
    · -- the character goes before both first pieces
      have hreturns : withReturns (c :: text) = c :: withReturns text := by
        rw [withReturns, List.flatMap_cons, if_neg hc]
        rfl
      obtain ⟨piece, pieces, hpieces⟩ := exists_splitNewlines_eq_cons text
      obtain ⟨piece', pieces', hpieces'⟩ := exists_splitNewlines_eq_cons (withReturns text)
      rw [hpieces, hpieces'] at ih
      rw [hreturns, splitNewlines_cons hc hpieces, splitNewlines_cons hc hpieces']
      obtain ⟨hfirst, hothers⟩ := List.forall₂_cons.mp ih
      refine .cons ?_ hothers
      rcases hfirst with rfl | rfl
      · exact Or.inl rfl
      · exact Or.inr rfl

/-- A newline ends the first line. -/
theorem lines_append {piece : List Char} (h : '\n' ∉ piece) (text : List Char) :
    lines (piece ++ '\n' :: text) = dropReturn piece :: lines text := by
  obtain ⟨next, pieces, hpieces⟩ := exists_splitNewlines_eq_cons text
  rw [lines, lines, splitNewlines_append h, hpieces, linesOfPieces]
  exact List.cons_ne_nil next pieces

/-- A character that belongs to no line's end begins the first line. -/
theorem exists_lines_eq_cons {c : Char} (hnewline : c ≠ '\n') (hreturn : c ≠ '\r')
    (text : List Char) : ∃ l ls, lines (c :: text) = (c :: l) :: ls := by
  obtain ⟨piece, pieces, hpieces⟩ := exists_splitNewlines_eq_cons text
  rw [lines, splitNewlines_cons hnewline hpieces]
  cases pieces with
  | nil => exact ⟨piece, [], rfl⟩
  | cons next pieces =>
    refine ⟨dropReturn piece, linesOfPieces (next :: pieces), ?_⟩
    rw [linesOfPieces, dropReturn]
    · exact fun h => absurd h hreturn
    · exact List.cons_ne_nil next pieces

/-- Pieces that are not empty give a line each. -/
theorem forall₂_linesOfPieces {pieces : List (List Char)} (h : ∀ p ∈ pieces, p ≠ []) :
    List.Forall₂ IsLineOf (linesOfPieces pieces) pieces := by
  induction pieces with
  | nil => exact .nil
  | cons piece pieces ih =>
    cases pieces with
    | nil =>
      have hfull : ¬piece.isEmpty = true := fun hempty =>
        h piece List.mem_cons_self (List.isEmpty_iff.mp hempty)
      rw [linesOfPieces, if_neg hfull]
      exact .cons (Or.inl rfl) .nil
    | cons next pieces =>
      rw [linesOfPieces]
      · exact .cons (isLineOf_dropReturn piece) (ih fun p hp => h p (List.mem_cons_of_mem piece hp))
      · exact List.cons_ne_nil next pieces

/-- **Joined by newlines, pieces that are not empty are the lines of the text**, but for carriage
returns at their ends. -/
theorem forall₂_lines_intercalate {pieces : List (List Char)}
    (h : ∀ p ∈ pieces, p ≠ [] ∧ '\n' ∉ p) :
    List.Forall₂ IsLineOf (lines (['\n'].intercalate pieces)) pieces := by
  cases pieces with
  | nil => exact .nil
  | cons piece pieces =>
    rw [lines, splitNewlines_intercalate fun p hp => (h p hp).2]
    exact forall₂_linesOfPieces fun p hp => (h p hp).1

/-- Pieces that are fit for lines are the lines. -/
theorem lines_intercalate {pieces : List (List Char)} (h : ∀ p ∈ pieces, FitsLine p) :
    lines (['\n'].intercalate pieces) = pieces := by
  have hlines := forall₂_lines_intercalate fun p hp => ⟨(h p hp).ne_nil, (h p hp).noNewline⟩
  generalize lines (['\n'].intercalate pieces) = ls at hlines
  induction hlines with
  | nil => rfl
  | @cons line piece ls pieces hline _ ih =>
    have hpiece := h piece List.mem_cons_self
    rcases hline with rfl | rfl
    · rw [ih fun p hp => h p (List.mem_cons_of_mem piece hp)]
    · exact absurd (List.mem_append_right line (List.mem_singleton_self '\r')) hpiece.noReturn

end SuffixLint.Text
