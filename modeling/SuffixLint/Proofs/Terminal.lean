import Mathlib.Data.List.Infix
import SuffixLint.Terminal
/-!
# What stripping leaves

No control sequence goes on behind an escape character, a space or a line feed (`Stops`), so what
stands before one of these is stripped on its own (`strip_append`). In particular the sequences that
are met begin at escape characters, and each escape character of a text begins one or is kept,
whatever stands before it.

A text with styles shows its own sequences and its plain pieces. When each plain piece is free of
escape characters or is followed by a character that no sequence goes on with, stripping takes out
the styles and strips each piece on its own (`strip_colored`).

What is kept is joined, and an introducer, the two characters with which the sequences of styles
begin, may form or may be left. It does so just where an escape character begins no sequence and has
only whole sequences between itself and a bracket (`introducer_infix_strip_iff`).
-/

namespace SuffixLint.Terminal

variable {c : Char} {s t : Scan} {text rest : List Char} {n : Nat}

/-! ## One character -/

/-- No character of the text begins a control sequence. -/
def HasNoEscape (text : List Char) : Prop :=
  text.any isEscape = false

instance (text : List Char) : Decidable (HasNoEscape text) :=
  inferInstanceAs (Decidable (_ = _))

/-- No control sequence goes on with the text: it is empty, or no sequence has its first character
behind its own. -/
def Stops (text : List Char) : Prop :=
  ∀ c ∈ text.head?, ∀ s : Scan, s.step c = none

theorem hasNoEscape_cons :
    HasNoEscape (c :: text) ↔ isEscape c = false ∧ HasNoEscape text := by
  rw [HasNoEscape, List.any_cons, Bool.or_eq_false_iff]
  rfl

theorem hasNoEscape_append :
    HasNoEscape (text ++ rest) ↔ HasNoEscape text ∧ HasNoEscape rest := by
  rw [HasNoEscape, List.any_append, Bool.or_eq_false_iff]
  rfl

theorem hasNoEscape_iff : HasNoEscape text ↔ ∀ c ∈ text, isEscape c = false := by
  rw [HasNoEscape, List.any_eq_false]
  simp only [Bool.not_eq_true]

theorem hasNoEscape_replicate (h : isEscape c = false) (n : Nat) :
    HasNoEscape (List.replicate n c) :=
  hasNoEscape_iff.mpr fun _ hd => List.eq_of_mem_replicate hd ▸ h

theorem stops_nil : Stops [] := by
  intro c hc
  cases hc

theorem stops_cons (h : ∀ s : Scan, s.step c = none) : Stops (c :: text) := by
  intro d hd
  rw [List.head?_cons, Option.mem_some_iff] at hd
  exact hd ▸ h

/-- A character that is no digit, no letter of a sequence and none of its signs does not belong to a
sequence. -/
theorem step_eq_none (h : (c.isDigit || c = '(' || c = ')' || c = '[' || c = '#' || c = '?'
    || c = ';' || isFinalLetter c) = false) : s.step c = none := by
  simp only [Bool.or_eq_false_iff, decide_eq_false_iff_not] at h
  unfold Scan.step
  simp only [h, Bool.or_self, Bool.false_eq_true, if_false, decide_false]

theorem step_escape (h : isEscape c = true) : s.step c = none := by
  simp only [isEscape, Bool.or_eq_true, decide_eq_true_eq] at h
  rcases h with rfl | rfl
  · exact step_eq_none (by decide)
  · exact step_eq_none (by decide)

theorem stops_escape (text : List Char) : Stops ('\x1b' :: text) :=
  stops_cons fun _ => step_escape (by decide)

theorem stops_space (text : List Char) : Stops (' ' :: text) :=
  stops_cons fun _ => step_eq_none (by decide)

theorem stops_newline (text : List Char) : Stops ('\n' :: text) :=
  stops_cons fun _ => step_eq_none (by decide)

/-! ## The longest sequence -/

theorem longest_of_stops (h : Stops rest) (s : Scan) : s.longest rest = none := by
  cases rest with
  | nil => rfl
  | cons c rest => rw [Scan.longest, h c (Option.mem_some_self c)]

/-- A sequence ends before a text that no sequence goes on with. -/
theorem longest_append (h : Stops rest) (s : Scan) (text : List Char) :
    s.longest (text ++ rest) = s.longest text := by
  induction text generalizing s with
  | nil => exact longest_of_stops h s
  | cons c text ih =>
    rw [List.cons_append, Scan.longest, Scan.longest]
    cases s.step c with
    | none => rfl
    | some t => simp only [ih t]

theorem longest_le (h : s.longest text = some n) : n ≤ text.length := by
  induction text generalizing s n with
  | nil => cases h
  | cons c text ih =>
    rw [Scan.longest] at h
    rw [List.length_cons]
    split at h
    · cases h
    · split at h
      next m hm =>
        have hle := ih hm
        have hn : m + 1 = n := Option.some.inj h
        omega
      next =>
        split at h
        · have hn : 1 = n := Option.some.inj h
          omega
        · cases h

/-! ## Stripping -/

theorem stripFrom_eq_drop (n : Nat) (text : List Char) :
    stripFrom n text = strip (text.drop n) := by
  induction text generalizing n with
  | nil => cases n <;> rfl
  | cons c text ih =>
    cases n with
    | zero => rfl
    | succ n => exact ih n

/-- A sequence is removed. -/
theorem strip_of_longest (hc : isEscape c = true) (h : Scan.opened.longest text = some n) :
    strip (c :: text) = strip (text.drop n) := by
  rw [strip, stripFrom, if_pos hc, h]
  exact stripFrom_eq_drop n text

/-- An escape character that begins no sequence is kept. -/
theorem strip_of_longest_eq_none (h : Scan.opened.longest text = none) :
    strip (c :: text) = c :: strip text := by
  rw [strip, stripFrom, h]
  split <;> rfl

theorem strip_cons (h : isEscape c = false) : strip (c :: text) = c :: strip text := by
  rw [strip, stripFrom, if_neg (Bool.eq_false_iff.mp h)]
  rfl

/-- Every text is scanned from the left: a sequence is passed as a whole where one begins, and else
one character. -/
@[elab_as_elim]
theorem strip_induction {motive : List Char → Prop} (nil : motive [])
    (sequence : ∀ c rest n, isEscape c = true → Scan.opened.longest rest = some n →
      motive (rest.drop n) → motive (c :: rest))
    (kept : ∀ c rest, (isEscape c = true → Scan.opened.longest rest = none) → motive rest →
      motive (c :: rest))
    (text : List Char) : motive text := by
  -- a sequence takes away more than one character, so the induction is on the length
  induction hlength : text.length using Nat.strongRecOn generalizing text with
  | ind k ih =>
    cases text with
    | nil => exact nil
    | cons c rest =>
      rw [List.length_cons] at hlength
      have hkept : (isEscape c = true → Scan.opened.longest rest = none) → motive (c :: rest) :=
        fun h => kept c rest h (ih _ (by omega) rest rfl)
      by_cases hc : isEscape c = true
      · cases h : Scan.opened.longest rest with
        | none => exact hkept fun _ => h
        | some n =>
          have hshorter : (rest.drop n).length < k := by
            rw [List.length_drop]
            omega
          exact sequence c rest n hc h (ih _ hshorter _ rfl)
      · exact hkept fun h => absurd h hc

/-- What is kept is kept wherever no sequence begins. -/
theorem strip_kept (h : isEscape c = true → Scan.opened.longest text = none) :
    strip (c :: text) = c :: strip text := by
  by_cases hc : isEscape c = true
  · exact strip_of_longest_eq_none (h hc)
  · exact strip_cons (Bool.not_eq_true _ ▸ hc)

/-- What stands before a text that no sequence goes on with is stripped on its own. -/
theorem strip_append (h : Stops rest) (text : List Char) :
    strip (text ++ rest) = strip text ++ strip rest := by
  -- by what is passed of the text: each sequence in it is as long with the rest behind it
  induction text using strip_induction with
  | nil => rfl
  | sequence c text n hc hlongest ih =>
    have hlonger := (longest_append h _ _).trans hlongest
    rw [List.cons_append, strip_of_longest hc hlonger, strip_of_longest hc hlongest,
      List.drop_append_of_le_length (longest_le hlongest), ih]
  | kept c text hkept ih =>
    rw [List.cons_append, strip_kept fun hc => (longest_append h _ _).trans (hkept hc), ih,
      strip_kept hkept, List.cons_append]

/-- What has no escape character stays, whatever stands behind it. -/
theorem strip_append_of_hasNoEscape (h : HasNoEscape text) (rest : List Char) :
    strip (text ++ rest) = text ++ strip rest := by
  induction text with
  | nil => rfl
  | cons c text ih =>
    obtain ⟨hc, htext⟩ := hasNoEscape_cons.mp h
    rw [List.cons_append, strip_cons hc, ih htext, List.cons_append]

theorem strip_eq_self (h : HasNoEscape text) : strip text = text := by
  have hstrip := strip_append_of_hasNoEscape h []
  rwa [List.append_nil, show strip [] = [] from rfl, List.append_nil] at hstrip

/-! ## Styles -/

/-- The two characters with which the sequences of styles begin. -/
def introducer : List Char := ['\x1b', '[']

/-- The sequence of a style is an introducer, a number and a letter. -/
theorem exists_code (s : Style) : ∃ d ds, s.code = '\x1b' :: '[' :: d :: ds ++ ['m'] ∧
    d.isDigit = true ∧ ds.all Char.isDigit = true ∧ ds.length < 4 :=
  ⟨s.code.getD 2 ' ', (s.code.drop 3).dropLast, by cases s <;> decide⟩

theorem longest_cons (h : s.step c = some t) (ht : t.longest text = some n) :
    s.longest (c :: text) = some (n + 1) := by
  rw [Scan.longest, h]
  simp only [ht]

/-- Nothing goes on behind the last character of a sequence. -/
theorem longest_complete (text : List Char) : Scan.complete.longest text = none := by
  have hstep : ∀ c, Scan.complete.step c = none := by
    intro c
    unfold Scan.step
    split_ifs <;> rfl
  cases text with
  | nil => rfl
  | cons c text => rw [Scan.longest, hstep c]

/-- A number goes on to its letter. -/
theorem longest_digits {ds : List Char} (h : ds.all Char.isDigit = true) (hn : n + ds.length ≤ 4)
    (rest : List Char) : (Scan.digits n).longest (ds ++ 'm' :: rest) = some (ds.length + 1) := by
  induction ds generalizing n with
  | nil =>
    have hletter : (Scan.digits n).step 'm' = some .complete := rfl
    rw [List.nil_append, Scan.longest, hletter]
    simp only [longest_complete]
    rfl
  | cons d ds ih =>
    rw [List.all_cons, Bool.and_eq_true] at h
    rw [List.length_cons] at hn ⊢
    have hdigit : (Scan.digits n).step d = some (.digits (n + 1)) := by
      unfold Scan.step
      rw [if_pos h.1, Scan.afterDigit, if_pos (by omega)]
    exact longest_cons hdigit (ih h.2 (by omega))

/-- The sequence of a style is removed as a whole, whatever stands behind it. -/
theorem strip_code_append (s : Style) (rest : List Char) : strip (s.code ++ rest) = strip rest := by
  obtain ⟨d, ds, hcode, hd, hds, hlength⟩ := exists_code s
  have hdigit : Scan.introduced.step d = some (.digits 1) := by
    unfold Scan.step
    rw [if_pos hd]
    rfl
  have hbracket : Scan.opened.step '[' = some .introduced := rfl
  have hlongest := longest_cons hbracket
    (longest_cons hdigit (longest_digits hds (by omega : 1 + ds.length ≤ 4) rest))
  have hsplit : s.code ++ rest = '\x1b' :: '[' :: d :: (ds ++ 'm' :: rest) := by
    rw [hcode]
    simp
  rw [hsplit, strip_of_longest (by decide) hlongest]
  -- the length counts the bracket, the digits and the letter, and that leaves the rest
  simp

/-! ## Texts with styles -/

/-- What stripping leaves of a piece on its own. -/
def Piece.stripped : Piece → List Char
  | style _ => []
  | plain text => strip text

/-- No plain piece has an escape character. -/
def Harmless (t : Styled) : Prop :=
  ∀ text, .plain text ∈ t → HasNoEscape text

/-- The first plain piece, if there is one, begins with a space or a line feed. -/
def Breaks : Styled → Prop
  | [] => True
  | .style _ :: t => Breaks t
  | .plain text :: _ => text.head? = some ' ' ∨ text.head? = some '\n'

/-- The plain pieces keep to themselves: each is free of escape characters or is followed by a space
or a line feed, with nothing but styles between. -/
def Apart : Styled → Prop
  | [] => True
  | .style _ :: t => Apart t
  | .plain text :: t => (HasNoEscape text ∨ Breaks t) ∧ Apart t

section Styled

variable {t u : Styled} {style : Style}

@[simp] theorem harmless_nil : Harmless [] :=
  fun _ h => absurd h List.not_mem_nil

@[simp] theorem harmless_cons_style : Harmless (.style style :: t) ↔ Harmless t := by
  simp [Harmless]

@[simp] theorem harmless_cons_plain :
    Harmless (.plain text :: t) ↔ HasNoEscape text ∧ Harmless t := by
  simp [Harmless]

@[simp] theorem harmless_append : Harmless (t ++ u) ↔ Harmless t ∧ Harmless u := by
  simp only [Harmless, List.mem_append, or_imp, forall_and]

@[simp] theorem harmless_inStyle : Harmless (inStyle style text) ↔ HasNoEscape text := by
  simp [inStyle]

theorem apart_cons_plain (h : Breaks t) : Apart (.plain text :: t) ↔ Apart t :=
  and_iff_right (.inr h)

theorem apart_cons_plain_of_hasNoEscape (h : HasNoEscape text) :
    Apart (.plain text :: t) ↔ Apart t :=
  and_iff_right (.inl h)

theorem apart_inStyle_append (h : Breaks t) : Apart (inStyle style text ++ t) ↔ Apart t :=
  apart_cons_plain (t := .style .reset :: t) h

theorem Apart.append_of_harmless (ht : Harmless t) (hu : Apart u) : Apart (t ++ u) := by
  induction t with
  | nil => exact hu
  | cons p t ih =>
    cases p with
    | style s => exact ih (harmless_cons_style.mp ht)
    | plain text =>
      obtain ⟨htext, ht⟩ := harmless_cons_plain.mp ht
      exact ⟨.inl htext, ih ht⟩

/-- No sequence goes on with what is shown, be it a style or one of the two characters. -/
theorem Breaks.stops (h : Breaks t) : Stops (colored t) := by
  cases t with
  | nil => exact stops_nil
  | cons p t =>
    rw [colored, List.flatMap_cons]
    cases p with
    | style s =>
      obtain ⟨d, ds, hcode, -⟩ := exists_code s
      rw [Piece.colored, hcode]
      exact stops_escape _
    | plain text =>
      rcases h with h | h
      · obtain ⟨more, rfl⟩ := List.head?_eq_some_iff.mp h
        exact stops_space _
      · obtain ⟨more, rfl⟩ := List.head?_eq_some_iff.mp h
        exact stops_newline _

/-- Where the plain pieces keep to themselves, stripping takes out the styles and strips each piece
on its own. -/
theorem strip_colored (h : Apart t) : strip (colored t) = t.flatMap Piece.stripped := by
  induction t with
  | nil => rfl
  | cons p t ih =>
    rw [colored, List.flatMap_cons, ← colored, List.flatMap_cons]
    cases p with
    | style s =>
      rw [Piece.colored, strip_code_append, ih h]
      rfl
    | plain text =>
      obtain ⟨hfree | hbreaks, ht⟩ := h
      · rw [Piece.colored, strip_append_of_hasNoEscape hfree, ih ht, Piece.stripped,
          strip_eq_self hfree]
      · rw [Piece.colored, strip_append hbreaks.stops, ih ht, Piece.stripped]

/-- Pieces without escape characters stay as they are. -/
theorem flatMap_stripped_eq_bare (h : Harmless t) : t.flatMap Piece.stripped = bare t := by
  refine List.flatMap_congr fun p hp => ?_
  cases p with
  | style s => rfl
  | plain text => exact strip_eq_self (h text hp)

end Styled

/-! ## Introducers that are left -/

/-- The text is whole control sequences, and then the rest. -/
inductive Reaches : List Char → List Char → Prop
  | here (rest : List Char) : Reaches rest rest
  | past {c : Char} {text rest : List Char} {n : Nat} (hc : isEscape c = true)
    (hlongest : Scan.opened.longest text = some n) (h : Reaches (text.drop n) rest) :
    Reaches (c :: text) rest

/-- An escape character begins no sequence, and has only whole sequences between itself and a
bracket. -/
def LeavesIntroducer (text : List Char) : Prop :=
  ∃ behind rest, '\x1b' :: behind <:+ text ∧ Scan.opened.longest behind = none ∧
    Reaches behind ('[' :: rest)

/-- One of the plain pieces leaves an introducer. -/
def Leaves (t : Styled) : Prop :=
  ∃ text, .plain text ∈ t ∧ LeavesIntroducer text

theorem LeavesIntroducer.mem (h : LeavesIntroducer text) : '\x1b' ∈ text := by
  obtain ⟨behind, rest, hsuffix, -⟩ := h
  exact hsuffix.subset List.mem_cons_self

theorem not_leavesIntroducer (h : HasNoEscape text) : ¬LeavesIntroducer text := fun hleaves =>
  absurd (hasNoEscape_iff.mp h _ hleaves.mem) (by decide)

section Leaves

variable {t u : Styled} {style : Style}

@[simp] theorem leaves_nil : ¬Leaves [] := fun ⟨_, h, _⟩ => List.not_mem_nil h

@[simp] theorem leaves_cons_style : Leaves (.style style :: t) ↔ Leaves t := by
  simp [Leaves]

@[simp] theorem leaves_cons_plain :
    Leaves (.plain text :: t) ↔ LeavesIntroducer text ∨ Leaves t := by
  simp [Leaves, or_and_right, exists_or]

@[simp] theorem leaves_append : Leaves (t ++ u) ↔ Leaves t ∨ Leaves u := by
  simp only [Leaves, List.mem_append, or_and_right, exists_or]

@[simp] theorem leaves_inStyle : Leaves (inStyle style text) ↔ LeavesIntroducer text := by
  simp [inStyle]

theorem Harmless.not_leaves (h : Harmless t) : ¬Leaves t := fun ⟨text, hmem, hleaves⟩ =>
  not_leavesIntroducer (h text hmem) hleaves

end Leaves

/-- Whole sequences are removed. -/
theorem strip_of_reaches (h : Reaches text rest) : strip text = strip rest := by
  induction h with
  | here rest => rfl
  | past hc hlongest h ih => rw [strip_of_longest hc hlongest, ih]

/-- What is kept first stands behind whole sequences. -/
theorem exists_reaches (h : c :: rest = strip text) : ∃ behind, Reaches text (c :: behind) := by
  induction text using strip_induction with
  | nil => cases h
  | sequence d text n hd hlongest ih =>
    rw [strip_of_longest hd hlongest] at h
    obtain ⟨behind, hbehind⟩ := ih h
    exact ⟨behind, .past hd hlongest hbehind⟩
  | kept d text hkept ih =>
    rw [strip_kept hkept] at h
    obtain ⟨rfl, -⟩ := List.cons.inj h
    exact ⟨text, .here _⟩

/-- **An introducer is left by stripping** just where an escape character that begins no sequence
has only whole sequences between itself and a bracket. -/
theorem introducer_infix_strip_iff : introducer <:+: strip text ↔ LeavesIntroducer text := by
  constructor
  · -- only what is kept can begin an introducer, and then the bracket is what is kept next
    intro h
    induction text using strip_induction with
    | nil => exact absurd (List.infix_nil.mp h) (List.cons_ne_nil _ _)
    | sequence c text n hc hlongest ih =>
      rw [strip_of_longest hc hlongest] at h
      obtain ⟨behind, rest, hsuffix, hleft⟩ := ih h
      exact ⟨behind, rest,
        (hsuffix.trans (List.drop_suffix n text)).trans (List.suffix_cons c text), hleft⟩
    | kept c text hkept ih =>
      rw [strip_kept hkept, List.infix_cons_iff] at h
      rcases h with ⟨rest, h⟩ | h
      · obtain ⟨rfl, hbracket⟩ := List.cons.inj h
        obtain ⟨behind, hbehind⟩ := exists_reaches hbracket
        exact ⟨text, behind, List.suffix_refl _, hkept (by decide), hbehind⟩
      · obtain ⟨behind, rest, hsuffix, hleft⟩ := ih h
        exact ⟨behind, rest, hsuffix.trans (List.suffix_cons c text), hleft⟩
  · rintro ⟨behind, rest, ⟨front, rfl⟩, hlongest, hreaches⟩
    refine ⟨strip front, strip rest, ?_⟩
    -- no sequence of the front goes on with the escape character, so it is met as it stands
    rw [strip_append (stops_escape behind), strip_of_longest_eq_none hlongest,
      strip_of_reaches hreaches, strip_cons (by decide), List.append_assoc]
    rfl

/-- An introducer lies across a seam only when the escape character stands on its one side and the
bracket on the other. -/
theorem introducer_infix_append (h : '\x1b' ∉ text ∨ rest.head? ≠ some '[') :
    introducer <:+: text ++ rest ↔ introducer <:+: text ∨ introducer <:+: rest := by
  induction text with
  | nil =>
    rw [List.nil_append, List.infix_nil]
    exact (or_iff_right (List.cons_ne_nil _ _)).symm
  | cons c text ih =>
    have hrest : '\x1b' ∉ text ∨ rest.head? ≠ some '[' :=
      h.imp_left fun hc hmem => hc (List.mem_cons_of_mem c hmem)
    -- at the seam the escape character would be the last one of the text
    have hfront : introducer <+: c :: (text ++ rest) ↔ introducer <+: c :: text := by
      rw [introducer, List.cons_prefix_cons, List.cons_prefix_cons]
      refine and_congr_right fun hc => ?_
      cases text with
      | nil =>
        have hhead : rest.head? ≠ some '[' :=
          h.resolve_left fun hmem => hmem (hc ▸ List.mem_cons_self)
        rw [List.nil_append]
        refine iff_of_false (fun ⟨more, hmore⟩ => hhead ?_) fun ⟨more, hmore⟩ => by cases hmore
        rw [← hmore]
        rfl
      | cons d text =>
        rw [List.cons_append, List.cons_prefix_cons, List.cons_prefix_cons]
        exact and_congr_right fun _ => iff_of_true List.nil_prefix List.nil_prefix
    rw [List.cons_append, List.infix_cons_iff, List.infix_cons_iff, hfront, ih hrest, or_assoc]

/-- What is stripped and shown behind such pieces does not begin with a bracket. -/
theorem Breaks.head?_ne {t : Styled} (h : Breaks t) :
    (t.flatMap Piece.stripped).head? ≠ some '[' := by
  induction t with
  | nil => exact (Option.some_ne_none _).symm
  | cons p t ih =>
    rw [List.flatMap_cons]
    cases p with
    | style s => exact ih h
    | plain text =>
      rcases h with h | h
      · obtain ⟨more, rfl⟩ := List.head?_eq_some_iff.mp h
        rw [Piece.stripped, strip_cons (by decide)]
        exact (by decide : some ' ' ≠ some '[')
      · obtain ⟨more, rfl⟩ := List.head?_eq_some_iff.mp h
        rw [Piece.stripped, strip_cons (by decide)]
        exact (by decide : some '\n' ≠ some '[')

/-- Where the plain pieces keep to themselves, introducers are left in pieces and not between
them. -/
theorem introducer_infix_flatMap_stripped {t : Styled} (h : Apart t) :
    introducer <:+: t.flatMap Piece.stripped ↔ Leaves t := by
  induction t with
  | nil => exact iff_of_false (fun h => List.cons_ne_nil _ _ (List.infix_nil.mp h)) leaves_nil
  | cons p t ih =>
    rw [List.flatMap_cons]
    cases p with
    | style s => rw [Piece.stripped, List.nil_append, ih h, leaves_cons_style]
    | plain text =>
      have hseam : '\x1b' ∉ strip text ∨ (t.flatMap Piece.stripped).head? ≠ some '[' := by
        rcases h.1 with hfree | hbreaks
        · rw [strip_eq_self hfree]
          exact .inl fun hmem => absurd (hasNoEscape_iff.mp hfree _ hmem) (by decide)
        · exact .inr hbreaks.head?_ne
      rw [Piece.stripped, introducer_infix_append hseam, introducer_infix_strip_iff, ih h.2,
        leaves_cons_plain]

/-- Spaces behind a text leave nothing. -/
theorem leavesIntroducer_append_spaces (text : List Char) (n : Nat) :
    LeavesIntroducer (text ++ List.replicate n ' ') ↔ LeavesIntroducer text := by
  have hstops : Stops (List.replicate n ' ') := by
    cases n with
    | zero => exact stops_nil
    | succ n => exact stops_space _
  have hspaces : HasNoEscape (List.replicate n ' ') := hasNoEscape_replicate (by decide) n
  have hhead : (List.replicate n ' ').head? ≠ some '[' := by
    cases n with
    | zero => exact (Option.some_ne_none _).symm
    | succ n => exact (by decide : some ' ' ≠ some '[')
  have hnone : ¬introducer <:+: List.replicate n ' ' := by
    rw [← strip_eq_self hspaces, introducer_infix_strip_iff]
    exact not_leavesIntroducer hspaces
  rw [← introducer_infix_strip_iff, strip_append hstops, strip_eq_self hspaces,
    introducer_infix_append (.inr hhead), or_iff_left hnone, introducer_infix_strip_iff]

end SuffixLint.Terminal
