import SuffixLint.Json.Number
import SuffixLint.Json.Printer
import SuffixLint.Proofs.Decimal.Digits
/-!
# Tokens read back

What is written for a token is read as that token, whatever follows it. The one condition is on
numbers, which go on as long as they can: what follows a number must not be a part of it
(`EndsNumber`). Where a step of reading is said to give a value and to leave a rest (`Reads`), the
rest is named as a text, without the proof that it is shorter.
-/

namespace SuffixLint.Json.Lexeme

open Decimal Text

/-- A step of reading gives a value and leaves a rest. -/
def Reads {α : Type} (read : Read α) (cs : List Char) (x : α) (rest : List Char) : Prop :=
  ∃ r : Rest cs, read cs = .ok (x, r) ∧ r.val = rest

/-- Nothing but spaces. -/
def Spaces (cs : List Char) : Prop :=
  ∀ c ∈ cs, isSpace c = true

theorem spaces_nil : Spaces [] := by
  intro c hc
  cases hc

theorem Spaces.append {cs ds : List Char} (h : Spaces cs) (h' : Spaces ds) : Spaces (cs ++ ds) :=
  List.forall_mem_append.mpr ⟨h, h'⟩

/-- A number that stands before a text does not go on in it. -/
def EndsNumber (rest : List Char) : Prop :=
  ∀ c r, rest = c :: r → c.isDigit = false ∧ c ≠ '.' ∧ c ≠ 'e' ∧ c ≠ 'E'

theorem endsNumber_nil : EndsNumber [] := by
  intro c r h
  cases h

theorem endsNumber_cons {c : Char} (h : c.isDigit = false ∧ c ≠ '.' ∧ c ≠ 'e' ∧ c ≠ 'E')
    (r : List Char) : EndsNumber (c :: r) := by
  intro d r' hd
  cases hd
  exact h

/-- A space ends a number. -/
theorem endsNumber_space {c : Char} (h : isSpace c = true) (r : List Char) :
    EndsNumber (c :: r) := by
  refine endsNumber_cons ?_ r
  simp only [isSpace, Bool.or_eq_true, decide_eq_true_eq] at h
  rcases h with ((rfl | rfl) | rfl) | rfl <;> decide

/-! ## Spaces and words -/

/-- The next character of a text that begins with no space is its first. -/
theorem next_cons {c : Char} (hc : isSpace c = false) (rest : List Char) :
    next (c :: rest) = some (c, behind rest) := by
  rw [next, if_neg (Bool.eq_false_iff.mp hc)]

/-- Spaces are passed over. -/
theorem next_append {sp : List Char} (hsp : Spaces sp) {c : Char} (hc : isSpace c = false)
    (rest : List Char) :
    ∃ r : Rest (sp ++ c :: rest), next (sp ++ c :: rest) = some (c, r) ∧ r.val = rest := by
  induction sp with
  | nil =>
    rw [List.nil_append]
    exact ⟨behind rest, next_cons hc rest, rfl⟩
  | cons s sp ih =>
    obtain ⟨r, hr, hrest⟩ := ih fun d hd => hsp d (List.mem_cons_of_mem s hd)
    rw [List.cons_append]
    refine ⟨r.past, ?_, hrest⟩
    rw [next, if_pos (hsp s List.mem_cons_self), hr]
    rfl

/-- A word is read where it stands. -/
theorem word_append (w rest : List Char) :
    ∃ t : Tail (w ++ rest), word w (w ++ rest) = .ok t ∧ t.val = rest := by
  induction w with
  | nil => exact ⟨unread rest, rfl, rfl⟩
  | cons c w ih =>
    obtain ⟨t, ht, hrest⟩ := ih
    rw [List.cons_append]
    refine ⟨t.past.toTail, ?_, hrest⟩
    rw [word, if_pos rfl, ht]
    rfl

/-- A reader that is settled by the first character of a text reads it back when it reads back what
stands behind that character. -/
theorem reads_behind {α β : Type} {read : Read β} {inner : Read α} {x : α} {y : β} {c : Char}
    {cs rest : List Char} (hc : isSpace c = false) (hcs : Reads inner cs x rest)
    (h : ∀ text, ∀ r : Rest text, ∀ r' : Rest r.val, next text = some (c, r) →
      inner r.val = .ok (x, r') → read text = .ok (y, r.rest r'))
    {sp : List Char} (hsp : Spaces sp) : Reads read (sp ++ c :: cs) y rest := by
  obtain ⟨r, hr, hval⟩ := next_append hsp hc cs
  rw [← hval] at hcs
  obtain ⟨r', hr', hval'⟩ := hcs
  exact ⟨r.rest r', h _ r r' hr hr', hval'⟩

/-- A reader that is settled by the first letter of a word reads the word back. -/
theorem reads_of_word {α : Type} {read : Read α} {x : α} {c : Char} {w : List Char}
    (hc : isSpace c = false)
    (h : ∀ cs, ∀ r : Rest cs, next cs = some (c, r) →
      read cs = (word w r.val).map fun t => (x, r.tail t))
    {sp : List Char} (hsp : Spaces sp) (rest : List Char) :
    Reads read (sp ++ (c :: w ++ rest)) x rest := by
  rw [List.cons_append]
  obtain ⟨r, hr, hval⟩ := next_append hsp hc (w ++ rest)
  have hword := word_append w rest
  rw [← hval] at hword
  obtain ⟨t, ht, htval⟩ := hword
  refine ⟨r.tail t, ?_, htval⟩
  rw [h _ r hr, ht]
  rfl

/-! ## Strings -/

theorem hexValue?_hexLetter {d : Nat} (h : d < 16) : hexValue? (hexLetter d) = some d := by
  have hall : ∀ e, e < 16 → hexValue? (hexLetter e) = some e := by decide
  exact hall d h

/-- An escape of one letter. -/
theorem reads_escape_short {e x : Char} (h : shortEscape? e = some x) (rest : List Char) :
    Reads escape (e :: rest) x rest := by
  refine ⟨behind rest, ?_, rfl⟩
  rw [escape, h]

/-- A control is escaped by its number. -/
theorem reads_escape_control {c : Char} (h : c.toNat < 0x20) (rest : List Char) :
    Reads escape ('u' :: '0' :: '0' :: hexLetter (c.toNat / 16) :: hexLetter (c.toNat % 16) :: rest)
      c rest := by
  -- a control is below 32, so two digits are enough and it is no half of a pair
  have hhex : hexNumber? '0' '0' (hexLetter (c.toNat / 16)) (hexLetter (c.toNat % 16)) =
      some c.toNat := by
    have hzero : hexValue? '0' = some 0 := by decide
    rw [hexNumber?, hzero, hexValue?_hexLetter (by omega), hexValue?_hexLetter (by omega)]
    simp only [Option.bind_eq_bind, Option.bind_some, Option.pure_def, Option.some.injEq]
    omega
  have hlow : isLowSurrogate c.toNat = false := by
    simp only [isLowSurrogate, Bool.and_eq_false_iff, decide_eq_false_iff_not]
    omega
  have hhigh : isHighSurrogate c.toNat = false := by
    simp only [isHighSurrogate, Bool.and_eq_false_iff, decide_eq_false_iff_not]
    omega
  refine ⟨(behind rest).past.past.past.toTail.past, ?_, rfl⟩
  have hshort : shortEscape? 'u' = none := by decide
  rw [escape, hshort]
  simp only [ne_eq, not_true_eq_false, if_false, hexEscape, hhex, hlow, hhigh,
    Bool.false_eq_true, Char.ofNat_toNat]

/-- A character that is escaped is read as one character of a string. -/
theorem reads_stringBody_escape {cs rest : List Char} {x : Char} {s : List Char} {e : List Char}
    (he : Reads escape e x cs) (h : Reads stringBody cs s rest) :
    Reads stringBody ('\\' :: e) (x :: s) rest := by
  obtain ⟨r', hr', rfl⟩ := he
  obtain ⟨t, ht, hrest⟩ := h
  refine ⟨(r'.rest t).past, ?_, hrest⟩
  rw [stringBody, if_neg (by decide), if_pos rfl]
  simp only [hr', ht]

/-- A character is read back from what is written for it in a string. -/
theorem reads_stringBody_escapeChar (c : Char) {cs rest s : List Char}
    (h : Reads stringBody cs s rest) : Reads stringBody (escapeChar c ++ cs) (c :: s) rest := by
  unfold escapeChar
  split
  -- seven characters have an escape of one letter
  iterate 7 exact reads_stringBody_escape (reads_escape_short rfl cs) h
  · rename_i hquote hslash _ _ _ _ _
    split
    · rename_i hcontrol
      exact reads_stringBody_escape (reads_escape_control hcontrol cs) h
    · rename_i hplain
      obtain ⟨t, ht, hrest⟩ := h
      rw [List.cons_append, List.nil_append]
      refine ⟨t.past, ?_, hrest⟩
      rw [stringBody, if_neg hquote, if_neg hslash, if_neg hplain]
      simp only [ht]

/-- A string is read back from what is written behind its opening quote. -/
theorem reads_string (s : String) (rest : List Char) :
    Reads Lexeme.string (s.toList.flatMap escapeChar ++ '"' :: rest) s rest := by
  have hbody : ∀ cs : List Char,
      Reads stringBody (cs.flatMap escapeChar ++ '"' :: rest) cs rest := by
    intro cs
    induction cs with
    | nil =>
      rw [List.flatMap_nil, List.nil_append]
      refine ⟨behind rest, ?_, rfl⟩
      rw [stringBody, if_pos rfl]
    | cons c cs ih =>
      rw [List.flatMap_cons, List.append_assoc]
      exact reads_stringBody_escapeChar c ih
  obtain ⟨r, hr, hrest⟩ := hbody s.toList
  refine ⟨r, ?_, hrest⟩
  rw [Lexeme.string, hr]
  change Except.ok (String.ofList s.toList, r) = _
  rw [String.ofList_toList]

theorem writeString_append (s : String) (rest : List Char) :
    writeString s ++ rest = '"' :: (s.toList.flatMap escapeChar ++ '"' :: rest) := by
  rw [writeString, List.cons_append, List.cons_append, List.append_assoc, List.singleton_append]

/-- A string is met at its opening quote and read back behind it. -/
theorem next_writeString {sp : List Char} (hsp : Spaces sp) (s : String) (rest : List Char) :
    ∃ r : Rest (sp ++ (writeString s ++ rest)),
      next (sp ++ (writeString s ++ rest)) = some ('"', r) ∧ Reads Lexeme.string r.val s rest := by
  rw [writeString_append]
  obtain ⟨r, hr, hval⟩ := next_append hsp (c := '"') (by decide)
    (s.toList.flatMap escapeChar ++ '"' :: rest)
  refine ⟨r, hr, ?_⟩
  rw [hval]
  exact reads_string s rest

/-! ## Numbers -/

/-- A run of digits goes as far as there are digits. -/
theorem digitRun_append {ds rest : List Char} (hds : ∀ c ∈ ds, c.isDigit = true)
    (hrest : ∀ c r, rest = c :: r → c.isDigit = false) :
    ∃ t : Tail (ds ++ rest), digitRun (ds ++ rest) = (ds, t) ∧ t.val = rest := by
  induction ds with
  | nil =>
    cases rest with
    | nil => exact ⟨unread [], rfl, rfl⟩
    | cons c r =>
      rw [List.nil_append]
      refine ⟨unread (c :: r), ?_, rfl⟩
      rw [digitRun, if_neg (Bool.eq_false_iff.mp (hrest c r rfl))]
  | cons d ds ih =>
    obtain ⟨t, ht, htrest⟩ := ih fun c hc => hds c (List.mem_cons_of_mem d hc)
    rw [List.cons_append]
    refine ⟨t.past.toTail, ?_, htrest⟩
    rw [digitRun, if_pos (hds d List.mem_cons_self), ht]

/-- The digits of a number are a whole part. -/
theorem wholePart_digits {n : Nat} {c : Char} {ds rest : List Char} (hds : digits n = c :: ds)
    (hrest : EndsNumber rest) :
    ∃ r : Rest (c :: (ds ++ rest)),
      wholePart false (c :: (ds ++ rest)) = .ok (c :: ds, r) ∧ r.val = rest := by
  have hdigit : ∀ d ∈ c :: ds, d.isDigit = true := fun d hd =>
    isDigit_of_mem_digits (hds ▸ hd)
  by_cases hc : c = '0'
  · -- a zero in front is the number zero, and stands alone
    obtain ⟨c', ds', hds', hzero⟩ := exists_digits_eq_cons n
    rw [hds, List.cons.injEq] at hds'
    obtain ⟨rfl, rfl⟩ := hds'
    obtain ⟨-, rfl⟩ := hzero hc
    rw [List.nil_append]
    refine ⟨behind rest, ?_, rfl⟩
    subst hc
    unfold wholePart
    cases rest with
    | nil => rfl
    | cons d r => simp only [if_true, (hrest d r rfl).1, Bool.false_eq_true, if_false]
  · obtain ⟨t, ht, htrest⟩ :=
      digitRun_append (fun d hd => hdigit d (List.mem_cons_of_mem c hd)) fun d r hd =>
        (hrest d r hd).1
    refine ⟨t.past, ?_, htrest⟩
    unfold wholePart
    simp only [hc, if_false, hdigit c List.mem_cons_self, if_true, ht]

/-- There is no fraction behind a number that has ended. -/
theorem fractionPart_of_ends {rest : List Char} (h : EndsNumber rest) :
    fractionPart false rest = .ok (none, unread rest) := by
  unfold fractionPart
  split
  · rename_i r
    exact absurd rfl (h '.' r rfl).2.1
  · rfl

/-- There is no power of ten behind a number that has ended. -/
theorem powerPart_of_ends {rest : List Char} (h : EndsNumber rest) :
    powerPart false rest = .ok (none, unread rest) := by
  cases rest with
  | nil => rfl
  | cons c r =>
    obtain ⟨-, -, he, hE⟩ := h c r rfl
    rw [powerPart, if_neg]
    simp only [Bool.or_eq_true, decide_eq_true_eq, he, hE, or_self, not_false_eq_true]

/-- The digits of a number are a number as it is written. -/
theorem numeral_digits {n : Nat} {c : Char} {ds rest : List Char} (hds : digits n = c :: ds)
    (hrest : EndsNumber rest) :
    ∃ r : Rest (c :: (ds ++ rest)),
      numeral false (c :: (ds ++ rest)) = .ok (⟨c :: ds, none, none⟩, r) ∧ r.val = rest := by
  obtain ⟨r, hr, hval⟩ := wholePart_digits hds hrest
  -- a number ends where its whole part does: no point and no power follow
  have hends : EndsNumber r.val := by rwa [hval]
  have hpower : powerPart false (unread r.val).val = .ok (none, unread r.val) :=
    powerPart_of_ends hends
  refine ⟨(r.tail (unread r.val)).tail (unread r.val), ?_, hval⟩
  rw [numeral]
  simp only [hr, fractionPart_of_ends hends, hpower]

/-- All digits of a number that fits 64 bits are taken into it. -/
theorem absorb_of_lt {n : Nat} {ds : List Char} (h : valueFrom n ds < UInt64.size) :
    absorb n ds = (valueFrom n ds, ds.length) := by
  induction ds generalizing n with
  | nil => rfl
  | cons c ds ih =>
    have hstep : valueFrom (n * 10 + digitValue c) ds = valueFrom n (c :: ds) := rfl
    rw [← hstep] at h
    have hfits : n * 10 + digitValue c < UInt64.size := Nat.lt_of_le_of_lt (le_valueFrom _ ds) h
    rw [absorb, if_pos hfits, ih h, hstep, List.length_cons]

/-- Digits alone are worth the number that they stand for, if it fits 64 bits. -/
theorem value_whole {ds : List Char} (h : value ds < UInt64.size) :
    Numeral.value false ⟨ds, none, none⟩ = .ok (.whole (value ds)) := by
  have habsorb : absorb 0 ds = (value ds, ds.length) := absorb_of_lt h
  simp only [Numeral.value, habsorb, Nat.sub_self, and_self, if_true, wholeNumber, Bool.not_false]

/-- The value of the digits of a number that fits 64 bits is the number. -/
theorem value_numeral {n : Nat} (h : n < UInt64.size) {c : Char} {ds : List Char}
    (hds : digits n = c :: ds) : Numeral.value false ⟨c :: ds, none, none⟩ = .ok (.whole n) := by
  have hvalue : value (c :: ds) = n := by rw [← hds, value_digits]
  rw [← hvalue] at h
  rw [value_whole h, hvalue]

/-- A natural number that fits 64 bits is read back behind its first digit. -/
theorem number_digits {n : Nat} (h : n < UInt64.size) {c : Char} {ds rest : List Char}
    (hds : digits n = c :: ds) (hrest : EndsNumber rest) :
    ∃ t : Tail (ds ++ rest), number c (ds ++ rest) = .ok (.whole n, t) ∧ t.val = rest := by
  have hminus : c ≠ '-' := by
    rintro rfl
    have hdigit : '-'.isDigit = true := isDigit_of_mem_digits (hds ▸ List.mem_cons_self)
    exact absurd hdigit (by decide)
  obtain ⟨r, hr, hrest'⟩ := numeral_digits hds hrest
  refine ⟨r.behindFirst, ?_, hrest'⟩
  rw [number, if_neg hminus]
  simp only [hr, value_numeral h hds]
  rfl

/-- A digit is no space, opens no string and no bracket, and is no letter that a word begins
with. -/
theorem of_isDigit {c : Char} (h : c.isDigit = true) :
    isSpace c = false ∧ (c ≠ '"' ∧ c ≠ '[' ∧ c ≠ '\x7b') ∧ (c ≠ 'n' ∧ c ≠ 't' ∧ c ≠ 'f') := by
  have hne : ∀ d : Char, d.isDigit = false → c ≠ d := by
    rintro d hd rfl
    rw [h] at hd
    cases hd
  refine ⟨?_, ⟨hne _ rfl, hne _ rfl, hne _ rfl⟩, hne _ rfl, hne _ rfl, hne _ rfl⟩
  simp only [isSpace, hne ' ' rfl, hne '\t' rfl, hne '\n' rfl, hne '\r' rfl, decide_false,
    Bool.or_false]

/-- A natural number that fits 64 bits is met at its first digit and read back from there. -/
theorem next_digits {sp : List Char} (hsp : Spaces sp) {n : Nat} (h : n < UInt64.size)
    {rest : List Char} (hrest : EndsNumber rest) :
    ∃ c, ∃ r : Rest (sp ++ (digits n ++ rest)),
      c.isDigit = true ∧ next (sp ++ (digits n ++ rest)) = some (c, r) ∧
        ∃ t : Tail r.val, number c r.val = .ok (.whole n, t) ∧ t.val = rest := by
  obtain ⟨c, ds, hds, -⟩ := exists_digits_eq_cons n
  have hdigit : c.isDigit = true := isDigit_of_mem_digits (hds ▸ List.mem_cons_self)
  rw [hds, List.cons_append]
  obtain ⟨r, hr, hval⟩ := next_append hsp (of_isDigit hdigit).1 (ds ++ rest)
  refine ⟨c, r, hdigit, hr, ?_⟩
  rw [hval]
  exact number_digits h hds hrest

end SuffixLint.Json.Lexeme
