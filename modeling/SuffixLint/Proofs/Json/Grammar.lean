import SuffixLint.Proofs.Json.Lexeme
import SuffixLint.Text.Blank
/-!
# Texts that are documents

The grammar of documents as a predicate on texts, apart from any reader: how a number is put
together, what may stand in a string, and how items and members are listed between brackets. It says
nothing about what a reader may still refuse in a text of that form, such as a number that is too
large, half a surrogate pair, or too many brackets inside each other.

A document may stand between spaces. What is between them begins with a character that tells it from
the ends of lists and objects (`exists_start`), and does not end in a space, so a space at the end of
a document may be left out (`IsDocument.of_append_space`).
-/

namespace SuffixLint.Json

open Lexeme Text

/-! ## Numbers -/

/-- At least one digit. -/
def AreDigits (ds : List Char) : Prop :=
  ds ≠ [] ∧ ∀ c ∈ ds, c.isDigit = true

/-- The whole part of a number: a zero alone, or digits of which the first is no zero. -/
inductive IsWhole : List Char → Prop
  | zero : IsWhole ['0']
  | digits {c : Char} {ds : List Char} (hc : c.isDigit = true) (hzero : c ≠ '0')
    (hds : ∀ d ∈ ds, d.isDigit = true) : IsWhole (c :: ds)

/-- The fraction of a number, if it has one. -/
inductive IsFraction : List Char → Prop
  | absent : IsFraction []
  | point {ds : List Char} (h : AreDigits ds) : IsFraction ('.' :: ds)

/-- The power of ten of a number, if it has one. -/
inductive IsPower : List Char → Prop
  | absent : IsPower []
  | letter {e : Char} {sign ds : List Char} (he : e = 'e' ∨ e = 'E')
    (hsign : sign = [] ∨ sign = ['+'] ∨ sign = ['-']) (h : AreDigits ds) :
    IsPower (e :: (sign ++ ds))

/-- A number behind its sign. -/
inductive IsNumeral : List Char → Prop
  | parts {whole fraction power : List Char} (hwhole : IsWhole whole)
    (hfraction : IsFraction fraction) (hpower : IsPower power) :
    IsNumeral (whole ++ (fraction ++ power))

/-! ## Strings -/

/-- What stands between the quotes of a string. -/
inductive IsBody : List Char → Prop
  | nil : IsBody []
  | plain {c : Char} {cs : List Char} (hquote : c ≠ '"') (hslash : c ≠ '\\')
    (hcontrol : ¬c.toNat < 0x20) (h : IsBody cs) : IsBody (c :: cs)
  | short {e : Char} {cs : List Char} (he : e ∈ "\"\\/bfnrt".toList) (h : IsBody cs) :
    IsBody ('\\' :: e :: cs)
  | number {a b c d : Char} {cs : List Char} (ha : (hexValue? a).isSome)
    (hb : (hexValue? b).isSome) (hc : (hexValue? c).isSome) (hd : (hexValue? d).isSome)
    (h : IsBody cs) : IsBody ('\\' :: 'u' :: a :: b :: c :: d :: cs)

/-- The key of a member, with spaces around it. -/
inductive IsKey : List Char → Prop
  | spaced {before body behind : List Char} (hbefore : Spaces before) (hbody : IsBody body)
    (hbehind : Spaces behind) : IsKey (before ++ '"' :: (body ++ '"' :: behind))

/-! ## Documents -/

/-- Parts with a comma before each. -/
def listed (parts : List (List Char)) : List Char :=
  parts.flatMap (',' :: ·)

theorem listed_cons_append (t : List Char) (ts : List (List Char)) (rest : List Char) :
    listed (t :: ts) ++ rest = ',' :: (t ++ (listed ts ++ rest)) := by
  rw [listed, List.flatMap_cons, List.cons_append, List.cons_append, List.append_assoc]
  rfl

theorem intercalate_eq_listed (t : List Char) (ts : List (List Char)) :
    [','].intercalate (t :: ts) = t ++ listed ts := by
  induction ts generalizing t with
  | nil => rw [List.intercalate_singleton, listed, List.flatMap_nil, List.append_nil]
  | cons u ts ih =>
    rw [List.intercalate_cons_cons, ih, ← List.append_nil (listed (u :: ts)), listed_cons_append,
      List.append_nil, List.append_assoc]
    rfl

/-- A member as it is written: its key, a colon and its value. -/
def memberText (m : List Char × List Char) : List Char :=
  m.1 ++ ':' :: m.2

/-- A text that is one document. -/
inductive IsDocument : List Char → Prop
  | null : IsDocument "null".toList
  | true : IsDocument "true".toList
  | false : IsDocument "false".toList
  | positive {cs : List Char} (h : IsNumeral cs) : IsDocument cs
  | negative {cs : List Char} (h : IsNumeral cs) : IsDocument ('-' :: cs)
  | string {body : List Char} (h : IsBody body) : IsDocument ('"' :: (body ++ ['"']))
  | emptyArray {sp : List Char} (h : Spaces sp) : IsDocument ('[' :: (sp ++ [']']))
  | array {t : List Char} {ts : List (List Char)} (h : ∀ u ∈ t :: ts, IsDocument u) :
    IsDocument ('[' :: (t ++ (listed ts ++ [']'])))
  | emptyObject {sp : List Char} (h : Spaces sp) : IsDocument ('\x7b' :: (sp ++ ['\x7d']))
  | object {m : List Char × List Char} {ms : List (List Char × List Char)}
    (hkeys : ∀ n ∈ m :: ms, IsKey n.1) (hvalues : ∀ n ∈ m :: ms, IsDocument n.2) :
    IsDocument ('\x7b' :: (memberText m ++ (listed (ms.map memberText) ++ ['\x7d'])))
  | spaced {before t behind : List Char} (hbefore : Spaces before) (h : IsDocument t)
    (hbehind : Spaces behind) : IsDocument (before ++ (t ++ behind))

/-! ## First characters -/

theorem IsNumeral.exists_cons {cs : List Char} (h : IsNumeral cs) :
    ∃ c r, c.isDigit = true ∧ cs = c :: r := by
  obtain ⟨hwhole, -, -⟩ := h
  cases hwhole with
  | zero => exact ⟨_, _, rfl, rfl⟩
  | digits hc => exact ⟨_, _, hc, rfl⟩

/-- Whether a document may begin with a character. -/
def startsDocument (c : Char) : Bool :=
  c ∈ ['n', 't', 'f', '"', '[', '\x7b', '-'] || c.isDigit

theorem startsDocument_ne {c d : Char} (h : startsDocument c = true)
    (hd : startsDocument d = false) : c ≠ d := by
  rintro rfl
  rw [h] at hd
  cases hd

theorem isSpace_of_startsDocument {c : Char} (h : startsDocument c = true) : isSpace c = false := by
  have hne : ∀ d, startsDocument d = false → c ≠ d := fun _ => startsDocument_ne h
  simp only [isSpace, Bool.or_eq_false_iff, decide_eq_false_iff_not, and_assoc]
  exact ⟨hne _ (by decide), hne _ (by decide), hne _ (by decide), hne _ (by decide)⟩

theorem isBlank_of_startsDocument {c : Char} (h : startsDocument c = true) : isBlank c = false := by
  rw [startsDocument, Bool.or_eq_true, decide_eq_true_eq] at h
  rcases h with hmem | hdigit
  · have hall : ['n', 't', 'f', '"', '[', '\x7b', '-'].all (fun c => !isBlank c) = true := by decide
    exact (Bool.not_eq_true' _).mp (List.all_eq_true.mp hall c hmem)
  · have hbounds : 48 ≤ c.toNat ∧ c.toNat ≤ 57 := by
      simp only [Char.isDigit, Bool.and_eq_true, decide_eq_true_eq] at hdigit
      exact hdigit
    simp only [isBlank, blankRanges, List.any_cons, List.any_nil, Bool.or_eq_false_iff,
      Bool.and_eq_false_iff, decide_eq_false_iff_not, and_true]
    omega

/-- A document begins, behind spaces, with a character that a document may begin with. -/
theorem IsDocument.exists_start {t : List Char} (h : IsDocument t) :
    ∃ sp c r, Spaces sp ∧ startsDocument c = Bool.true ∧ t = sp ++ c :: r := by
  induction h with
  | null | true | false | negative | string | emptyArray | array | emptyObject | object =>
    exact ⟨[], _, _, spaces_nil, by decide, rfl⟩
  | positive h =>
    obtain ⟨c, r, hc, rfl⟩ := h.exists_cons
    refine ⟨[], c, r, spaces_nil, ?_, rfl⟩
    rw [startsDocument, hc, Bool.or_true]
  | @spaced before t behind hbefore _ _ ih =>
    obtain ⟨sp, c, r, hsp, hc, rfl⟩ := ih
    refine ⟨before ++ sp, c, r ++ behind, hbefore.append hsp, hc, ?_⟩
    simp only [List.append_assoc, List.cons_append]

theorem IsDocument.ne_nil {t : List Char} (h : IsDocument t) : t ≠ [] := by
  obtain ⟨sp, c, r, -, -, rfl⟩ := h.exists_start
  exact List.append_ne_nil_of_right_ne_nil sp (List.cons_ne_nil c r)

/-- A document is more than white space, also by the wider meaning of the word. -/
theorem IsDocument.not_allBlank {t : List Char} (h : IsDocument t) : allBlank t = Bool.false := by
  obtain ⟨sp, c, r, -, hc, rfl⟩ := h.exists_start
  rw [allBlank, List.all_append, List.all_cons, isBlank_of_startsDocument hc, Bool.false_and,
    Bool.and_false]

/-! ## Last characters -/

/-- A text that does not end in a space. -/
def EndsFirm (t : List Char) : Prop :=
  ∀ u c, t = u ++ [c] → isSpace c = false

theorem endsFirm_of_append {t u : List Char} {c : Char} (h : t = u ++ [c]) (hc : isSpace c = false) :
    EndsFirm t := by
  intro u' c' heq
  rw [h] at heq
  obtain ⟨-, hlast⟩ := List.append_inj' heq rfl
  rwa [List.singleton_inj.mp hlast] at hc

theorem endsFirm_of_forall {t : List Char} (h : ∀ c ∈ t, isSpace c = false) : EndsFirm t := by
  rintro u c rfl
  exact h c (List.mem_append_right u (List.mem_singleton_self c))

theorem noSpace_of_digits {ds : List Char} (h : ∀ d ∈ ds, d.isDigit = true) :
    ∀ d ∈ ds, isSpace d = false := by
  intro d hd
  exact (of_isDigit (h d hd)).1

/-- There is no space in a numeral. -/
theorem IsNumeral.noSpace {cs : List Char} (h : IsNumeral cs) : ∀ c ∈ cs, isSpace c = false := by
  obtain ⟨hwhole, hfraction, hpower⟩ := h
  refine List.forall_mem_append.mpr ⟨?_, List.forall_mem_append.mpr ⟨?_, ?_⟩⟩
  · cases hwhole with
    | zero => exact List.forall_mem_singleton.mpr (by decide)
    | digits hfirst _ hds =>
      exact List.forall_mem_cons.mpr ⟨(of_isDigit hfirst).1, noSpace_of_digits hds⟩
  · cases hfraction with
    | absent => exact List.forall_mem_nil _
    | point hds => exact List.forall_mem_cons.mpr ⟨by decide, noSpace_of_digits hds.2⟩
  · cases hpower with
    | absent => exact List.forall_mem_nil _
    | letter he hsign hds =>
      refine List.forall_mem_cons.mpr
        ⟨?_, List.forall_mem_append.mpr ⟨?_, noSpace_of_digits hds.2⟩⟩
      · rcases he with rfl | rfl <;> decide
      · rcases hsign with rfl | rfl | rfl
        · exact List.forall_mem_nil _
        · exact List.forall_mem_singleton.mpr (by decide)
        · exact List.forall_mem_singleton.mpr (by decide)

/-- **A space at the end of a document may be left out.** -/
theorem IsDocument.of_append_space {t : List Char} {c : Char} (h : IsDocument (t ++ [c]))
    (hc : isSpace c = Bool.true) : IsDocument t := by
  generalize hu : t ++ [c] = u at h
  -- only a document that stands between spaces ends in one
  have hfirm : EndsFirm u → IsDocument t := by
    intro hfirm
    rw [hfirm t c hu.symm] at hc
    cases hc
  induction h generalizing t with
  | null => exact hfirm (endsFirm_of_append (u := "nul".toList) rfl (by decide))
  | true => exact hfirm (endsFirm_of_append (u := "tru".toList) rfl (by decide))
  | false => exact hfirm (endsFirm_of_append (u := "fals".toList) rfl (by decide))
  | positive h => exact hfirm (endsFirm_of_forall h.noSpace)
  | negative h =>
    exact hfirm (endsFirm_of_forall (List.forall_mem_cons.mpr ⟨by decide, h.noSpace⟩))
  | string | emptyArray | emptyObject =>
    exact hfirm (endsFirm_of_append (List.cons_append ..).symm (by decide))
  | array | object =>
    apply hfirm
    rw [← List.append_assoc, ← List.cons_append]
    exact endsFirm_of_append rfl (by decide)
  | @spaced before u behind hbefore h hbehind ih =>
    rcases List.eq_nil_or_concat behind with rfl | ⟨others, x, rfl⟩
    · -- the space is in the document itself
      obtain ⟨v, x, rfl⟩ := (List.eq_nil_or_concat u).resolve_left h.ne_nil
      rw [List.append_nil, List.concat_eq_append, ← List.append_assoc] at hu
      obtain ⟨rfl, hx⟩ := List.append_inj' hu rfl
      obtain rfl := List.singleton_inj.mp hx
      have hv : IsDocument v := by
        apply ih List.concat_eq_append.symm
        intro hfirm
        rw [hfirm v c List.concat_eq_append] at hc
        cases hc
      have hwhole := IsDocument.spaced hbefore hv spaces_nil
      rwa [List.append_nil] at hwhole
    · rw [List.concat_eq_append, ← List.append_assoc, ← List.append_assoc] at hu
      obtain ⟨rfl, -⟩ := List.append_inj' hu rfl
      rw [List.append_assoc]
      apply IsDocument.spaced hbefore h
      intro d hd
      apply hbehind d
      rw [List.concat_eq_append]
      exact List.mem_append_left [x] hd

end SuffixLint.Json
