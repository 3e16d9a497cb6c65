import SuffixLint.Json.Skip
import SuffixLint.Proofs.Except
import SuffixLint.Proofs.Json.Structure
/-!
# Skipping what can be read

Whatever is read as a document can also be skipped, and the same is left behind it (`skip_of_read`).
Skipping is the laxer of the two, so nothing is said of the other direction: a number that is too
large, or half a surrogate pair, is skipped but not read.

The two follow a text in different steps. Reading takes a surrogate pair at once where skipping takes
two escapes, and reading looks for the end of a bracket before each item where skipping looks for it
behind each. So the statements below are about what is left of a text (`Leaves`), step by step
outwards.
-/

namespace SuffixLint.Json

open Lexeme Text

/-- A step that gives no value leaves a rest. -/
def Leaves (step : (cs : List Char) → Except Error (Rest cs)) (cs rest : List Char) : Prop :=
  ∃ r : Rest cs, step cs = .ok r ∧ r.val = rest

theorem Leaves.eq_ok {step : (cs : List Char) → Except Error (Rest cs)} {cs : List Char}
    {r : Rest cs} (h : Leaves step cs r.val) : step cs = .ok r := by
  obtain ⟨r', hr', hval⟩ := h
  rw [hr', Subtype.ext hval]

/-! ## Strings -/

theorem leaves_skipEscape_of_hexEscape {cs : List Char} {n : Nat} {t : Tail cs}
    (h : hexEscape cs = .ok (n, t)) : Leaves skipEscape ('u' :: cs) t.val := by
  refine ⟨t.past, ?_, rfl⟩
  have hshort : (shortEscape? 'u').isSome = false := by decide
  rw [skipEscape, hshort]
  simp [h]

/-- The other half of a pair is an escape of its own. -/
theorem leaves_skipEscape_of_lowSurrogate {cs : List Char} {high : Nat} {x : Char} {t : Tail cs}
    (h : lowSurrogate high cs = .ok (x, t)) :
    ∃ more, cs = '\\' :: more ∧ Leaves skipEscape more t.val := by
  unfold lowSurrogate at h
  split at h
  · cases h
  · cases h
  · rename_i digits
    split at h
    · cases h
    rename_i low t' hhex
    split at h
    · obtain ⟨-, rfl⟩ := Prod.mk.inj (Except.ok.inj h)
      exact ⟨'u' :: digits, rfl, leaves_skipEscape_of_hexEscape hhex⟩
    · cases h
  · cases h

/-- An escape is skipped in a string, and then what follows it. -/
theorem leaves_skipString_escape {cs e rest : List Char} (he : Leaves skipEscape e cs)
    (h : Leaves skipString cs rest) : Leaves skipString ('\\' :: e) rest := by
  obtain ⟨r, hr, rfl⟩ := he
  obtain ⟨t, ht, hrest⟩ := h
  refine ⟨(r.rest t).past, ?_, hrest⟩
  rw [skipString, if_neg (by decide), if_pos rfl]
  simp only [hr, ht]

/-- What is behind a character that is read as an escape is skipped behind that escape. -/
theorem leaves_skipString_of_escape {cs rest : List Char} {x : Char} {r : Rest cs}
    (h : escape cs = .ok (x, r)) (hrest : Leaves skipString r.val rest) :
    Leaves skipString ('\\' :: cs) rest := by
  unfold escape at h
  split at h
  · cases h
  rename_i c behindLetter
  split at h
  · rename_i short hshort
    obtain ⟨-, rfl⟩ := Prod.mk.inj (Except.ok.inj h)
    refine leaves_skipString_escape ⟨behind behindLetter, ?_, rfl⟩ hrest
    rw [skipEscape, hshort, Option.isSome_some, if_pos rfl]
  split at h
  · cases h
  rename_i hu
  obtain rfl : c = 'u' := Classical.not_not.mp hu
  split at h
  · cases h
  rename_i n t hhex
  have hfirst := leaves_skipEscape_of_hexEscape hhex
  split at h
  · cases h
  split at h
  · split at h
    · cases h
    rename_i y t' hlow
    obtain ⟨-, rfl⟩ := Prod.mk.inj (Except.ok.inj h)
    obtain ⟨more, hmore, hsecond⟩ := leaves_skipEscape_of_lowSurrogate hlow
    apply leaves_skipString_escape hfirst
    rw [hmore]
    exact leaves_skipString_escape hsecond hrest
  · obtain ⟨-, rfl⟩ := Prod.mk.inj (Except.ok.inj h)
    exact leaves_skipString_escape hfirst hrest

/-- A string that is read can be skipped. -/
theorem leaves_skipString {cs s : List Char} {r : Rest cs} (h : stringBody cs = .ok (s, r)) :
    Leaves skipString cs r.val := by
  fun_induction stringBody cs generalizing s with
  | case1 => cases h
  | case2 rest =>
    obtain ⟨-, rfl⟩ := Prod.mk.inj (Except.ok.inj h)
    refine ⟨behind rest, ?_, rfl⟩
    rw [skipString, if_pos rfl]
  | case3 => cases h
  | case4 => cases h
  | case5 rest x r' hescape s' t hbody _ ih =>
    obtain ⟨-, rfl⟩ := Prod.mk.inj (Except.ok.inj h)
    exact leaves_skipString_of_escape hescape (ih hbody)
  | case6 => cases h
  | case7 => cases h
  | case8 c rest hquote hslash hcontrol s' t hbody ih =>
    obtain ⟨-, rfl⟩ := Prod.mk.inj (Except.ok.inj h)
    obtain ⟨q, hq, hval⟩ := ih hbody
    refine ⟨q.past, ?_, hval⟩
    rw [skipString, if_neg hquote, if_neg hslash, if_neg hcontrol]
    simp only [hq]

/-! ## Numbers -/

/-- Why a digit is missing matters only where it is missing. -/
theorem wholePart_skipped {cs : List Char} {x : List Char × Rest cs}
    (h : wholePart false cs = .ok x) : wholePart true cs = .ok x := by
  cases cs with
  | nil => cases h
  | cons c r => exact h

theorem someDigits_skipped {cs : List Char} {x : List Char × Tail cs}
    (h : someDigits false cs = .ok x) : someDigits true cs = .ok x := by
  unfold someDigits at h ⊢
  split at h
  · cases h
  · exact h

theorem fractionPart_skipped {cs : List Char} {x : Option (List Char) × Tail cs}
    (h : fractionPart false cs = .ok x) : fractionPart true cs = .ok x := by
  unfold fractionPart at h ⊢
  split at h
  · rename_i r
    split at h
    · cases h
    rename_i hdigits
    simp only [someDigits_skipped hdigits]
    exact h
  · exact h

theorem powerPart_skipped {cs : List Char} {x : Option (Bool × List Char) × Tail cs}
    (h : powerPart false cs = .ok x) : powerPart true cs = .ok x := by
  cases cs with
  | nil => exact h
  | cons c r =>
    rw [powerPart] at h ⊢
    by_cases he : (c = 'e' || c = 'E') = true
    · rw [if_pos he] at h ⊢
      simp only at h ⊢
      split at h
      · cases h
      rename_i hdigits
      simp only [someDigits_skipped hdigits]
      exact h
    · rw [if_neg he] at h ⊢
      exact h

theorem numeral_skipped {cs : List Char} {x : Numeral × Rest cs}
    (h : numeral false cs = .ok x) : numeral true cs = .ok x := by
  unfold numeral at h ⊢
  split at h
  · cases h
  rename_i whole r hwhole
  simp only [wholePart_skipped hwhole]
  split at h
  · cases h
  rename_i fraction t hfraction
  simp only [fractionPart_skipped hfraction]
  split at h
  · cases h
  rename_i power t' hpower
  simp only [powerPart_skipped hpower]
  exact h

/-- A number that is read can be skipped. -/
theorem skipNumber_of_number {c : Char} {cs : List Char} {n : Number} {t : Tail cs}
    (h : Lexeme.number c cs = .ok (n, t)) : skipNumber c cs = .ok t := by
  unfold Lexeme.number at h
  unfold skipNumber
  split at h
  · rename_i hminus
    rw [if_pos hminus]
    split at h
    · cases h
    rename_i hnumeral
    obtain ⟨value, -, heq⟩ := map_eq_ok.mp h
    obtain ⟨-, rfl⟩ := Prod.mk.inj heq
    rw [numeral_skipped hnumeral]
    rfl
  · rename_i hminus
    rw [if_neg hminus]
    split at h
    · cases h
    rename_i hnumeral
    obtain ⟨value, -, heq⟩ := map_eq_ok.mp h
    obtain ⟨-, rfl⟩ := Prod.mk.inj heq
    rw [numeral_skipped hnumeral]
    rfl

/-! ## Brackets -/

/-- Behind a value inside a bracket: the end, or a comma and then what can be skipped. -/
def Continues (b : Bracket) (cs rest : List Char) : Prop :=
  (∃ q : Rest cs, next cs = some (b.closing, q) ∧ q.val = rest) ∨
    ∃ q : Rest cs, next cs = some (',', q) ∧ Leaves (skipFilled b) q.val rest

theorem leaves_skipFilled {b : Bracket} {cs rest : List Char} {t : Tail cs} {r : Rest t.val}
    (hlabel : skipLabel b cs = .ok t) (hvalue : skip t.val = .ok r)
    (hrest : Continues b r.val rest) : Leaves (skipFilled b) cs rest := by
  rcases hrest with ⟨q, hq, hval⟩ | ⟨q, hq, q', hq', hval⟩
  · refine ⟨(t.rest r).rest q, ?_, hval⟩
    have hcomma : b.closing ≠ ',' := by cases b <;> decide
    rw [skipFilled]
    simp only [hlabel, hvalue, hq, if_neg hcomma, if_true]
  · refine ⟨((t.rest r).rest q).rest q', ?_, hval⟩
    rw [skipFilled]
    simp only [hlabel, hvalue, hq, if_true, hq']
    rfl

theorem leaves_skipOpened_end {b : Bracket} {cs : List Char} {q : Rest cs}
    (hq : next cs = some (b.closing, q)) : Leaves (skipOpened b) cs q.val := by
  refine ⟨q, ?_, rfl⟩
  rw [skipOpened, hq]
  simp only [if_true]

theorem leaves_skipOpened {b : Bracket} {cs rest : List Char} {c : Char} {q : Rest cs}
    (hq : next cs = some (c, q)) (hc : c ≠ b.closing) (hrest : Leaves (skipFilled b) cs rest) :
    Leaves (skipOpened b) cs rest := by
  obtain ⟨r, hr, hval⟩ := hrest
  refine ⟨r, ?_, hval⟩
  rw [skipOpened, hq]
  simp only [if_neg hc, hr]

/-- A key that is read can be skipped with its colon. -/
theorem skipLabel_of_key {cs : List Char} {q : Rest cs} {key : String} {r : Rest q.val}
    {r' : Rest r.val} (hq : next cs = some ('"', q)) (hkey : Lexeme.string q.val = .ok (key, r))
    (hcolon : colon r.val = .ok r') : skipLabel .object cs = .ok ((q.rest r).rest r').toTail := by
  obtain ⟨⟨body, r₁⟩, hbody, heq⟩ := map_eq_ok.mp hkey
  obtain ⟨-, rfl⟩ := Prod.mk.inj heq
  rw [skipLabel, skipKey, hq]
  simp only [if_true, (leaves_skipString hbody).eq_ok, hcolon]
  rfl

section Values

variable {α : Type} {read : Read α} (hskip : ∀ cs x r, read cs = .ok (x, r) → skip cs = .ok r)
include hskip

/-- Items that are read can be skipped, from the bracket that opens them and from behind each. -/
theorem leaves_of_items {first : Bool} {cs : List Char} {xs : List α} {r : Rest cs}
    (h : items read first cs = .ok (xs, r)) :
    if first then Leaves (skipOpened .list) cs r.val else Continues .list cs r.val := by
  fun_induction items read first cs generalizing xs with
  | case1 => cases h
  | case2 first cs q hstep =>
    obtain ⟨-, rfl⟩ := Prod.mk.inj (Except.ok.inj h)
    obtain ⟨c, q', hq', ⟨rfl, heq⟩ | ⟨-, -, heq⟩ | ⟨-, -, heq⟩⟩ := nextItem_eq_ok hstep
    · obtain rfl := ItemStep.done.inj heq
      cases first with
      | true => exact leaves_skipOpened_end hq'
      | false => exact Or.inl ⟨q, hq', rfl⟩
    · cases heq
    · cases heq
  | case3 => cases h
  | case4 => cases h
  | case5 first cs t hstep x r hread xs r' hitems ih =>
    obtain ⟨-, rfl⟩ := Prod.mk.inj (Except.ok.inj h)
    have hfilled : Leaves (skipFilled .list) t.val r'.val :=
      leaves_skipFilled rfl (hskip _ _ _ hread) (ih hitems)
    obtain ⟨c, q, hq, ⟨-, heq⟩ | ⟨hc, rfl, heq⟩ | ⟨rfl, rfl, heq⟩⟩ := nextItem_eq_ok hstep
    · cases heq
    · obtain rfl := ItemStep.item.inj heq
      exact leaves_skipOpened hq hc hfilled
    · obtain rfl := ItemStep.item.inj heq
      exact Or.inr ⟨q, hq, hfilled⟩

/-- Members whose values are read can be skipped like items. -/
theorem leaves_of_members {first : Bool} {cs : List Char} {ms : List (String × α)} {r : Rest cs}
    (h : members read first cs = .ok (ms, r)) :
    if first then Leaves (skipOpened .object) cs r.val else Continues .object cs r.val := by
  fun_induction members read first cs generalizing ms with
  | case1 => cases h
  | case2 first cs q hstep =>
    obtain ⟨-, rfl⟩ := Prod.mk.inj (Except.ok.inj h)
    obtain ⟨c, q', hq', ⟨rfl, heq⟩ | ⟨-, -, heq⟩ | ⟨-, -, q'', -, heq⟩⟩ := nextMember_eq_ok hstep
    · obtain rfl := MemberStep.done.inj heq
      cases first with
      | true => exact leaves_skipOpened_end hq'
      | false => exact Or.inl ⟨q, hq', rfl⟩
    · obtain ⟨_, _, -, heq⟩ := memberKey_eq_ok heq
      cases heq
    · obtain ⟨_, _, -, heq⟩ := memberKey_eq_ok heq
      cases heq
  | case3 => cases h
  | case4 => cases h
  | case5 => cases h
  | case6 first cs key r₁ hstep r₂ hcolon x r₃ hread xs r₄ hmembers ih =>
    obtain ⟨-, rfl⟩ := Prod.mk.inj (Except.ok.inj h)
    have hvalue := hskip _ _ _ hread
    obtain ⟨c, q, hq, ⟨-, heq⟩ | ⟨rfl, rfl, hkey⟩ | ⟨rfl, rfl, q', hq', hkey⟩⟩ :=
      nextMember_eq_ok hstep
    · cases heq
    · obtain ⟨_, r, hstring, heq⟩ := memberKey_eq_ok hkey
      obtain ⟨rfl, rfl⟩ := MemberStep.member.inj heq
      have hlabel := skipLabel_of_key hq hstring hcolon
      exact leaves_skipOpened hq (by decide) (leaves_skipFilled hlabel hvalue (ih hmembers))
    · obtain ⟨_, r, hstring, heq⟩ := memberKey_eq_ok hkey
      obtain ⟨rfl, rfl⟩ := MemberStep.member.inj heq
      have hlabel := skipLabel_of_key hq' hstring hcolon
      exact Or.inr ⟨q, hq, leaves_skipFilled hlabel hvalue (ih hmembers)⟩

end Values

/-! ## Documents -/

/-- **What is read can be skipped**, and the same is left behind it. -/
theorem skip_of_read {depth : Nat} {cs : List Char} {v : Json} {r : Rest cs}
    (h : read depth cs = .ok (v, r)) : skip cs = .ok r := by
  induction depth using Nat.strongRecOn generalizing cs v r with
  | _ depth ih =>
    obtain ⟨c, q, t, hq, hreading, rfl⟩ := reading_of_read h
    rw [skip, hq]
    cases hreading with
    | string hs =>
      obtain ⟨⟨body, r⟩, hbody, heq⟩ := map_eq_ok.mp hs
      obtain ⟨-, rfl⟩ := Prod.mk.inj heq
      simp only [if_true, (leaves_skipString hbody).eq_ok]
      rfl
    | @array depth _ _ _ hvs =>
      have hopened := leaves_of_items (fun _ _ _ => ih depth (Nat.lt_succ_self depth)) hvs
      rw [if_pos rfl] at hopened
      simp only [show ¬('[' = '"') by decide, if_false, if_true, hopened.eq_ok]
      rfl
    | @object depth _ _ _ hms =>
      have hopened := leaves_of_members (fun _ _ _ => ih depth (Nat.lt_succ_self depth)) hms
      rw [if_pos rfl] at hopened
      simp only [show ¬('\x7b' = '"') by decide, show ¬('\x7b' = '[') by decide, if_false, if_true,
        hopened.eq_ok]
      rfl
    | null hword =>
      simp only [skipScalar, hword]
      rfl
    | true hword =>
      simp only [skipScalar, hword]
      rfl
    | false hword =>
      simp only [skipScalar, hword]
      rfl
    | number hc hnumber =>
      obtain ⟨⟨hquote, hlist, hobject⟩, hn, ht, hf⟩ := of_startsNumber hc
      simp only [skipScalar, hquote, hlist, hobject, hn, ht, hf, hc, if_false, if_true,
        skipNumber_of_number hnumber]
      rfl

end SuffixLint.Json
