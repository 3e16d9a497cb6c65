import SuffixLint.Proofs.Json.Skipped
import SuffixLint.Proofs.Json.Settled
/-!
# What a text spells

The grammar of documents says how a text is put together and not what it stands for. Here the
documents without brackets get their values, again apart from any reader: which characters a string
spells (`Spells`), and what a word, a string or a number without sign, fraction and power of ten says
(`Says`). A string of the grammar may hold half a surrogate pair, and then spells nothing.

A reader of strings finds just what is spelled: it reads the characters where there are some
(`reads_of_spells`), and refuses a string that spells nothing (`spells_or_refused`).
-/

namespace SuffixLint.Json

open Lexeme Text

/-! ## Strings -/

/-- What stands between the quotes of a string, and the characters that it stands for. An escape by a
number stands for a character of its own, or with the one behind it for a surrogate pair. -/
inductive Spells : List Char → List Char → Prop
  | nil : Spells [] []
  | plain {c : Char} {cs s : List Char} (hquote : c ≠ '"') (hslash : c ≠ '\\')
    (hcontrol : ¬c.toNat < 0x20) (h : Spells cs s) : Spells (c :: cs) (c :: s)
  | short {e x : Char} {cs s : List Char} (he : shortEscape? e = some x) (h : Spells cs s) :
    Spells ('\\' :: e :: cs) (x :: s)
  | number {a b c d : Char} {n : Nat} {cs s : List Char} (hn : hexNumber? a b c d = some n)
    (hlow : ¬isLowSurrogate n = true) (hhigh : ¬isHighSurrogate n = true) (h : Spells cs s) :
    Spells ('\\' :: 'u' :: a :: b :: c :: d :: cs) (Char.ofNat n :: s)
  | pair {a b c d a' b' c' d' : Char} {n m : Nat} {cs s : List Char}
    (hn : hexNumber? a b c d = some n) (hhigh : isHighSurrogate n = true)
    (hm : hexNumber? a' b' c' d' = some m) (hlow : isLowSurrogate m = true) (h : Spells cs s) :
    Spells ('\\' :: 'u' :: a :: b :: c :: d :: '\\' :: 'u' :: a' :: b' :: c' :: d' :: cs)
      (surrogatePair n m :: s)

/-- What spells something may stand between quotes. -/
theorem Spells.isBody {body s : List Char} (h : Spells body s) : IsBody body := by
  induction h with
  | nil => exact .nil
  | plain hquote hslash hcontrol _ ih => exact .plain hquote hslash hcontrol ih
  | short he _ ih => exact .short (mem_of_shortEscape? (he ▸ rfl)) ih
  | number hn _ _ _ ih =>
    obtain ⟨ha, hb, hc, hd⟩ := isSome_of_hexNumber? hn
    exact .number ha hb hc hd ih
  | pair hn _ hm _ _ ih =>
    obtain ⟨ha, hb, hc, hd⟩ := isSome_of_hexNumber? hn
    obtain ⟨ha', hb', hc', hd'⟩ := isSome_of_hexNumber? hm
    exact .number ha hb hc hd (.number ha' hb' hc' hd' ih)

/-- The first half of a pair is no second half. -/
theorem isLowSurrogate_of_isHighSurrogate {n : Nat} (h : isHighSurrogate n = true) :
    ¬isLowSurrogate n = true := by
  simp only [isHighSurrogate, isLowSurrogate, Bool.and_eq_true, decide_eq_true_eq] at h ⊢
  omega

/-- What a string spells is read up to its closing quote. -/
theorem reads_of_spells {body s : List Char} (h : Spells body s) (rest : List Char) :
    Reads stringBody (body ++ '"' :: rest) s rest := by
  induction h with
  | nil =>
    rw [List.nil_append]
    refine ⟨behind rest, ?_, rfl⟩
    rw [stringBody, if_pos rfl]
  | @plain c cs s hquote hslash hcontrol _ ih =>
    obtain ⟨t, ht, hval⟩ := ih
    rw [List.cons_append]
    refine ⟨t.past, ?_, hval⟩
    rw [stringBody, if_neg hquote, if_neg hslash, if_neg hcontrol]
    simp only [ht]
  | short he _ ih => exact reads_stringBody_escape (reads_escape_short he _) ih
  | @number a b c d n cs s hn hlow hhigh _ ih =>
    have hescape : Reads escape ('u' :: a :: b :: c :: d :: (cs ++ '"' :: rest)) (Char.ofNat n)
        (cs ++ '"' :: rest) := by
      apply plain_eq_some.mp
      rw [plain_escape_number hn, if_neg hlow, if_neg hhigh]
    exact reads_stringBody_escape hescape ih
  | @pair a b c d a' b' c' d' n m cs s hn hhigh hm hlow _ ih =>
    have hescape : Reads escape ('u' :: a :: b :: c :: d :: '\\' :: 'u' :: a' :: b' :: c' :: d' ::
        (cs ++ '"' :: rest)) (surrogatePair n m) (cs ++ '"' :: rest) := by
      apply plain_eq_some.mp
      rw [plain_escape_number hn, if_neg (isLowSurrogate_of_isHighSurrogate hhigh), if_pos hhigh,
        plain_lowSurrogate hm, if_pos hlow]
    exact reads_stringBody_escape hescape ih

/-- Four digits are all that an escape by a number takes. -/
theorem exists_of_hexEscape {cs : List Char} {n : Nat} {t : Tail cs}
    (h : hexEscape cs = .ok (n, t)) :
    ∃ a b c d, hexNumber? a b c d = some n ∧ cs = a :: b :: c :: d :: t.val := by
  unfold hexEscape at h
  split at h
  · rename_i a b c d r
    split at h
    · rename_i hnumber
      obtain ⟨rfl, rfl⟩ := Prod.mk.inj (Except.ok.inj h)
      exact ⟨a, b, c, d, hnumber, rfl⟩
    · cases h
  · cases h

/-- The second half of a pair has been read from an escape by a number. -/
theorem exists_of_lowSurrogate {cs : List Char} {n : Nat} {x : Char} {t : Tail cs}
    (h : lowSurrogate n cs = .ok (x, t)) : ∃ a b c d m, hexNumber? a b c d = some m ∧
      isLowSurrogate m = true ∧ x = surrogatePair n m ∧
        cs = '\\' :: 'u' :: a :: b :: c :: d :: t.val := by
  unfold lowSurrogate at h
  split at h
  · cases h
  · cases h
  · split at h
    · cases h
    rename_i m t' hhex
    split at h
    · rename_i hlow
      obtain ⟨rfl, rfl⟩ := Prod.mk.inj (Except.ok.inj h)
      obtain ⟨a, b, c, d, hm, hcs⟩ := exists_of_hexEscape hhex
      exact ⟨a, b, c, d, m, hm, hlow, rfl, congrArg ('\\' :: 'u' :: ·) hcs⟩
    · cases h
  · cases h

/-- An escape that has been read spells its character. -/
theorem exists_spells_of_escape {cs : List Char} {x : Char} {r : Rest cs}
    (h : escape cs = .ok (x, r)) :
    ∃ e, cs = e ++ r.val ∧ ∀ body s, Spells body s → Spells ('\\' :: (e ++ body)) (x :: s) := by
  unfold escape at h
  split at h
  · cases h
  rename_i c rest
  split at h
  · rename_i hshort
    obtain ⟨rfl, rfl⟩ := Prod.mk.inj (Except.ok.inj h)
    exact ⟨[c], rfl, fun body s hs => .short hshort hs⟩
  split at h
  · cases h
  rename_i hu
  obtain rfl : c = 'u' := Classical.not_not.mp hu
  split at h
  · cases h
  rename_i n t hhex
  obtain ⟨a, b, c, d, hn, hrest⟩ := exists_of_hexEscape hhex
  split at h
  · cases h
  rename_i hlow
  split at h
  · -- the first half of a pair, which takes the second half with it
    rename_i hhigh
    split at h
    · cases h
    rename_i y t' hsecond
    obtain ⟨rfl, rfl⟩ := Prod.mk.inj (Except.ok.inj h)
    obtain ⟨a', b', c', d', m, hm, hlow', hy, hbehind⟩ := exists_of_lowSurrogate hsecond
    refine ⟨['u', a, b, c, d, '\\', 'u', a', b', c', d'], ?_, ?_⟩
    · rw [hbehind] at hrest
      exact congrArg ('u' :: ·) hrest
    · intro body s hs
      rw [hy]
      exact .pair hn hhigh hm hlow' hs
  · rename_i hhigh
    obtain ⟨rfl, rfl⟩ := Prod.mk.inj (Except.ok.inj h)
    refine ⟨['u', a, b, c, d], congrArg ('u' :: ·) hrest, ?_⟩
    exact fun body s hs => .number hn hlow hhigh hs

/-- What has been read of a string spells the characters that have been read. -/
theorem exists_spells_of_stringBody {cs s : List Char} {r : Rest cs}
    (h : stringBody cs = .ok (s, r)) : ∃ body, Spells body s ∧ cs = body ++ '"' :: r.val := by
  fun_induction stringBody cs generalizing s with
  | case1 => cases h
  | case2 rest =>
    obtain ⟨rfl, rfl⟩ := Prod.mk.inj (Except.ok.inj h)
    exact ⟨[], .nil, rfl⟩
  | case3 => cases h
  | case4 => cases h
  | case5 rest x r' hescape s' t hbody _ ih =>
    obtain ⟨rfl, rfl⟩ := Prod.mk.inj (Except.ok.inj h)
    obtain ⟨e, he, hspells⟩ := exists_spells_of_escape hescape
    obtain ⟨body, hs, hrest⟩ := ih hbody
    refine ⟨'\\' :: (e ++ body), hspells body s' hs, ?_⟩
    calc '\\' :: rest = '\\' :: (e ++ r'.val) := congrArg ('\\' :: ·) he
      _ = '\\' :: (e ++ (body ++ '"' :: t.val)) := congrArg (fun cs => '\\' :: (e ++ cs)) hrest
      _ = '\\' :: (e ++ body) ++ '"' :: t.val := by rw [List.cons_append, List.append_assoc]
  | case6 => cases h
  | case7 => cases h
  | case8 c rest hquote hslash hcontrol s' t hbody ih =>
    obtain ⟨rfl, rfl⟩ := Prod.mk.inj (Except.ok.inj h)
    obtain ⟨body, hs, hrest⟩ := ih hbody
    exact ⟨c :: body, .plain hquote hslash hcontrol hs, congrArg (c :: ·) hrest⟩

/-- A string that spells nothing is refused, whatever follows it. -/
theorem spells_or_refused {body : List Char} (h : IsBody body) :
    (∃ s, Spells body s) ∨ ∀ rest, plain (Lexeme.string (body ++ '"' :: rest)) = none := by
  obtain ⟨o, ho⟩ := plain_string h
  cases o with
  | none => exact Or.inr ho
  | some text =>
    -- read with nothing behind it, the string has been read to its own closing quote
    obtain ⟨r, hr, hval⟩ := plain_eq_some.mp (ho [])
    obtain ⟨⟨s, r'⟩, hbody, heq⟩ := map_eq_ok.mp hr
    obtain ⟨-, rfl⟩ := Prod.mk.inj heq
    obtain ⟨body', hs, hcs⟩ := exists_spells_of_stringBody hbody
    rw [hval] at hcs
    exact Or.inl ⟨s, List.append_cancel_right hcs ▸ hs⟩

theorem plain_string_of_spells {body : List Char} {s : String} (h : Spells body s.toList)
    (rest : List Char) : plain (Lexeme.string (body ++ '"' :: rest)) = some (s, rest) := by
  obtain ⟨r, hr, hval⟩ := reads_of_spells h rest
  refine plain_eq_some.mpr ⟨r, ?_, hval⟩
  rw [Lexeme.string, hr]
  change Except.ok (String.ofList s.toList, r) = _
  rw [String.ofList_toList]

/-! ## Documents without brackets -/

/-- A text is a document without brackets and stands for the value. Among numbers this is said of
those that are written with digits only. -/
inductive Says : List Char → Json → Prop
  | null : Says "null".toList .null
  | true : Says "true".toList (.bool true)
  | false : Says "false".toList (.bool false)
  | string {body : List Char} {s : String} (h : Spells body s.toList) :
    Says ('"' :: (body ++ ['"'])) (.string s)
  | whole {ds : List Char} (h : IsWhole ds) : Says ds (.nat (Decimal.value ds))
  | spaced {before t behind : List Char} {v : Json} (hbefore : Spaces before) (h : Says t v)
    (hbehind : Spaces behind) : Says (before ++ (t ++ behind)) v

theorem Says.isDocument {t : List Char} {v : Json} (h : Says t v) : IsDocument t := by
  induction h with
  | null => exact .null
  | true => exact .true
  | false => exact .false
  | string h => exact .string h.isBody
  | @whole ds h =>
    have hnumeral := IsNumeral.parts h .absent .absent
    rw [List.append_nil, List.append_nil] at hnumeral
    exact .positive hnumeral
  | spaced hbefore _ hbehind ih => exact .spaced hbefore ih hbehind

/-- What says a string is the spelling of the string between quotes. -/
theorem Says.exists_spells {t : List Char} {s : String} (h : Says t (.string s)) :
    ∃ before body behind, Spaces before ∧ Spells body s.toList ∧ Spaces behind ∧
      t = before ++ '"' :: (body ++ '"' :: behind) := by
  generalize hv : Json.string s = v at h
  induction h with
  | null | true | false | whole => cases hv
  | @string body s' h =>
    obtain rfl := Json.string.inj hv
    exact ⟨[], body, [], spaces_nil, h, spaces_nil, rfl⟩
  | @spaced before t behind v hbefore _ hbehind ih =>
    obtain ⟨before', body, behind', hbefore', hs, hbehind', rfl⟩ := ih hv
    refine ⟨before ++ before', body, behind' ++ behind, hbefore.append hbefore', hs,
      hbehind'.append hbehind, ?_⟩
    simp only [List.append_assoc, List.cons_append]

/-- A string may stand as a key. -/
theorem Says.isKey {t : List Char} {s : String} (h : Says t (.string s)) : IsKey t := by
  obtain ⟨before, body, behind, hbefore, hs, hbehind, rfl⟩ := h.exists_spells
  exact .spaced hbefore hs.isBody hbehind

theorem Says.keyOf_eq_some {t : List Char} {s : String} (h : Says t (.string s)) :
    keyOf t = some s := by
  obtain ⟨before, body, behind, hbefore, hs, -, rfl⟩ := h.exists_spells
  exact keyOf_eq (o := some s) hbefore (plain_string_of_spells hs)

/-- What is written for a string says it. -/
theorem says_writeString (s : String) : Says (writeString s) (.string s) := by
  obtain ⟨r, hr, hval⟩ := reads_string s []
  obtain ⟨⟨cs, r'⟩, hbody, heq⟩ := map_eq_ok.mp hr
  obtain ⟨hofList, rfl⟩ := Prod.mk.inj heq
  obtain ⟨body, hspells, hcs⟩ := exists_spells_of_stringBody hbody
  rw [hval] at hcs
  obtain rfl := List.append_cancel_right hcs
  have hs : s.toList = cs := (congrArg String.toList hofList).symm.trans String.toList_ofList
  rw [← hs] at hspells
  exact .string hspells

end SuffixLint.Json
