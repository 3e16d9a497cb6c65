import SuffixLint.Proofs.Json.Agreement
import SuffixLint.Proofs.Json.Spelling
/-!
# Values without brackets

What a text says without brackets is what it is read as when no bracket may be opened
(`valueOf_read_iff`), as far as whole numbers fit 64 bits. Codecs of such values look at nothing else
(`Codec.Scalar`): they read what they decode of what is read in their place, and refuse what is
refused there. So such a codec takes a document or refuses it whatever follows, and takes it just if
the document says something that the codec decodes (`Codec.Scalar.valueOf_iff`).
-/

namespace SuffixLint

open Json Lexeme Text Decimal

namespace Json

/-! ## Whole numbers -/

/-- Digits that have all been taken into a number stand for it. -/
theorem absorb_of_length_le {n : Nat} {ds : List Char} (h : ds.length ≤ (absorb n ds).2) :
    (absorb n ds).1 = valueFrom n ds := by
  induction ds generalizing n with
  | nil => rfl
  | cons c ds ih =>
    rw [absorb] at h ⊢
    by_cases hfits : n * 10 + digitValue c < UInt64.size
    · rw [if_pos hfits] at h ⊢
      exact ih (Nat.le_of_succ_le_succ h)
    · rw [if_neg hfits] at h
      exact absurd h (Nat.not_succ_le_zero _)

/-- What has been multiplied by a power of ten is a double. -/
theorem scaleByPower_ne_whole (negative : Bool) (significand : Nat) (power i : Int) :
    scaleByPower negative significand power ≠ .ok (.whole i) := by
  intro h
  unfold scaleByPower at h
  simp only at h
  split at h
  · cases h
  · cases Except.ok.inj h

/-- Only a number that has nothing but digits, all of which fit a word, is whole. -/
theorem wholeNumber_of_value {negative : Bool} {n : Numeral} {i : Int}
    (h : n.value negative = .ok (.whole i)) :
    n.fraction = none ∧ n.power = none ∧ n.whole.length ≤ (absorb 0 n.whole).2 ∧
      wholeNumber negative (absorb 0 n.whole).1 = .ok (.whole i) := by
  unfold Numeral.value at h
  simp only at h
  split at h
  · rename_i hdigits
    obtain ⟨hdropped, hfraction, hpower⟩ := hdigits
    exact ⟨hfraction, hpower, Nat.le_of_sub_eq_zero hdropped, h⟩
  · -- every other number is a double
    split at h
    · exact absurd h (scaleByPower_ne_whole _ _ _ _)
    split at h
    · split at h
      · cases h
      · cases Except.ok.inj h
    · exact absurd h (scaleByPower_ne_whole _ _ _ _)

/-- A number without sign that is whole has only digits, and is what they stand for. -/
theorem of_value_eq_whole {n : Numeral} {i : Int} (h : n.value false = .ok (.whole i)) :
    n.fraction = none ∧ n.power = none ∧ i = value n.whole := by
  obtain ⟨hfraction, hpower, hdigits, hwhole⟩ := wholeNumber_of_value h
  obtain rfl : ((absorb 0 n.whole).1 : Int) = i := Number.whole.inj (Except.ok.inj hwhole)
  exact ⟨hfraction, hpower, congrArg _ (absorb_of_length_le hdigits)⟩

/-- A negative number is no natural number, for a negative zero is a double. -/
theorem lt_zero_of_value_eq_whole {n : Numeral} {i : Int} (h : n.value true = .ok (.whole i)) :
    i < 0 := by
  obtain ⟨-, -, -, hwhole⟩ := wholeNumber_of_value h
  unfold wholeNumber at hwhole
  rw [if_neg (by decide)] at hwhole
  split at hwhole
  · rename_i hbounds
    obtain rfl : -((absorb 0 n.whole).1 : Int) = i := Number.whole.inj (Except.ok.inj hwhole)
    omega
  · exact absurd hwhole (scaleByPower_ne_whole _ _ _ _)

theorem val_of_fractionPart_none {skipped : Bool} {cs : List Char} {t : Tail cs}
    (h : fractionPart skipped cs = .ok (none, t)) : t.val = cs := by
  unfold fractionPart at h
  split at h
  · split at h
    · cases h
    · cases (Prod.mk.inj (Except.ok.inj h)).1
  · obtain ⟨-, rfl⟩ := Prod.mk.inj (Except.ok.inj h)
    rfl

theorem val_of_powerPart_none {skipped : Bool} {cs : List Char} {t : Tail cs}
    (h : powerPart skipped cs = .ok (none, t)) : t.val = cs := by
  unfold powerPart at h
  split at h
  · obtain ⟨-, rfl⟩ := Prod.mk.inj (Except.ok.inj h)
    rfl
  split at h
  · simp only at h
    split at h
    · cases h
    · cases (Prod.mk.inj (Except.ok.inj h)).1
  · obtain ⟨-, rfl⟩ := Prod.mk.inj (Except.ok.inj h)
    rfl

/-- A number without fraction and power of ten is its whole part. -/
theorem isWhole_of_numeral {skipped : Bool} {cs : List Char} {n : Numeral} {r : Rest cs}
    (h : numeral skipped cs = .ok (n, r)) (hfraction : n.fraction = none) (hpower : n.power = none) :
    IsWhole n.whole ∧ cs = n.whole ++ r.val := by
  unfold numeral at h
  split at h
  · cases h
  rename_i whole q hwhole
  split at h
  · cases h
  rename_i x t hx
  split at h
  · cases h
  rename_i y t' hy
  obtain ⟨rfl, rfl⟩ := Prod.mk.inj (Except.ok.inj h)
  obtain rfl : x = none := hfraction
  obtain rfl : y = none := hpower
  obtain ⟨hw, hcs⟩ := isWhole_of_wholePart hwhole
  refine ⟨hw, ?_⟩
  calc cs = whole ++ q.val := hcs
    _ = whole ++ t.val := congrArg (whole ++ ·) (val_of_fractionPart_none hx).symm
    _ = whole ++ t'.val := congrArg (whole ++ ·) (val_of_powerPart_none hy).symm

theorem plain_numeral_whole {ds : List Char} (h : IsWhole ds) {rest : List Char}
    (hrest : EndsNumber rest) :
    plain (numeral false (ds ++ rest)) = some (⟨ds, none, none⟩, rest) := by
  obtain ⟨r, hr, hval⟩ := plain_eq_some.mp (plain_wholePart h fun c r hc => (hrest c r hc).1)
  have hends : EndsNumber r.val := by rwa [hval]
  have hpower : powerPart false (unread r.val).val = .ok (none, unread r.val) :=
    powerPart_of_ends hends
  refine plain_eq_some.mpr ⟨Rest.tail (Rest.tail r (unread r.val)) (unread r.val), ?_, hval⟩
  rw [numeral]
  simp only [hr, fractionPart_of_ends hends, hpower]

/-! ## What a text says -/

/-- Values without brackets and without numbers, except those natural numbers that fit 64 bits. -/
def IsPlain : Json → Prop
  | .null | .bool _ | .string _ => True
  | .number (.whole i) => 0 ≤ i ∧ i < UInt64.size
  | .number (.double _) | .array _ | .object _ => False

theorem isNumeral_of_isWhole {ds : List Char} (h : IsWhole ds) : IsNumeral ds := by
  have hnumeral := IsNumeral.parts h .absent .absent
  rwa [List.append_nil, List.append_nil] at hnumeral

/-- A text is read as what it says. -/
theorem Says.settles {t : List Char} {v : Json} (h : Says t v) (hv : v.IsPlain) :
    Settles (read 0) t (some v) := by
  induction h with
  | null => exact settles_scalar (by decide) (by decide) 0 fun _ _ => rfl
  | true => exact settles_scalar (by decide) (by decide) 0 fun _ _ => rfl
  | false => exact settles_scalar (by decide) (by decide) 0 fun _ _ => rfl
  | @string body s h => exact settles_string (o := some s) (plain_string_of_spells h) 0
  | @whole ds h =>
    have hfits : value ds < UInt64.size := Int.ofNat_lt.mp hv.2
    have hread := settles_positive (isNumeral_of_isWhole h) (fun _ => plain_numeral_whole h) 0
    rwa [value_whole hfits] at hread
  | spaced hbefore _ hbehind ih => exact (goesBy_read 0).settles_spaced (ih hv) hbefore hbehind

/-- A number that is read as a whole one consists of digits, and is what they stand for. -/
theorem isWhole_of_value {cs : List Char} {n : Numeral} {i : Int}
    (hn : ∀ rest, EndsNumber rest → plain (numeral false (cs ++ rest)) = some (n, rest))
    (hvalue : n.value false = .ok (.whole i)) : IsWhole cs ∧ i = value cs := by
  obtain ⟨hfraction, hpower, rfl⟩ := of_value_eq_whole hvalue
  -- with nothing behind it, what has been read is the number itself
  have hnumeral := hn [] endsNumber_nil
  rw [List.append_nil] at hnumeral
  obtain ⟨r, hr, hval⟩ := plain_eq_some.mp hnumeral
  obtain ⟨hwhole, hcs⟩ := isWhole_of_numeral hr hfraction hpower
  rw [hval, List.append_nil] at hcs
  rw [hcs]
  exact ⟨hwhole, rfl⟩

/-- A string that is read is spelled by what stands between its quotes. -/
theorem spells_of_valueOf {body : List Char} (h : IsBody body) {v : Json}
    (hread : valueOf (read 0) ('"' :: (body ++ ['"'])) = some v) :
    ∃ s, v = .string s ∧ Spells body s.toList := by
  rcases spells_or_refused h with ⟨s, hs⟩ | hrefused
  · have hs' : Spells body (String.ofList s).toList := by rwa [String.toList_ofList]
    have hstring := settles_string (o := some (String.ofList s)) (plain_string_of_spells hs') 0
    rw [hstring.valueOf_eq] at hread
    exact ⟨String.ofList s, (Option.some.inj hread).symm, hs'⟩
  · have hnone := settles_string (o := none) hrefused 0
    rw [hnone.valueOf_eq] at hread
    cases hread

/-- A document that is read as a plain value says it. -/
theorem says_of_valueOf {t : List Char} (h : IsDocument t) {v : Json} (hv : v.IsPlain)
    (hread : valueOf (read 0) t = some v) : Says t v := by
  induction h with
  | null =>
    obtain rfl := Option.some.inj hread
    exact .null
  | true =>
    obtain rfl := Option.some.inj hread
    exact .true
  | false =>
    obtain rfl := Option.some.inj hread
    exact .false
  | @positive cs h =>
    obtain ⟨n, hn⟩ := plain_numeral h
    rw [(settles_positive h hn 0).valueOf_eq] at hread
    obtain ⟨x, hx, rfl⟩ := Option.map_eq_some_iff.mp hread
    cases x with
    | double => exact hv.elim
    | whole i =>
      obtain ⟨hwhole, rfl⟩ := isWhole_of_value hn (toOption_eq_some.mp hx)
      exact .whole hwhole
  | negative h =>
    obtain ⟨n, hn⟩ := plain_numeral h
    rw [(settles_negative hn 0).valueOf_eq] at hread
    obtain ⟨x, hx, rfl⟩ := Option.map_eq_some_iff.mp hread
    cases x with
    | double => exact hv.elim
    | whole i =>
      have hnegative := lt_zero_of_value_eq_whole (toOption_eq_some.mp hx)
      exact absurd hv.1 (Int.not_le.mpr hnegative)
  | @string body h =>
    obtain ⟨s, rfl, hs⟩ := spells_of_valueOf h hread
    exact .string hs
  -- where no bracket may be opened, no list and no object is read
  | emptyArray | array =>
    rw [(settles_zero (Or.inl rfl) _).valueOf_eq] at hread
    cases hread
  | emptyObject | object =>
    rw [(settles_zero (Or.inr rfl) _).valueOf_eq] at hread
    cases hread
  | spaced hbefore h hbehind ih =>
    obtain ⟨o, ho⟩ := settles_read h 0
    rw [((goesBy_read 0).settles_spaced ho hbefore hbehind).valueOf_eq] at hread
    exact .spaced hbefore (ih (ho.valueOf_eq.trans hread)) hbehind

/-- **A document says just the plain value that it is read as.** -/
theorem valueOf_read_iff {t : List Char} (h : IsDocument t) {v : Json} (hv : v.IsPlain) :
    valueOf (read 0) t = some v ↔ Says t v := by
  constructor
  · exact says_of_valueOf h hv
  · intro htext
    exact (htext.settles hv).valueOf_eq

end Json

namespace Codec

variable {α β : Type} {c : Codec α}

/-! ## Codecs of values without brackets -/

/-- A codec of plain values: it reads what it decodes of what is read where no bracket may be
opened, and nothing else. -/
structure Scalar (c : Codec α) : Prop where
  agrees : c.Agrees
  reads : ∀ cs x r, c.read cs = .ok (x, r) → ∃ v, Json.read 0 cs = .ok (v, r)
  isPlain : ∀ v x, c.decode .refused v = some x → v.IsPlain

theorem scalar_imap (h : c.Scalar) (f : α → β) (g : β → α) : (c.imap f g).Scalar where
  agrees := agrees_imap h.agrees f g
  reads cs y r hread := by
    obtain ⟨⟨x, r'⟩, hx, heq⟩ := map_eq_ok.mp hread
    obtain ⟨-, rfl⟩ := Prod.mk.inj heq
    exact h.reads cs x r' hx
  isPlain v y hy := by
    obtain ⟨x, hx, -⟩ := Option.map_eq_some_iff.mp hy
    exact h.isPlain v x hx

theorem decode_stringAs {wanted : String} {s : Surplus} {v : Json} {x : String} :
    (stringAs wanted).decode s v = some x ↔ v = .string x := by
  cases v with
  | string y =>
    change some y = some x ↔ _
    rw [Option.some.injEq, Json.string.injEq]
  | null | bool | number | array | object =>
    change none = some x ↔ _
    simp

theorem scalar_stringAs (wanted : String) : (stringAs wanted).Scalar where
  agrees := agrees_stringAs wanted
  reads cs x r hread := by
    rw [stringAs] at hread
    simp only at hread
    split at hread
    · cases hread
    rename_i d q hq
    split at hread
    · rename_i hquote
      subst hquote
      obtain ⟨⟨s, r'⟩, hs, heq⟩ := map_eq_ok.mp hread
      obtain ⟨-, rfl⟩ := Prod.mk.inj heq
      refine ⟨.string s, ?_⟩
      rw [Json.read, hq]
      simp only [if_true, hs]
      rfl
    · cases hread
  isPlain v x hx := by
    rw [decode_stringAs.mp hx]
    trivial

/-- A word that a document may be is read as it. -/
theorem read_of_scalar {cs : List Char} {d : Char} {q : Rest cs} (hq : next cs = some (d, q))
    (hd : d ≠ '"' ∧ d ≠ '[' ∧ d ≠ '\x7b') {v : Json} {t : Tail q.val}
    (h : Json.scalar d q.val = .ok (v, t)) : Json.read 0 cs = .ok (v, q.tail t) := by
  rw [Json.read, hq]
  simp only [if_neg hd.1, if_neg hd.2.1, if_neg hd.2.2, h]
  rfl

theorem decode_bool {s : Surplus} {v : Json} {x : Bool} :
    bool.decode s v = some x ↔ v = .bool x := by
  cases v with
  | bool b =>
    change some b = some x ↔ _
    rw [Option.some.injEq, Json.bool.injEq]
  | null | string | number | array | object =>
    change none = some x ↔ _
    simp

theorem scalar_bool : bool.Scalar where
  agrees := agrees_bool
  reads cs x r hread := by
    rw [bool] at hread
    simp only at hread
    split at hread
    · cases hread
    rename_i d q hq
    split at hread
    · rename_i ht
      subst ht
      obtain ⟨t, hword, heq⟩ := map_eq_ok.mp hread
      obtain ⟨-, rfl⟩ := Prod.mk.inj heq
      refine ⟨.bool true, read_of_scalar hq (by decide) ?_⟩
      rw [Json.scalar, if_neg (by decide), if_pos rfl, hword]
      rfl
    split at hread
    · rename_i hf
      subst hf
      obtain ⟨t, hword, heq⟩ := map_eq_ok.mp hread
      obtain ⟨-, rfl⟩ := Prod.mk.inj heq
      refine ⟨.bool false, read_of_scalar hq (by decide) ?_⟩
      rw [Json.scalar, if_neg (by decide), if_neg (by decide), if_pos rfl, hword]
      rfl
    · cases hread
  isPlain v x hx := by
    rw [decode_bool.mp hx]
    trivial

theorem decode_natBelow {bound : Nat} {wanted : String} {s : Surplus} {v : Json} {x : Nat} :
    (natBelow bound wanted).decode s v = some x ↔ v = .nat x ∧ x < bound := by
  cases v with
  | number n =>
    change (boundedNat bound wanted n).toOption = some x ↔ _
    rw [toOption_eq_some, Json.nat, Json.number.injEq]
    cases n with
    | double y => simp [boundedNat]
    | whole i =>
      rw [Number.whole.injEq, boundedNat]
      by_cases hbounds : 0 ≤ i ∧ i < bound
      · rw [if_pos hbounds, Except.ok.injEq]
        omega
      · rw [if_neg hbounds]
        constructor
        · intro herror
          cases herror
        · rintro ⟨rfl, hx⟩
          exact absurd ⟨Int.natCast_nonneg x, Int.ofNat_lt.mpr hx⟩ hbounds
  | null | bool | string | array | object =>
    change none = some x ↔ _
    simp [Json.nat]

theorem scalar_natBelow {bound : Nat} (h : bound ≤ UInt64.size) (wanted : String) :
    (natBelow bound wanted).Scalar where
  agrees := agrees_natBelow bound wanted
  reads cs x r hread := by
    rw [natBelow] at hread
    simp only at hread
    split at hread
    · cases hread
    rename_i d q hq
    split at hread
    · rename_i hstarts
      obtain ⟨hopens, hn, ht, hf⟩ := of_startsNumber hstarts
      split at hread
      · cases hread
      rename_i n t hnumber
      obtain ⟨_, -, heq⟩ := map_eq_ok.mp hread
      obtain ⟨-, rfl⟩ := Prod.mk.inj heq
      refine ⟨.number n, read_of_scalar hq hopens ?_⟩
      rw [Json.scalar, if_neg hn, if_neg ht, if_neg hf, if_pos hstarts, hnumber]
      rfl
    · cases hread
  isPlain v x hx := by
    obtain ⟨rfl, hlt⟩ := decode_natBelow.mp hx
    exact ⟨Int.natCast_nonneg x, Int.ofNat_lt.mpr (Nat.lt_of_lt_of_le hlt h)⟩

theorem decode_word32 {s : Surplus} {v : Json} {x : UInt32} :
    word32.decode s v = some x ↔ v = .nat x.toNat := by
  rw [word32, imap]
  simp only [Option.map_eq_some_iff, decode_natBelow]
  constructor
  · rintro ⟨n, ⟨rfl, hn⟩, rfl⟩
    rw [UInt32.toNat_ofNat_of_lt' hn]
  · rintro rfl
    exact ⟨x.toNat, ⟨rfl, x.toNat_lt⟩, UInt32.ofNat_toNat⟩

/-- An optional value is none where it says `null`, if the codec of the value does not take that. -/
theorem decode_option_eq_some {s : Surplus} (hnull : c.decode s .null = none) {v : Json}
    {o : Option α} : c.option.decode s v = some o ↔
      v = .null ∧ o = none ∨ ∃ x, c.decode s v = some x ∧ o = some x := by
  by_cases hv : v = .null
  · subst hv
    change some none = some o ↔ _
    simp [hnull, eq_comm]
  · rw [decode_option hv, Option.map_eq_some_iff]
    simp [hv, eq_comm]

theorem scalar_option (h : c.Scalar) : c.option.Scalar where
  agrees := agrees_option h.agrees
  reads cs o r hread := by
    rw [option] at hread
    simp only at hread
    split at hread
    · obtain ⟨⟨x, r'⟩, hx, heq⟩ := map_eq_ok.mp hread
      obtain ⟨-, rfl⟩ := Prod.mk.inj heq
      exact h.reads cs x r' hx
    rename_i d q hq
    split at hread
    · rename_i hn
      subst hn
      obtain ⟨t, hword, heq⟩ := map_eq_ok.mp hread
      obtain ⟨-, rfl⟩ := Prod.mk.inj heq
      refine ⟨.null, read_of_scalar hq (by decide) ?_⟩
      rw [Json.scalar, if_pos rfl, hword]
      rfl
    · obtain ⟨⟨x, r'⟩, hx, heq⟩ := map_eq_ok.mp hread
      obtain ⟨-, rfl⟩ := Prod.mk.inj heq
      exact h.reads cs x r' hx
  isPlain v o ho := by
    by_cases hv : v = .null
    · rw [hv]
      trivial
    · rw [decode_option hv] at ho
      obtain ⟨x, hx, -⟩ := Option.map_eq_some_iff.mp ho
      exact h.isPlain v x hx

namespace Scalar

variable (h : c.Scalar) {t : List Char}
include h

/-- What is refused where no bracket may be opened is refused. -/
theorem plain_read (cs : List Char) : plain (c.read cs) =
    (plain (Json.read 0 cs)).bind fun found =>
      (c.decode .refused found.1).map fun x => (x, found.2) := by
  cases hread : Json.read 0 cs with
  | error e =>
    cases hvalue : c.read cs with
    | error e => rfl
    | ok found =>
      obtain ⟨v, hv⟩ := h.reads cs found.1 found.2 hvalue
      rw [hread] at hv
      cases hv
  | ok found =>
    rw [plain, h.agrees 0 cs found.1 found.2 hread, Option.map_map]
    rfl

/-- A document is taken by such a codec as a whole or refused. -/
theorem settles (ht : IsDocument t) :
    Settles c.read t ((valueOf (Json.read 0) t).bind (c.decode .refused)) := by
  obtain ⟨o, ho⟩ := settles_read ht 0
  intro rest hrest
  obtain ⟨sp, hsp, hread⟩ := ho.valueOf rest hrest
  refine ⟨sp, hsp, ?_⟩
  rw [h.plain_read, hread, Option.bind_map, Option.map_bind]
  rfl

/-- **Such a codec takes a document just if it says something that the codec decodes.** -/
theorem valueOf_iff (ht : IsDocument t) (x : α) :
    valueOf c.read t = some x ↔ ∃ v, Says t v ∧ c.decode .refused v = some x := by
  rw [(h.settles ht).valueOf_eq, Option.bind_eq_some_iff]
  constructor
  · rintro ⟨v, hv, hx⟩
    exact ⟨v, (valueOf_read_iff ht (h.isPlain v x hx)).mp hv, hx⟩
  · rintro ⟨v, hv, hx⟩
    exact ⟨v, (valueOf_read_iff ht (h.isPlain v x hx)).mpr hv, hx⟩

end Scalar

end Codec

end SuffixLint
