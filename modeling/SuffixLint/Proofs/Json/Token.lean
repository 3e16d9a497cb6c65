import SuffixLint.Proofs.Except
import SuffixLint.Proofs.Json.Grammar
/-!
# Tokens are read up to their end

A numeral of the grammar is read as the same parts whatever follows it, as long as what follows does
not go on with it (`plain_numeral`). What stands between the quotes of a string is read as the same
characters or refused, whatever follows the closing quote (`plain_string`): it is refused where a
half of a surrogate pair is not next to the other.

What is read is compared here for texts that differ in what stands behind, so the proofs that a rest
is shorter are in the way; `plain` leaves them out.
-/

namespace SuffixLint.Json

open Lexeme Text

/-- What a step of reading gives and leaves, without the proof that it leaves less. -/
def plain {α : Type} {P : List Char → Prop} (x : Except Error (α × { r // P r })) :
    Option (α × List Char) :=
  x.toOption.map fun found => (found.1, found.2.val)

section Plain

variable {α β : Type} {P Q : List Char → Prop}

theorem plain_eq_some {x : Except Error (α × { r // P r })} {a : α} {rest : List Char} :
    plain x = some (a, rest) ↔ ∃ r, x = .ok (a, r) ∧ r.val = rest := by
  cases x with
  | error e => simp [plain, Except.toOption]
  | ok found =>
    obtain ⟨b, r⟩ := found
    constructor
    · intro h
      obtain ⟨rfl, rfl⟩ := Prod.mk.inj (Option.some.inj h)
      exact ⟨r, rfl, rfl⟩
    · rintro ⟨r', hr', rfl⟩
      obtain ⟨rfl, rfl⟩ := Prod.mk.inj (Except.ok.inj hr')
      rfl

theorem plain_eq_none {x : Except Error (α × { r // P r })} :
    plain x = none ↔ ∃ e, x = .error e := by
  rw [plain, Option.map_eq_none_iff, toOption_eq_none]

theorem plain_map (x : Except Error (α × { r // P r })) (f : α → β)
    (g : { r // P r } → { r // Q r }) (hg : ∀ r, (g r).val = r.val) :
    plain (x.map fun found => (f found.1, g found.2)) =
      (plain x).map fun found => (f found.1, found.2) := by
  cases x with
  | error e => rfl
  | ok found => exact congrArg (fun rest => some (f found.1, rest)) (hg found.2)

end Plain

/-! ## Numbers -/

theorem plain_wholePart {whole : List Char} (h : IsWhole whole) {rest : List Char}
    (hrest : ∀ c r, rest = c :: r → c.isDigit = false) :
    plain (wholePart false (whole ++ rest)) = some (whole, rest) := by
  rw [plain_eq_some]
  cases h with
  | zero =>
    refine ⟨behind rest, ?_, rfl⟩
    change wholePart false ('0' :: rest) = _
    cases rest with
    | nil => rfl
    | cons c r => simp only [wholePart, if_true, hrest c r rfl, Bool.false_eq_true, if_false]
  | digits hc hzero hds =>
    obtain ⟨t, ht, hval⟩ := digitRun_append hds hrest
    refine ⟨t.past, ?_, hval⟩
    simp only [List.cons_append, wholePart, hzero, if_false, hc, if_true, ht]

theorem plain_someDigits {ds : List Char} (h : AreDigits ds) {rest : List Char}
    (hrest : ∀ c r, rest = c :: r → c.isDigit = false) :
    plain (someDigits false (ds ++ rest)) = some (ds, rest) := by
  obtain ⟨t, ht, hval⟩ := digitRun_append h.2 hrest
  rw [plain_eq_some]
  refine ⟨t, ?_, hval⟩
  obtain ⟨d, ds, rfl⟩ := List.exists_cons_of_ne_nil h.1
  rw [someDigits, ht]

/-- The fraction of a number is read up to its last digit. -/
theorem plain_fractionPart {fraction : List Char} (h : IsFraction fraction) :
    ∃ x, ∀ rest, (∀ c r, rest = c :: r → c.isDigit = false ∧ c ≠ '.') →
      plain (fractionPart false (fraction ++ rest)) = some (x, rest) := by
  cases h with
  | absent =>
    refine ⟨none, ?_⟩
    intro rest hrest
    rw [List.nil_append, fractionPart]
    · rfl
    · intro r hr
      exact (hrest '.' r hr).2 rfl
  | @point ds hds =>
    refine ⟨some ds, ?_⟩
    intro rest hrest
    obtain ⟨t, ht, hval⟩ := plain_eq_some.mp (plain_someDigits hds fun c r hc => (hrest c r hc).1)
    rw [List.cons_append, plain_eq_some]
    refine ⟨(Tail.past t).toTail, ?_, hval⟩
    rw [fractionPart, ht]

/-- The sign of a power of ten does not go on into its digits. -/
theorem powerSign_append {sign ds : List Char} (hsign : sign = [] ∨ sign = ['+'] ∨ sign = ['-'])
    (hds : AreDigits ds) : ∃ down, ∀ rest, ∃ t : Tail (sign ++ (ds ++ rest)),
      powerSign (sign ++ (ds ++ rest)) = (down, t) ∧ t.val = ds ++ rest := by
  rcases hsign with rfl | rfl | rfl
  · refine ⟨false, ?_⟩
    intro rest
    obtain ⟨d, ds, rfl⟩ := List.exists_cons_of_ne_nil hds.1
    have hdigit := hds.2 d List.mem_cons_self
    refine ⟨unread _, ?_, rfl⟩
    rw [List.nil_append, List.cons_append, powerSign]
    · rintro r heq
      obtain ⟨rfl, -⟩ := List.cons.inj heq
      exact absurd hdigit (by decide)
    · rintro r heq
      obtain ⟨rfl, -⟩ := List.cons.inj heq
      exact absurd hdigit (by decide)
  · exact ⟨false, fun rest => ⟨_, rfl, rfl⟩⟩
  · exact ⟨true, fun rest => ⟨_, rfl, rfl⟩⟩

/-- The power of ten of a number is read up to its last digit. -/
theorem plain_powerPart {power : List Char} (h : IsPower power) :
    ∃ x, ∀ rest, EndsNumber rest → plain (powerPart false (power ++ rest)) = some (x, rest) := by
  cases h with
  | absent =>
    refine ⟨none, ?_⟩
    intro rest hrest
    rw [List.nil_append, powerPart_of_ends hrest]
    rfl
  | @letter e sign ds he hsign hds =>
    obtain ⟨down, hdown⟩ := powerSign_append hsign hds
    refine ⟨some (down, ds), ?_⟩
    intro rest hrest
    obtain ⟨t, ht, hval⟩ := hdown rest
    have hdigits := plain_someDigits hds fun c r hc => (hrest c r hc).1
    rw [← hval] at hdigits
    obtain ⟨t', ht', hval'⟩ := plain_eq_some.mp hdigits
    have hletter : (e = 'e' || e = 'E') = true := by
      rcases he with rfl | rfl <;> rfl
    rw [List.cons_append, List.append_assoc, plain_eq_some]
    refine ⟨(t.tail t').past.toTail, ?_, hval'⟩
    rw [powerPart, if_pos hletter, ht]
    simp only [ht']

/-- A numeral is read up to its end, as the same parts whatever follows. -/
theorem plain_numeral {cs : List Char} (h : IsNumeral cs) :
    ∃ n, ∀ rest, EndsNumber rest → plain (numeral false (cs ++ rest)) = some (n, rest) := by
  obtain ⟨hwhole, hfraction, hpower⟩ := h
  rename_i whole fraction power
  obtain ⟨x, hx⟩ := plain_fractionPart hfraction
  obtain ⟨y, hy⟩ := plain_powerPart hpower
  refine ⟨⟨whole, x, y⟩, ?_⟩
  intro rest hrest
  -- what follows each part does not go on with it
  have hbehind : ∀ c r, power ++ rest = c :: r → c.isDigit = false ∧ c ≠ '.' := by
    intro c r heq
    cases hpower with
    | absent =>
      obtain ⟨hdigit, hpoint, -⟩ := hrest c r heq
      exact ⟨hdigit, hpoint⟩
    | letter he =>
      obtain ⟨rfl, -⟩ := List.cons.inj heq
      rcases he with rfl | rfl <;> decide
  have hbehind' : ∀ c r, fraction ++ (power ++ rest) = c :: r → c.isDigit = false := by
    intro c r heq
    cases hfraction with
    | absent => exact (hbehind c r heq).1
    | point =>
      obtain ⟨rfl, -⟩ := List.cons.inj heq
      decide
  obtain ⟨r, hr, hval⟩ := plain_eq_some.mp (plain_wholePart hwhole hbehind')
  have hpart := hx (power ++ rest) hbehind
  rw [← hval] at hpart
  obtain ⟨t, ht, hval'⟩ := plain_eq_some.mp hpart
  have hlast := hy rest hrest
  rw [← hval'] at hlast
  obtain ⟨t', ht', hval''⟩ := plain_eq_some.mp hlast
  rw [List.append_assoc, List.append_assoc, plain_eq_some]
  refine ⟨Rest.tail (Rest.tail r t) t', ?_, hval''⟩
  rw [numeral, hr]
  simp only [ht, ht']

theorem plain_number_positive {c : Char} (hc : c ≠ '-') {cs rest : List Char} {n : Numeral}
    (h : plain (numeral false (c :: cs)) = some (n, rest)) :
    plain (Lexeme.number c cs) = (n.value false).toOption.map fun x => (x, rest) := by
  obtain ⟨r, hr, rfl⟩ := plain_eq_some.mp h
  rw [Lexeme.number, if_neg hc, hr]
  cases hv : n.value false with
  | error e => simp only [hv]; rfl
  | ok x => simp only [hv]; rfl

theorem plain_number_negative {cs rest : List Char} {n : Numeral}
    (h : plain (numeral false cs) = some (n, rest)) :
    plain (Lexeme.number '-' cs) = (n.value true).toOption.map fun x => (x, rest) := by
  obtain ⟨r, hr, rfl⟩ := plain_eq_some.mp h
  rw [Lexeme.number, if_pos rfl, hr]
  cases hv : n.value true with
  | error e => simp only [hv]; rfl
  | ok x => simp only [hv]; rfl

/-! ## Strings -/

/-- The character of an escape comes before those that stand behind the escape. -/
theorem plain_stringBody_escape (e : List Char) : plain (stringBody ('\\' :: e)) =
    (plain (escape e)).bind fun x => (plain (stringBody x.2)).map fun s => (x.1 :: s.1, s.2) := by
  rw [stringBody, if_neg (by decide), if_pos rfl]
  cases escape e with
  | error refusal => rfl
  | ok found =>
    obtain ⟨x, r⟩ := found
    change _ = (plain (stringBody r.val)).map fun s => (x :: s.1, s.2)
    cases hbody : stringBody r.val with
    | error refusal => simp only [hbody]; rfl
    | ok found => simp only [hbody]; rfl

/-- Four digits that stand for a number. -/
theorem hexNumber?_of_isSome {a b c d : Char} (ha : (hexValue? a).isSome)
    (hb : (hexValue? b).isSome) (hc : (hexValue? c).isSome) (hd : (hexValue? d).isSome) :
    ∃ n, hexNumber? a b c d = some n := by
  obtain ⟨a', ha'⟩ := Option.isSome_iff_exists.mp ha
  obtain ⟨b', hb'⟩ := Option.isSome_iff_exists.mp hb
  obtain ⟨c', hc'⟩ := Option.isSome_iff_exists.mp hc
  obtain ⟨d', hd'⟩ := Option.isSome_iff_exists.mp hd
  rw [hexNumber?, ha', hb', hc', hd']
  exact ⟨_, rfl⟩

theorem plain_escape_short {e : Char} (he : e ∈ "\"\\/bfnrt".toList) :
    ∃ x, ∀ rest, plain (escape (e :: rest)) = some (x, rest) := by
  have hall : "\"\\/bfnrt".toList.all (fun e => (shortEscape? e).isSome) = true := by decide
  obtain ⟨x, hx⟩ := Option.isSome_iff_exists.mp (List.all_eq_true.mp hall e he)
  refine ⟨x, ?_⟩
  intro rest
  rw [escape, hx]
  rfl

section Number

variable {a b c d : Char} {n : Nat} (hn : hexNumber? a b c d = some n)
include hn

theorem plain_hexEscape (rest : List Char) :
    plain (hexEscape (a :: b :: c :: d :: rest)) = some (n, rest) := by
  rw [hexEscape, hn]
  rfl

/-- What an escape by a number stands for: a character, a half of a pair with the half behind it, or
nothing. -/
theorem plain_escape_number (rest : List Char) :
    plain (escape ('u' :: a :: b :: c :: d :: rest)) =
      if isLowSurrogate n then none
      else if isHighSurrogate n then plain (lowSurrogate n rest)
      else some (Char.ofNat n, rest) := by
  obtain ⟨t, ht, hval⟩ := plain_eq_some.mp (plain_hexEscape hn rest)
  have hshort : shortEscape? 'u' = none := by decide
  rw [escape, hshort]
  simp only [ne_eq, not_true_eq_false, if_false, ht]
  by_cases hlow : isLowSurrogate n = true
  · rw [if_pos hlow, if_pos hlow]
    rfl
  rw [if_neg hlow, if_neg hlow]
  by_cases hhigh : isHighSurrogate n = true
  · have hsame : plain (lowSurrogate n rest) = plain (lowSurrogate n t.val) := by rw [hval]
    rw [if_pos hhigh, if_pos hhigh, hsame]
    cases lowSurrogate n t.val with
    | error e => rfl
    | ok found => rfl
  · rw [if_neg hhigh, if_neg hhigh, plain_eq_some]
    exact ⟨Tail.past t, rfl, hval⟩

theorem plain_lowSurrogate (high : Nat) (rest : List Char) :
    plain (lowSurrogate high ('\\' :: 'u' :: a :: b :: c :: d :: rest)) =
      if isLowSurrogate n then some (surrogatePair high n, rest) else none := by
  obtain ⟨t, ht, hval⟩ := plain_eq_some.mp (plain_hexEscape hn rest)
  rw [lowSurrogate, ht]
  simp only
  by_cases hlow : isLowSurrogate n = true
  · rw [if_pos hlow, if_pos hlow, plain_eq_some]
    exact ⟨_, rfl, hval⟩
  · rw [if_neg hlow, if_neg hlow]
    rfl

end Number

/-- The second half of a pair has to be an escape by a number. -/
theorem plain_lowSurrogate_of_ne (high : Nat) {cs : List Char}
    (h : ∀ r, cs ≠ '\\' :: 'u' :: r) : plain (lowSurrogate high cs) = none := by
  unfold lowSurrogate
  split
  · rfl
  · rfl
  · rename_i r
    exact absurd rfl (h r)
  · rfl

/-- What stands between the quotes of a string is read as the same characters, or refused, whatever
follows the closing quote. -/
def BodySettles (body : List Char) : Prop :=
  ∃ o : Option (List Char), ∀ rest,
    plain (stringBody (body ++ '"' :: rest)) = o.map fun s => (s, rest)

theorem bodySettles_escape {e cs : List Char}
    (he : ∃ x, ∀ rest, plain (escape (e ++ rest)) = some (x, rest)) (h : BodySettles cs) :
    BodySettles ('\\' :: (e ++ cs)) := by
  obtain ⟨x, hx⟩ := he
  obtain ⟨o, ho⟩ := h
  refine ⟨o.map (x :: ·), ?_⟩
  intro rest
  rw [List.cons_append, plain_stringBody_escape, List.append_assoc, hx, Option.bind_some, ho,
    Option.map_map, Option.map_map]
  rfl

theorem bodySettles_refused {e : List Char}
    (he : ∀ rest, plain (escape (e ++ '"' :: rest)) = none) : BodySettles ('\\' :: e) := by
  refine ⟨none, ?_⟩
  intro rest
  rw [List.cons_append, plain_stringBody_escape, he]
  rfl

theorem bodySettles_plain {c : Char} {cs : List Char} (hquote : c ≠ '"') (hslash : c ≠ '\\')
    (hcontrol : ¬c.toNat < 0x20) (h : BodySettles cs) : BodySettles (c :: cs) := by
  obtain ⟨o, ho⟩ := h
  refine ⟨o.map (c :: ·), ?_⟩
  intro rest
  have hstep : plain (stringBody (c :: (cs ++ '"' :: rest))) =
      (plain (stringBody (cs ++ '"' :: rest))).map fun s => (c :: s.1, s.2) := by
    rw [stringBody, if_neg hquote, if_neg hslash, if_neg hcontrol]
    cases stringBody (cs ++ '"' :: rest) with
    | error e => rfl
    | ok found => rfl
  rw [List.cons_append, hstep, ho, Option.map_map, Option.map_map]
  rfl

/-- Behind the first half of a pair anything but an escape by a number is refused. -/
theorem plain_lowSurrogate_of_body (high : Nat) {cs : List Char} (h : IsBody cs)
    (hcs : ∀ r, cs ≠ '\\' :: 'u' :: r) (rest : List Char) :
    plain (lowSurrogate high (cs ++ '"' :: rest)) = none := by
  apply plain_lowSurrogate_of_ne
  intro r heq
  cases h with
  | nil => exact absurd (List.cons.inj heq).1 (by decide)
  | plain _ hslash => exact hslash (List.cons.inj heq).1
  | short he =>
    obtain ⟨rfl, -⟩ := List.cons.inj (List.cons.inj heq).2
    exact absurd he (by decide)
  | number => exact hcs _ rfl

section Escape

variable {a b c d : Char} {n : Nat} (hn : hexNumber? a b c d = some n) {cs : List Char}
include hn

theorem bodySettles_low (hlow : isLowSurrogate n = true) :
    BodySettles ('\\' :: 'u' :: a :: b :: c :: d :: cs) := by
  apply bodySettles_refused
  intro rest
  change plain (escape ('u' :: a :: b :: c :: d :: (cs ++ '"' :: rest))) = none
  rw [plain_escape_number hn, if_pos hlow]

variable (hlow : ¬isLowSurrogate n = true)
include hlow

theorem bodySettles_single (hhigh : ¬isHighSurrogate n = true) (h : BodySettles cs) :
    BodySettles ('\\' :: 'u' :: a :: b :: c :: d :: cs) := by
  apply bodySettles_escape (e := ['u', a, b, c, d]) _ h
  refine ⟨Char.ofNat n, ?_⟩
  intro rest
  change plain (escape ('u' :: a :: b :: c :: d :: rest)) = _
  rw [plain_escape_number hn, if_neg hlow, if_neg hhigh]

variable (hhigh : isHighSurrogate n = true)
include hhigh

/-- The first half of a pair is refused where the second half is. -/
theorem bodySettles_half (h : ∀ rest, plain (lowSurrogate n (cs ++ '"' :: rest)) = none) :
    BodySettles ('\\' :: 'u' :: a :: b :: c :: d :: cs) := by
  apply bodySettles_refused
  intro rest
  change plain (escape ('u' :: a :: b :: c :: d :: (cs ++ '"' :: rest))) = none
  rw [plain_escape_number hn, if_neg hlow, if_pos hhigh, h]

/-- Both halves of a pair are one character. -/
theorem bodySettles_pair {a' b' c' d' : Char} {m : Nat} (hm : hexNumber? a' b' c' d' = some m)
    (h : BodySettles cs) : BodySettles
      ('\\' :: 'u' :: a :: b :: c :: d :: '\\' :: 'u' :: a' :: b' :: c' :: d' :: cs) := by
  by_cases hpair : isLowSurrogate m = true
  · apply bodySettles_escape (e := ['u', a, b, c, d, '\\', 'u', a', b', c', d']) _ h
    refine ⟨surrogatePair n m, ?_⟩
    intro rest
    change plain (escape ('u' :: a :: b :: c :: d :: '\\' :: 'u' :: a' :: b' :: c' :: d' ::
      rest)) = _
    rw [plain_escape_number hn, if_neg hlow, if_pos hhigh, plain_lowSurrogate hm, if_pos hpair]
  · apply bodySettles_half hn hlow hhigh
    intro rest
    change plain (lowSurrogate n ('\\' :: 'u' :: a' :: b' :: c' :: d' ::
      (cs ++ '"' :: rest))) = none
    rw [plain_lowSurrogate hm, if_neg hpair]

end Escape

/-- The characters of a string are read up to the closing quote. -/
theorem bodySettles {body : List Char} (h : IsBody body) : BodySettles body := by
  -- a surrogate pair is two escapes, so the induction is on the length
  induction hlength : body.length using Nat.strongRecOn generalizing body with
  | _ length ih =>
    have hshorter : ∀ cs, IsBody cs → cs.length < length → BodySettles cs :=
      fun cs hcs hlt => ih cs.length hlt hcs rfl
    cases h with
    | nil =>
      refine ⟨some [], ?_⟩
      intro rest
      rw [List.nil_append, stringBody, if_pos rfl]
      rfl
    | plain hquote hslash hcontrol hcs =>
      simp only [List.length_cons] at hlength
      exact bodySettles_plain hquote hslash hcontrol (hshorter _ hcs (by omega))
    | @short e cs he hcs =>
      simp only [List.length_cons] at hlength
      exact bodySettles_escape (e := [e]) (plain_escape_short he) (hshorter cs hcs (by omega))
    | @number a b c d cs ha hb hc hd hcs =>
      simp only [List.length_cons] at hlength
      obtain ⟨n, hn⟩ := hexNumber?_of_isSome ha hb hc hd
      by_cases hlow : isLowSurrogate n = true
      · exact bodySettles_low hn hlow
      by_cases hhigh : isHighSurrogate n = true
      · by_cases hescape : ∃ r, cs = '\\' :: 'u' :: r
        · obtain ⟨r, rfl⟩ := hescape
          cases hcs with
          | plain _ hslash => exact absurd rfl hslash
          | short he => exact absurd he (by decide)
          | @number _ _ _ _ cs ha' hb' hc' hd' hcs =>
            simp only [List.length_cons] at hlength
            obtain ⟨m, hm⟩ := hexNumber?_of_isSome ha' hb' hc' hd'
            exact bodySettles_pair hn hlow hhigh hm (hshorter cs hcs (by omega))
        · apply bodySettles_half hn hlow hhigh
          apply plain_lowSurrogate_of_body n hcs
          intro r hr
          exact hescape ⟨r, hr⟩
      · exact bodySettles_single hn hlow hhigh (hshorter cs hcs (by omega))

/-- A string is read up to its closing quote. -/
theorem plain_string {body : List Char} (h : IsBody body) :
    ∃ o : Option String, ∀ rest,
      plain (Lexeme.string (body ++ '"' :: rest)) = o.map fun s => (s, rest) := by
  obtain ⟨o, ho⟩ := bodySettles h
  refine ⟨o.map String.ofList, ?_⟩
  intro rest
  have hstring := plain_map (stringBody (body ++ '"' :: rest)) String.ofList id fun _ => rfl
  rw [ho, Option.map_map] at hstring
  rw [Option.map_map]
  exact hstring

end SuffixLint.Json
