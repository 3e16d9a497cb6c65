import SuffixLint.Proofs.Json.Grammar
import SuffixLint.Proofs.Json.Skip
/-!
# What is skipped is a document

Skipping looks at nothing but how a text is put together, so what has been skipped is a text of the
grammar (`skip_takes_document`). As whatever is read can also be skipped, the grammar leaves out no
text that is read (`isDocument_of_ofText`).

Each step has taken a part of the text from its front. Inside brackets these parts come one by one,
each with the comma or the bracket behind it.
-/

namespace SuffixLint.Json

open Lexeme Text

/-- The character that opens a bracket. -/
def Bracket.opening : Bracket → Char
  | list => '['
  | object => '\x7b'

/-! ## Spaces and words -/

theorem eq_append_of_next {cs : List Char} {c : Char} {r : Rest cs} (h : next cs = some (c, r)) :
    ∃ sp, Spaces sp ∧ cs = sp ++ c :: r.val := by
  induction cs with
  | nil => cases h
  | cons d cs ih =>
    rw [next] at h
    split at h
    · rename_i hspace
      obtain ⟨⟨c', r'⟩, hnext, heq⟩ := Option.map_eq_some_iff.mp h
      obtain ⟨rfl, rfl⟩ := Prod.mk.inj heq
      obtain ⟨sp, hsp, hcs⟩ := ih hnext
      exact ⟨d :: sp, List.forall_mem_cons.mpr ⟨hspace, hsp⟩, congrArg (d :: ·) hcs⟩
    · obtain ⟨rfl, rfl⟩ := Prod.mk.inj (Option.some.inj h)
      exact ⟨[], spaces_nil, rfl⟩

theorem eq_append_of_word {w cs : List Char} {t : Tail cs} (h : word w cs = .ok t) :
    cs = w ++ t.val := by
  induction w generalizing cs with
  | nil =>
    obtain rfl := Except.ok.inj h
    rfl
  | cons c w ih =>
    cases cs with
    | nil => cases h
    | cons d cs =>
      rw [word] at h
      split at h
      · rename_i hd
        obtain ⟨t', ht', rfl⟩ := map_eq_ok.mp h
        rw [hd, List.cons_append]
        exact congrArg (c :: ·) (ih ht')
      · cases h

/-! ## Strings -/

theorem isSome_of_hexNumber? {a b c d : Char} {n : Nat} (h : hexNumber? a b c d = some n) :
    (hexValue? a).isSome ∧ (hexValue? b).isSome ∧ (hexValue? c).isSome ∧ (hexValue? d).isSome := by
  unfold hexNumber? at h
  obtain ⟨a', ha, h⟩ := Option.bind_eq_some_iff.mp h
  obtain ⟨b', hb, h⟩ := Option.bind_eq_some_iff.mp h
  obtain ⟨c', hc, h⟩ := Option.bind_eq_some_iff.mp h
  obtain ⟨d', hd, -⟩ := Option.bind_eq_some_iff.mp h
  rw [ha, hb, hc, hd]
  exact ⟨rfl, rfl, rfl, rfl⟩

theorem mem_of_shortEscape? {c : Char} (h : (shortEscape? c).isSome = true) :
    c ∈ "\"\\/bfnrt".toList := by
  unfold shortEscape? at h
  split at h
  iterate 8 decide
  cases h

/-- An escape that has been skipped may stand in a string. -/
theorem isBody_of_skipEscape {cs : List Char} {r : Rest cs} (h : skipEscape cs = .ok r) :
    ∃ e, cs = e ++ r.val ∧ ∀ body, IsBody body → IsBody ('\\' :: (e ++ body)) := by
  unfold skipEscape at h
  split at h
  · cases h
  rename_i c rest
  split at h
  · rename_i hshort
    obtain rfl := Except.ok.inj h
    exact ⟨[c], rfl, fun body hbody => .short (mem_of_shortEscape? hshort) hbody⟩
  split at h
  · rename_i hu
    subst hu
    split at h
    · cases h
    rename_i n t hhex
    obtain rfl := Except.ok.inj h
    unfold hexEscape at hhex
    split at hhex
    · split at hhex
      · rename_i hnumber
        obtain ⟨-, rfl⟩ := Prod.mk.inj (Except.ok.inj hhex)
        obtain ⟨ha, hb, hc, hd⟩ := isSome_of_hexNumber? hnumber
        exact ⟨['u', _, _, _, _], rfl, fun body hbody => .number ha hb hc hd hbody⟩
      · cases hhex
    · cases hhex
  · cases h

theorem isBody_of_skipString {cs : List Char} {r : Rest cs} (h : skipString cs = .ok r) :
    ∃ body, IsBody body ∧ cs = body ++ '"' :: r.val := by
  fun_induction skipString cs with
  | case1 => cases h
  | case2 rest =>
    obtain rfl := Except.ok.inj h
    exact ⟨[], .nil, rfl⟩
  | case3 => cases h
  | case4 => cases h
  | case5 rest r' hescape t hstring _ ih =>
    obtain rfl := Except.ok.inj h
    obtain ⟨e, he, hbehind⟩ := isBody_of_skipEscape hescape
    obtain ⟨body, hbody, hrest⟩ := ih hstring
    refine ⟨'\\' :: (e ++ body), hbehind body hbody, ?_⟩
    calc '\\' :: rest = '\\' :: (e ++ r'.val) := congrArg ('\\' :: ·) he
      _ = '\\' :: (e ++ (body ++ '"' :: t.val)) := congrArg (fun cs => '\\' :: (e ++ cs)) hrest
      _ = '\\' :: (e ++ body) ++ '"' :: t.val := by rw [List.cons_append, List.append_assoc]
  | case6 => cases h
  | case7 => cases h
  | case8 c rest hquote hslash hcontrol t hstring ih =>
    obtain rfl := Except.ok.inj h
    obtain ⟨body, hbody, hrest⟩ := ih hstring
    exact ⟨c :: body, .plain hquote hslash hcontrol hbody, congrArg (c :: ·) hrest⟩

/-! ## Numbers -/

theorem digitRun_spec (cs : List Char) :
    cs = (digitRun cs).1 ++ (digitRun cs).2.val ∧ ∀ d ∈ (digitRun cs).1, d.isDigit = true := by
  induction cs with
  | nil => exact ⟨rfl, List.forall_mem_nil _⟩
  | cons c cs ih =>
    rw [digitRun]
    split
    · rename_i hc
      exact ⟨congrArg (c :: ·) ih.1, List.forall_mem_cons.mpr ⟨hc, ih.2⟩⟩
    · exact ⟨rfl, List.forall_mem_nil _⟩

theorem areDigits_of_someDigits {skipped : Bool} {cs ds : List Char} {t : Tail cs}
    (h : someDigits skipped cs = .ok (ds, t)) : AreDigits ds ∧ cs = ds ++ t.val := by
  obtain ⟨hcs, hdigits⟩ := digitRun_spec cs
  unfold someDigits at h
  split at h
  · cases h
  · rename_i hne hrun
    obtain ⟨rfl, rfl⟩ := Prod.mk.inj (Except.ok.inj h)
    rw [hrun] at hcs hdigits
    exact ⟨⟨hne, hdigits⟩, hcs⟩

theorem isWhole_of_wholePart {skipped : Bool} {cs whole : List Char} {r : Rest cs}
    (h : wholePart skipped cs = .ok (whole, r)) : IsWhole whole ∧ cs = whole ++ r.val := by
  unfold wholePart at h
  split at h
  · cases h
  rename_i c rest
  split at h
  · rename_i hzero
    subst hzero
    split at h
    · split at h
      · cases h
      · obtain ⟨rfl, rfl⟩ := Prod.mk.inj (Except.ok.inj h)
        exact ⟨.zero, rfl⟩
    · obtain ⟨rfl, rfl⟩ := Prod.mk.inj (Except.ok.inj h)
      exact ⟨.zero, rfl⟩
  · rename_i hzero
    split at h
    · rename_i hdigit
      obtain ⟨rfl, rfl⟩ := Prod.mk.inj (Except.ok.inj h)
      obtain ⟨hrest, hdigits⟩ := digitRun_spec rest
      exact ⟨.digits hdigit hzero hdigits, congrArg (c :: ·) hrest⟩
    · cases h

theorem isFraction_of_fractionPart {skipped : Bool} {cs : List Char} {x : Option (List Char)}
    {t : Tail cs} (h : fractionPart skipped cs = .ok (x, t)) :
    ∃ fraction, IsFraction fraction ∧ cs = fraction ++ t.val := by
  unfold fractionPart at h
  split at h
  · split at h
    · cases h
    rename_i ds t' hdigits
    obtain ⟨-, rfl⟩ := Prod.mk.inj (Except.ok.inj h)
    obtain ⟨hds, hrest⟩ := areDigits_of_someDigits hdigits
    exact ⟨'.' :: ds, .point hds, congrArg ('.' :: ·) hrest⟩
  · obtain ⟨-, rfl⟩ := Prod.mk.inj (Except.ok.inj h)
    exact ⟨[], .absent, rfl⟩

theorem powerSign_spec (cs : List Char) : ∃ sign, (sign = [] ∨ sign = ['+'] ∨ sign = ['-']) ∧
    cs = sign ++ (powerSign cs).2.val := by
  unfold powerSign
  split
  · exact ⟨['+'], Or.inr (Or.inl rfl), rfl⟩
  · exact ⟨['-'], Or.inr (Or.inr rfl), rfl⟩
  · exact ⟨[], Or.inl rfl, rfl⟩

theorem isPower_of_powerPart {skipped : Bool} {cs : List Char} {x : Option (Bool × List Char)}
    {t : Tail cs} (h : powerPart skipped cs = .ok (x, t)) :
    ∃ power, IsPower power ∧ cs = power ++ t.val := by
  unfold powerPart at h
  split at h
  · obtain ⟨-, rfl⟩ := Prod.mk.inj (Except.ok.inj h)
    exact ⟨[], .absent, rfl⟩
  rename_i e rest
  split at h
  · rename_i he
    simp only at h
    split at h
    · cases h
    rename_i ds t' hdigits
    obtain ⟨-, rfl⟩ := Prod.mk.inj (Except.ok.inj h)
    obtain ⟨sign, hsign, hrest⟩ := powerSign_spec rest
    obtain ⟨hds, hbehind⟩ := areDigits_of_someDigits hdigits
    rw [Bool.or_eq_true, decide_eq_true_eq, decide_eq_true_eq] at he
    refine ⟨e :: (sign ++ ds), .letter he hsign hds, ?_⟩
    rw [hbehind, ← List.append_assoc] at hrest
    exact congrArg (e :: ·) hrest
  · obtain ⟨-, rfl⟩ := Prod.mk.inj (Except.ok.inj h)
    exact ⟨[], .absent, rfl⟩

theorem isNumeral_of_numeral {skipped : Bool} {cs : List Char} {n : Numeral} {r : Rest cs}
    (h : numeral skipped cs = .ok (n, r)) : ∃ u, IsNumeral u ∧ cs = u ++ r.val := by
  unfold numeral at h
  split at h
  · cases h
  rename_i whole q hwhole
  split at h
  · cases h
  rename_i x t hfraction
  split at h
  · cases h
  rename_i y t' hpower
  obtain ⟨-, rfl⟩ := Prod.mk.inj (Except.ok.inj h)
  obtain ⟨hw, hcs⟩ := isWhole_of_wholePart hwhole
  obtain ⟨fraction, hf, hbehind⟩ := isFraction_of_fractionPart hfraction
  obtain ⟨power, hp, hrest⟩ := isPower_of_powerPart hpower
  refine ⟨whole ++ (fraction ++ power), .parts hw hf hp, ?_⟩
  calc cs = whole ++ q.val := hcs
    _ = whole ++ (fraction ++ t.val) := congrArg (whole ++ ·) hbehind
    _ = whole ++ (fraction ++ (power ++ t'.val)) :=
      congrArg (fun rest => whole ++ (fraction ++ rest)) hrest
    _ = whole ++ (fraction ++ power) ++ t'.val := by simp only [List.append_assoc]

/-- A word or a number that has been skipped is a document. -/
theorem isDocument_of_skipScalar {c : Char} {cs : List Char} {t : Tail cs}
    (h : skipScalar c cs = .ok t) : ∃ u, IsDocument (c :: u) ∧ cs = u ++ t.val := by
  unfold skipScalar at h
  split at h
  · rename_i hc
    subst hc
    exact ⟨_, .null, eq_append_of_word h⟩
  split at h
  · rename_i hc
    subst hc
    exact ⟨_, .true, eq_append_of_word h⟩
  split at h
  · rename_i hc
    subst hc
    exact ⟨_, .false, eq_append_of_word h⟩
  split at h
  · unfold skipNumber at h
    split at h
    · rename_i hminus
      subst hminus
      obtain ⟨⟨n, r⟩, hn, rfl⟩ := map_eq_ok.mp h
      obtain ⟨u, hu, hcs⟩ := isNumeral_of_numeral hn
      exact ⟨u, .negative hu, hcs⟩
    · obtain ⟨⟨n, r⟩, hn, rfl⟩ := map_eq_ok.mp h
      obtain ⟨u, hu, hcs⟩ := isNumeral_of_numeral hn
      obtain ⟨d, ds, -, rfl⟩ := hu.exists_cons
      obtain ⟨rfl, hrest⟩ := List.cons.inj hcs
      exact ⟨ds, .positive hu, hrest⟩
  · cases h

/-! ## Brackets -/

/-- What may stand between commas inside a bracket. -/
inductive IsPart : Bracket → List Char → Prop
  | item {t : List Char} (h : IsDocument t) : IsPart .list t
  | member {m : List Char × List Char} (hkey : IsKey m.1) (hvalue : IsDocument m.2) :
    IsPart .object (memberText m)

/-- The parts of an object are members. -/
theorem exists_members_of_isPart {us : List (List Char)} (h : ∀ u ∈ us, IsPart .object u) :
    ∃ ms : List (List Char × List Char), us = ms.map memberText ∧
      ∀ m ∈ ms, IsKey m.1 ∧ IsDocument m.2 := by
  induction us with
  | nil => exact ⟨[], rfl, List.forall_mem_nil _⟩
  | cons u us ih =>
    obtain ⟨ms, rfl, hms⟩ := ih fun v hv => h v (List.mem_cons_of_mem u hv)
    cases h u List.mem_cons_self with
    | @member m hkey hvalue =>
      exact ⟨m :: ms, rfl, List.forall_mem_cons.mpr ⟨⟨hkey, hvalue⟩, hms⟩⟩

/-- Parts between brackets are a document. -/
theorem isDocument_of_isPart {b : Bracket} {u : List Char} {us : List (List Char)}
    (h : ∀ v ∈ u :: us, IsPart b v) :
    IsDocument (b.opening :: (u ++ (listed us ++ [b.closing]))) := by
  cases b with
  | list =>
    apply IsDocument.array
    intro v hv
    cases h v hv with
    | item ht => exact ht
  | object =>
    obtain ⟨ms, hms, hparts⟩ := exists_members_of_isPart h
    cases ms with
    | nil => cases hms
    | cons m ms =>
      obtain ⟨rfl, rfl⟩ := List.cons.inj hms
      exact .object (fun n hn => (hparts n hn).1) fun n hn => (hparts n hn).2

theorem eq_append_of_colon {cs : List Char} {r : Rest cs} (h : colon cs = .ok r) :
    ∃ sp, Spaces sp ∧ cs = sp ++ ':' :: r.val := by
  unfold colon at h
  split at h
  · cases h
  rename_i c q hq
  split at h
  · rename_i hc
    subst hc
    obtain rfl := Except.ok.inj h
    exact eq_append_of_next hq
  · cases h

theorem isKey_of_skipKey {cs : List Char} {r : Rest cs} (h : skipKey cs = .ok r) :
    ∃ k, IsKey k ∧ cs = k ++ ':' :: r.val := by
  unfold skipKey at h
  split at h
  · cases h
  rename_i c q hq
  split at h
  · rename_i hquote
    subst hquote
    split at h
    · cases h
    rename_i q' hstring
    obtain ⟨q'', hcolon, rfl⟩ := map_eq_ok.mp h
    obtain ⟨sp, hsp, hcs⟩ := eq_append_of_next hq
    obtain ⟨body, hbody, hrest⟩ := isBody_of_skipString hstring
    obtain ⟨sp', hsp', hbehind⟩ := eq_append_of_colon hcolon
    refine ⟨sp ++ '"' :: (body ++ '"' :: sp'), .spaced hsp hbody hsp', ?_⟩
    calc cs = sp ++ '"' :: q.val := hcs
      _ = sp ++ '"' :: (body ++ '"' :: q'.val) := congrArg (fun rest => sp ++ '"' :: rest) hrest
      _ = sp ++ '"' :: (body ++ '"' :: (sp' ++ ':' :: q''.val)) :=
        congrArg (fun rest => sp ++ '"' :: (body ++ '"' :: rest)) hbehind
      _ = sp ++ '"' :: (body ++ '"' :: sp') ++ ':' :: q''.val := by
        simp only [List.append_assoc, List.cons_append]
  · cases h

/-- Behind its label a value is a part. -/
theorem isPart_of_skipLabel {b : Bracket} {cs : List Char} {t : Tail cs}
    (h : skipLabel b cs = .ok t) :
    ∃ l, cs = l ++ t.val ∧ ∀ v, IsDocument v → IsPart b (l ++ v) := by
  cases b with
  | list =>
    obtain rfl := Except.ok.inj h
    exact ⟨[], rfl, fun v hv => .item hv⟩
  | object =>
    obtain ⟨r, hr, rfl⟩ := map_eq_ok.mp h
    obtain ⟨k, hk, hcs⟩ := isKey_of_skipKey hr
    refine ⟨k ++ [':'], ?_, ?_⟩
    · rw [List.append_assoc]
      exact hcs
    · intro v hv
      rw [List.append_assoc]
      exact IsPart.member (m := (k, v)) hk hv

/-! ## Documents -/

/-- What `skip` takes from the front of a text is a document. -/
def TakesDocument (cs : List Char) : Prop :=
  ∀ r, skip cs = .ok r → ∃ t, IsDocument t ∧ cs = t ++ r.val

/-- What is taken behind an opened bracket makes a document with it. -/
def TakesOpened (b : Bracket) (cs : List Char) : Prop :=
  ∀ r, skipOpened b cs = .ok r → ∃ u, IsDocument (b.opening :: u) ∧ cs = u ++ r.val

/-- What is taken from a value inside a bracket on is parts and the closing bracket. -/
def TakesFilled (b : Bracket) (cs : List Char) : Prop :=
  ∀ r, skipFilled b cs = .ok r → ∃ u us, (∀ v ∈ u :: us, IsPart b v) ∧
    cs = u ++ (listed us ++ b.closing :: r.val)

/-- A bracket that is not closed at once goes on with parts. -/
theorem takesOpened_of_filled {b : Bracket} {cs : List Char} (h : TakesFilled b cs) :
    TakesOpened b cs := by
  intro r hr
  rw [skipOpened] at hr
  split at hr
  · cases hr
  rename_i c q hq
  split at hr
  · rename_i hc
    subst hc
    obtain rfl := Except.ok.inj hr
    obtain ⟨sp, hsp, hcs⟩ := eq_append_of_next hq
    refine ⟨sp ++ [b.closing], ?_, ?_⟩
    · cases b with
      | list => exact .emptyArray hsp
      | object => exact .emptyObject hsp
    · rw [List.append_assoc]
      exact hcs
  · obtain ⟨u, us, hparts, hcs⟩ := h r hr
    refine ⟨u ++ (listed us ++ [b.closing]), isDocument_of_isPart hparts, ?_⟩
    rw [List.append_assoc, List.append_assoc]
    exact hcs

/-- What is taken behind the first character of a document, with that character. -/
theorem eq_append_of_behind {cs u rest : List Char} {c : Char} {q : Rest cs}
    (hq : next cs = some (c, q)) (hu : IsDocument (c :: u)) (hrest : q.val = u ++ rest) :
    ∃ t, IsDocument t ∧ cs = t ++ rest := by
  obtain ⟨sp, hsp, hcs⟩ := eq_append_of_next hq
  refine ⟨sp ++ (c :: u ++ []), .spaced hsp hu spaces_nil, ?_⟩
  rw [List.append_nil, List.append_assoc]
  exact hcs.trans (congrArg (fun rest => sp ++ c :: rest) hrest)

/-- A value is taken if what is inside its brackets is, which is shorter. -/
theorem takesDocument_of_shorter {cs : List Char}
    (h : ∀ more : List Char, more.length < cs.length → ∀ b, TakesFilled b more) :
    TakesDocument cs := by
  intro r hr
  rw [skip] at hr
  split at hr
  · cases hr
  rename_i c q hq
  have hopened : ∀ b, TakesOpened b q.val := fun b =>
    takesOpened_of_filled (h q.val q.property b)
  split at hr
  · rename_i hquote
    subst hquote
    obtain ⟨r', hr', rfl⟩ := map_eq_ok.mp hr
    obtain ⟨body, hbody, hrest⟩ := isBody_of_skipString hr'
    apply eq_append_of_behind hq (.string hbody)
    rw [List.append_assoc]
    exact hrest
  split at hr
  · rename_i hlist
    subst hlist
    obtain ⟨r', hr', rfl⟩ := map_eq_ok.mp hr
    obtain ⟨u, hu, hrest⟩ := hopened .list r' hr'
    exact eq_append_of_behind hq hu hrest
  split at hr
  · rename_i hobject
    subst hobject
    obtain ⟨r', hr', rfl⟩ := map_eq_ok.mp hr
    obtain ⟨u, hu, hrest⟩ := hopened .object r' hr'
    exact eq_append_of_behind hq hu hrest
  · obtain ⟨t, ht, rfl⟩ := map_eq_ok.mp hr
    obtain ⟨u, hu, hrest⟩ := isDocument_of_skipScalar ht
    exact eq_append_of_behind hq hu hrest

/-- Parts are taken one by one: the first is a value behind its label, and the others follow a
comma. -/
theorem takesFilled_of_shorter {b : Bracket} {cs : List Char}
    (hvalue : ∀ more : List Char, more.length ≤ cs.length → TakesDocument more)
    (hothers : ∀ more : List Char, more.length < cs.length → TakesFilled b more) :
    TakesFilled b cs := by
  intro r hr
  rw [skipFilled] at hr
  split at hr
  · cases hr
  rename_i t hlabel
  split at hr
  · cases hr
  rename_i q hskip
  split at hr
  · cases hr
  rename_i c q' hq'
  obtain ⟨l, hl, hpart⟩ := isPart_of_skipLabel hlabel
  obtain ⟨v, hv, hrest⟩ := hvalue t.val t.property q hskip
  obtain ⟨sp, hsp, hbehind⟩ := eq_append_of_next hq'
  -- the spaces behind the value are a part of it
  have hfirst : IsPart b (l ++ (v ++ sp)) := hpart _ (.spaced spaces_nil hv hsp)
  have hcs : cs = l ++ (v ++ sp) ++ c :: q'.val := by
    calc cs = l ++ t.val := hl
      _ = l ++ (v ++ q.val) := congrArg (l ++ ·) hrest
      _ = l ++ (v ++ (sp ++ c :: q'.val)) := congrArg (fun rest => l ++ (v ++ rest)) hbehind
      _ = l ++ (v ++ sp) ++ c :: q'.val := by simp only [List.append_assoc]
  split at hr
  · rename_i hcomma
    subst hcomma
    obtain ⟨r', hr', rfl⟩ := map_eq_ok.mp hr
    obtain ⟨u, us, hparts, hmore⟩ := hothers q'.val ((t.rest q).rest q').property r' hr'
    refine ⟨l ++ (v ++ sp), u :: us, List.forall_mem_cons.mpr ⟨hfirst, hparts⟩, ?_⟩
    rw [listed_cons_append]
    exact hcs.trans (congrArg (fun rest => l ++ (v ++ sp) ++ ',' :: rest) hmore)
  split at hr
  · rename_i hclosing
    subst hclosing
    obtain rfl := Except.ok.inj hr
    exact ⟨l ++ (v ++ sp), [], List.forall_mem_singleton.mpr hfirst, hcs⟩
  · cases hr

theorem takesFilled (b : Bracket) (cs : List Char) : TakesFilled b cs := by
  -- an item has no label, so its value may be all of the text: the induction is on what brackets
  -- hold, and a value of the same length is taken apart first
  induction hlength : cs.length using Nat.strongRecOn generalizing b cs with
  | _ n ih =>
    subst hlength
    have hshorter : ∀ more : List Char, more.length < cs.length → ∀ b, TakesFilled b more :=
      fun more hmore b => ih more.length hmore b more rfl
    apply takesFilled_of_shorter
    · intro more hmore
      apply takesDocument_of_shorter
      intro inner hinner
      exact hshorter inner (Nat.lt_of_lt_of_le hinner hmore)
    · intro more hmore
      exact hshorter more hmore b

/-- **What has been skipped is a document.** -/
theorem isDocument_of_skip {cs : List Char} {r : Rest cs} (h : skip cs = .ok r) :
    ∃ t, IsDocument t ∧ cs = t ++ r.val :=
  takesDocument_of_shorter (fun more _ b => takesFilled b more) r h

/-- A text that is read as a whole is a document. -/
theorem isDocument_of_ofText {text : List Char} {v : Json} (h : ofText text = .ok v) :
    IsDocument text := by
  unfold ofText at h
  split at h
  · cases h
  rename_i w r hread
  split at h
  · rename_i hend
    obtain ⟨t, ht, htext⟩ := isDocument_of_skip (skip_of_read hread)
    rw [htext]
    exact .spaced spaces_nil ht (List.all_eq_true.mp hend)
  · cases h

end SuffixLint.Json
