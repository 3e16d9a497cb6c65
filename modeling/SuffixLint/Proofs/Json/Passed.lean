import SuffixLint.Proofs.Json.Skipped
import SuffixLint.Proofs.Json.Settled
/-!
# Documents are passed over

A document is skipped up to its end, whatever follows it and whatever it holds
(`leaves_skip`): any depth of brackets, numbers of any size and halves of surrogate pairs.
With `isDocument_of_skip` this says that the grammar and skipping mean the same texts.

The induction follows the grammar. A value inside brackets is a part with its label before it, and
parts are skipped one by one, each with the comma or the bracket behind it.
-/

namespace SuffixLint.Json

open Lexeme Text

/-! ## Strings and keys -/

/-- A string is skipped up to its closing quote. -/
theorem leaves_skipString_of_isBody {body : List Char} (h : IsBody body) (rest : List Char) :
    Leaves skipString (body ++ '"' :: rest) rest := by
  induction h with
  | nil =>
    rw [List.nil_append]
    refine ⟨behind rest, ?_, rfl⟩
    rw [skipString, if_pos rfl]
  | @plain c cs hquote hslash hcontrol _ ih =>
    obtain ⟨t, ht, hval⟩ := ih
    rw [List.cons_append]
    refine ⟨t.past, ?_, hval⟩
    rw [skipString, if_neg hquote, if_neg hslash, if_neg hcontrol]
    simp only [ht]
  | @short e cs he _ ih =>
    have hall : "\"\\/bfnrt".toList.all (fun e => (shortEscape? e).isSome) = true := by decide
    have hshort : (shortEscape? e).isSome = true := List.all_eq_true.mp hall e he
    have hescape : Leaves skipEscape (e :: (cs ++ '"' :: rest)) (cs ++ '"' :: rest) := by
      refine ⟨behind _, ?_, rfl⟩
      rw [skipEscape, if_pos hshort]
    exact leaves_skipString_escape hescape ih
  | @number a b c d cs ha hb hc hd _ ih =>
    obtain ⟨n, hn⟩ := hexNumber?_of_isSome ha hb hc hd
    obtain ⟨t, ht, hval⟩ := plain_eq_some.mp (plain_hexEscape hn (cs ++ '"' :: rest))
    have hescape := leaves_skipEscape_of_hexEscape ht
    rw [hval] at hescape
    exact leaves_skipString_escape hescape ih

/-- A colon is met behind spaces. -/
theorem leaves_colon {sp : List Char} (hsp : Spaces sp) (tail : List Char) :
    Leaves colon (sp ++ ':' :: tail) tail := by
  obtain ⟨r, hr, hval⟩ := next_append hsp (c := ':') (by decide) tail
  refine ⟨r, ?_, hval⟩
  rw [colon, hr]
  rfl

theorem IsKey.exists_start {k : List Char} (h : IsKey k) :
    ∃ sp r, Spaces sp ∧ k = sp ++ '"' :: r := by
  obtain ⟨hbefore, -, -⟩ := h
  exact ⟨_, _, hbefore, rfl⟩

/-- A key is skipped with the colon behind it. -/
theorem leaves_skipKey {k : List Char} (hk : IsKey k) (tail : List Char) :
    Leaves skipKey (k ++ ':' :: tail) tail := by
  obtain ⟨hbefore, hbody, hbehind⟩ := hk
  rename_i before body behind
  simp only [List.append_assoc, List.cons_append]
  obtain ⟨q, hq, hval⟩ :=
    next_append hbefore (c := '"') (by decide) (body ++ '"' :: (behind ++ ':' :: tail))
  have hstring := leaves_skipString_of_isBody hbody (behind ++ ':' :: tail)
  rw [← hval] at hstring
  obtain ⟨q', hq', hval'⟩ := hstring
  have hcolon := leaves_colon hbehind tail
  rw [← hval'] at hcolon
  obtain ⟨q'', hq'', hval''⟩ := hcolon
  refine ⟨(q.rest q').rest q'', ?_, hval''⟩
  rw [skipKey, hq]
  simp only [if_true, hq', hq'']
  rfl

/-! ## The first character -/

/-- What is left when a value is skipped whose first character has been met. -/
def LeavesBehind (c : Char) (cs rest : List Char) : Prop :=
  if c = '"' then Leaves skipString cs rest
  else if c = '[' then Leaves (skipOpened .list) cs rest
  else if c = '\x7b' then Leaves (skipOpened .object) cs rest
  else ∃ t, skipScalar c cs = .ok t ∧ t.val = rest

/-- A step that goes on behind another one leaves what that one left. -/
theorem leaves_map {P Q : List Char → Prop} {x : Except Error { r // P r }}
    {f : { r // P r } → { r // Q r }} (hf : ∀ r, (f r).val = r.val) {rest : List Char} :
    (∃ r, x.map f = .ok r ∧ r.val = rest) ↔ ∃ r, x = .ok r ∧ r.val = rest := by
  constructor
  · rintro ⟨r, hr, rfl⟩
    obtain ⟨r', hr', rfl⟩ := map_eq_ok.mp hr
    exact ⟨r', hr', (hf r').symm⟩
  · rintro ⟨r, rfl, rfl⟩
    exact ⟨f r, rfl, hf r⟩

theorem leaves_skip_iff {cs rest : List Char} {c : Char} {q : Rest cs}
    (hq : next cs = some (c, q)) : Leaves skip cs rest ↔ LeavesBehind c q.val rest := by
  unfold Leaves LeavesBehind
  rw [skip, hq]
  simp only
  split
  · exact leaves_map (f := q.rest) fun _ => rfl
  split
  · exact leaves_map (f := q.rest) fun _ => rfl
  split
  · exact leaves_map (f := q.rest) fun _ => rfl
  · exact leaves_map (f := q.tail) fun _ => rfl

/-- Spaces before a text do not change what is met in it. -/
theorem next_spaces {sp : List Char} (hsp : Spaces sp) {cs : List Char} {c : Char} {q : Rest cs}
    (hq : next cs = some (c, q)) : ∃ q' : Rest (sp ++ cs),
      next (sp ++ cs) = some (c, q') ∧ q'.val = q.val := by
  induction sp with
  | nil => exact ⟨q, hq, rfl⟩
  | cons s sp ih =>
    obtain ⟨q', hq', hval⟩ := ih fun d hd => hsp d (List.mem_cons_of_mem s hd)
    refine ⟨q'.past, ?_, hval⟩
    change next (s :: (sp ++ cs)) = _
    rw [next, if_pos (hsp s List.mem_cons_self), hq']
    rfl

theorem leaves_skip_spaces {sp cs rest : List Char} (hsp : Spaces sp) (h : Leaves skip cs rest) :
    Leaves skip (sp ++ cs) rest := by
  cases hq : next cs with
  | none =>
    obtain ⟨r, hr, -⟩ := h
    rw [skip, hq] at hr
    cases hr
  | some found =>
    obtain ⟨q', hq', hval⟩ := next_spaces hsp hq
    rw [leaves_skip_iff hq, ← hval] at h
    exact (leaves_skip_iff hq').mpr h

/-! ## Brackets -/

/-- A part inside a bracket is passed over: its label, and then its value up to the spaces behind
it. -/
def PassesPart (b : Bracket) (u : List Char) : Prop :=
  ∀ rest, EndsNumber rest → ∃ t : Tail (u ++ rest), skipLabel b (u ++ rest) = .ok t ∧
    ∃ sp, Spaces sp ∧ Leaves skip t.val (sp ++ rest)

/-- Parts are skipped up to the bracket that closes them. -/
theorem leaves_skipFilled_of_parts {b : Bracket} {u : List Char} {us : List (List Char)}
    (h : ∀ v ∈ u :: us, PassesPart b v) (rest : List Char) :
    Leaves (skipFilled b) (u ++ (listed us ++ b.closing :: rest)) rest := by
  have hclosing : b.closing = ']' ∨ b.closing = '\x7d' := by cases b <;> decide
  have hspace : isSpace b.closing = false := by cases b <;> decide
  induction us generalizing u with
  | nil =>
    obtain ⟨t, hlabel, sp, hsp, r, hr, hval⟩ :=
      h u List.mem_cons_self _ (endsNumber_listed [] hclosing rest)
    refine leaves_skipFilled hlabel hr (Or.inl ?_)
    rw [hval]
    exact next_append hsp hspace rest
  | cons v us ih =>
    obtain ⟨t, hlabel, sp, hsp, r, hr, hval⟩ :=
      h u List.mem_cons_self _ (endsNumber_listed (v :: us) hclosing rest)
    have hothers := ih fun w hw => h w (List.mem_cons_of_mem u hw)
    refine leaves_skipFilled hlabel hr (Or.inr ?_)
    rw [hval, listed_cons_append]
    obtain ⟨q, hq, hval'⟩ := next_append hsp (c := ',') (by decide)
      (v ++ (listed us ++ b.closing :: rest))
    rw [← hval'] at hothers
    exact ⟨q, hq, hothers⟩

/-- A document is a part of a list. -/
theorem passesPart_item {t : List Char}
    (h : ∀ rest, EndsNumber rest → ∃ sp, Spaces sp ∧ Leaves skip (t ++ rest) (sp ++ rest)) :
    PassesPart .list t := by
  intro rest hrest
  exact ⟨unread _, rfl, h rest hrest⟩

/-- A key and a document are a part of an object. -/
theorem passesPart_member {m : List Char × List Char} (hkey : IsKey m.1)
    (h : ∀ rest, EndsNumber rest → ∃ sp, Spaces sp ∧ Leaves skip (m.2 ++ rest) (sp ++ rest)) :
    PassesPart .object (memberText m) := by
  intro rest hrest
  obtain ⟨r, hr, hval⟩ := leaves_skipKey hkey (m.2 ++ rest)
  rw [memberText, List.append_assoc, List.cons_append]
  refine ⟨r.toTail, ?_, ?_⟩
  · rw [skipLabel, hr]
    rfl
  · change ∃ sp, Spaces sp ∧ Leaves skip r.val (sp ++ rest)
    rw [hval]
    exact h rest hrest

/-- A bracket around spaces only is skipped. -/
theorem leaves_skipOpened_spaces (b : Bracket) {sp : List Char} (hsp : Spaces sp)
    (rest : List Char) : Leaves (skipOpened b) (sp ++ b.closing :: rest) rest := by
  have hspace : isSpace b.closing = false := by cases b <;> decide
  obtain ⟨q, hq, hval⟩ := next_append hsp hspace rest
  have hend := leaves_skipOpened_end hq
  rwa [hval] at hend

/-! ## Documents -/

/-- A word or a number is skipped up to its end. -/
theorem leaves_skip_scalar {c : Char} (hspace : isSpace c = false)
    (hc : c ≠ '"' ∧ c ≠ '[' ∧ c ≠ '\x7b') {cs rest : List Char} {t : Tail (cs ++ rest)}
    (ht : skipScalar c (cs ++ rest) = .ok t) (hval : t.val = rest) :
    Leaves skip (c :: cs ++ rest) rest := by
  refine (leaves_skip_iff (next_cons hspace (cs ++ rest))).mpr ?_
  unfold LeavesBehind
  rw [if_neg hc.1, if_neg hc.2.1, if_neg hc.2.2]
  exact ⟨t, ht, hval⟩

theorem leaves_skip_positive {cs : List Char} (h : IsNumeral cs) {rest : List Char}
    (hrest : EndsNumber rest) : Leaves skip (cs ++ rest) rest := by
  obtain ⟨n, hn⟩ := plain_numeral h
  obtain ⟨r, hr, hval⟩ := plain_eq_some.mp (hn rest hrest)
  obtain ⟨c, ds, hc, rfl⟩ := h.exists_cons
  obtain ⟨hspace, hopens, hletters⟩ := of_isDigit hc
  have hminus : c ≠ '-' := by
    rintro rfl
    exact absurd hc (by decide)
  have hstarts : startsNumber c = true := by rw [startsNumber, hc, Bool.or_true]
  have hskip : numeral true (c :: (ds ++ rest)) = .ok (n, r) := numeral_skipped hr
  refine leaves_skip_scalar hspace hopens (t := Rest.behindFirst r) ?_ hval
  rw [skipScalar, if_neg hletters.1, if_neg hletters.2.1, if_neg hletters.2.2, if_pos hstarts,
    skipNumber, if_neg hminus, hskip]
  rfl

theorem leaves_skip_negative {cs : List Char} (h : IsNumeral cs) {rest : List Char}
    (hrest : EndsNumber rest) : Leaves skip ('-' :: cs ++ rest) rest := by
  obtain ⟨n, hn⟩ := plain_numeral h
  obtain ⟨r, hr, hval⟩ := plain_eq_some.mp (hn rest hrest)
  refine leaves_skip_scalar (by decide) (by decide) (t := Rest.toTail r) ?_ hval
  rw [skipScalar, if_neg (by decide), if_neg (by decide), if_neg (by decide), if_pos (by decide),
    skipNumber, if_pos rfl, numeral_skipped hr]
  rfl

/-- Brackets with parts in them are skipped, if the first part begins with something else than the
closing bracket. -/
theorem leaves_skip_parts (b : Bracket) {u : List Char} {us : List (List Char)}
    (h : ∀ v ∈ u :: us, PassesPart b v)
    (hstart : ∃ sp c r, Spaces sp ∧ isSpace c = false ∧ c ≠ b.closing ∧ u = sp ++ c :: r)
    (rest : List Char) :
    Leaves skip (b.opening :: (u ++ (listed us ++ [b.closing])) ++ rest) rest := by
  obtain ⟨sp, c, r, hsp, hspace, hc, hu⟩ := hstart
  have hopened : Leaves (skipOpened b) (u ++ (listed us ++ b.closing :: rest)) rest := by
    have hfilled := leaves_skipFilled_of_parts h rest
    rw [hu, List.append_assoc, List.cons_append] at hfilled ⊢
    obtain ⟨q, hq, -⟩ := next_append hsp hspace (r ++ (listed us ++ b.closing :: rest))
    exact leaves_skipOpened hq hc hfilled
  rw [List.cons_append, List.append_assoc, List.append_assoc, List.singleton_append]
  cases b with
  | list => exact (leaves_skip_iff (next_cons (by decide) _)).mpr hopened
  | object => exact (leaves_skip_iff (next_cons (by decide) _)).mpr hopened

theorem leaves_skip_noParts (b : Bracket) {sp : List Char} (hsp : Spaces sp) (rest : List Char) :
    Leaves skip (b.opening :: (sp ++ [b.closing]) ++ rest) rest := by
  have hopened := leaves_skipOpened_spaces b hsp rest
  rw [List.cons_append, List.append_assoc, List.singleton_append]
  cases b with
  | list => exact (leaves_skip_iff (next_cons (by decide) _)).mpr hopened
  | object => exact (leaves_skip_iff (next_cons (by decide) _)).mpr hopened

/-- **A document is skipped up to its end**, or up to spaces at its end, whatever follows. -/
theorem leaves_skip {t : List Char} (h : IsDocument t) {rest : List Char} (hrest : EndsNumber rest) :
    ∃ sp, Spaces sp ∧ Leaves skip (t ++ rest) (sp ++ rest) := by
  induction h generalizing rest with
  | null => exact ⟨[], spaces_nil, leaves_skip_scalar (by decide) (by decide) rfl rfl⟩
  | true => exact ⟨[], spaces_nil, leaves_skip_scalar (by decide) (by decide) rfl rfl⟩
  | false => exact ⟨[], spaces_nil, leaves_skip_scalar (by decide) (by decide) rfl rfl⟩
  | positive h => exact ⟨[], spaces_nil, leaves_skip_positive h hrest⟩
  | negative h => exact ⟨[], spaces_nil, leaves_skip_negative h hrest⟩
  | @string body h =>
    refine ⟨[], spaces_nil, ?_⟩
    rw [List.cons_append, List.append_assoc]
    refine (leaves_skip_iff (next_cons (c := '"') (by decide) _)).mpr ?_
    exact leaves_skipString_of_isBody h rest
  | emptyArray hsp => exact ⟨[], spaces_nil, leaves_skip_noParts .list hsp rest⟩
  | @array t ts hts ih =>
    have hparts : ∀ v ∈ t :: ts, PassesPart .list v := fun v hv => passesPart_item fun _ => ih v hv
    refine ⟨[], spaces_nil, leaves_skip_parts .list hparts ?_ rest⟩
    obtain ⟨sp, c, r, hsp, hc, ht⟩ := (hts t List.mem_cons_self).exists_start
    exact ⟨sp, c, r, hsp, isSpace_of_startsDocument hc, startsDocument_ne hc (by decide), ht⟩
  | emptyObject hsp => exact ⟨[], spaces_nil, leaves_skip_noParts .object hsp rest⟩
  | @object m ms hkeys _ ih =>
    have hparts : ∀ v ∈ memberText m :: ms.map memberText, PassesPart .object v := by
      rw [← List.map_cons]
      intro v hv
      obtain ⟨n, hn, rfl⟩ := List.mem_map.mp hv
      exact passesPart_member (hkeys n hn) fun _ => ih n hn
    refine ⟨[], spaces_nil, leaves_skip_parts .object hparts ?_ rest⟩
    obtain ⟨sp, r, hsp, hkey⟩ := (hkeys m List.mem_cons_self).exists_start
    refine ⟨sp, '"', r ++ ':' :: m.2, hsp, by decide, by decide, ?_⟩
    rw [memberText, hkey, List.append_assoc, List.cons_append]
  | @spaced before t behind hbefore _ hbehind ih =>
    obtain ⟨sp, hsp, hskip⟩ := ih (Layout.endsNumber_append hbehind hrest)
    refine ⟨sp ++ behind, hsp.append hbehind, ?_⟩
    rw [List.append_assoc, List.append_assoc, List.append_assoc]
    exact leaves_skip_spaces hbefore hskip

end SuffixLint.Json
