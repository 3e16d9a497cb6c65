import SuffixLint.Json.Structure
import SuffixLint.Proofs.Except
import SuffixLint.Proofs.Json.Layout
/-!
# Documents read back

A document is read back from its text in any layout, with spaces in front of it and anything behind
it that does not go on with a number (`ReadsBack`). Items and members are taken first, for any
reader that reads back the values in them, so that the same lemmas serve readers of other types;
`readsBack_read` then follows a document inwards.
-/

namespace SuffixLint.Json

open Lexeme Text

/-- A reader gives a value back from every text of a document. -/
def ReadsBack {α : Type} (read : Read α) (x : α) (v : Json) : Prop :=
  ∀ (l : Layout) (level : Nat) (sp rest : List Char), Spaces sp → EndsNumber rest →
    Reads read (sp ++ (l.render level v ++ rest)) x rest

/-! ## Items -/

/-- The end of an array is met behind its last item, or at once. -/
theorem nextItem_close (l : Layout) (level : Nat) (first : Bool) (rest : List Char) :
    ∃ r : Rest (l.close level first ']' ++ rest),
      nextItem first (l.close level first ']' ++ rest) = .ok (.done r) ∧ r.val = rest := by
  obtain ⟨sp, hsp, hclose⟩ : ∃ sp, Spaces sp ∧ l.close level first ']' = sp ++ [']'] := by
    cases first with
    | true => exact ⟨[], spaces_nil, rfl⟩
    | false => exact ⟨l.gap level, l.spaces_gap level, rfl⟩
  rw [hclose, List.append_assoc, List.singleton_append]
  obtain ⟨r, hr, hval⟩ := next_append hsp (c := ']') (by decide) rest
  refine ⟨r, ?_, hval⟩
  rw [nextItem, hr]
  rfl

/-- The step to an item passes over the comma before it and over nothing else. -/
theorem nextItem_lead (l : Layout) (level : Nat) (first : Bool) (v : Json) (tail : List Char) :
    ∃ t : Tail (l.lead level first ++ (l.render (level + 1) v ++ tail)),
      nextItem first (l.lead level first ++ (l.render (level + 1) v ++ tail)) = .ok (.item t) ∧
        t.val = l.gap (level + 1) ++ (l.render (level + 1) v ++ tail) := by
  obtain ⟨c, r, hv, hspace, hbracket, -⟩ := l.exists_render_eq_cons (level + 1) v
  rw [hv, List.cons_append]
  obtain ⟨q, hq, -⟩ := next_append (l.spaces_gap (level + 1)) hspace (r ++ tail)
  -- what tells an item from the end is its first character, behind the comma if there is one
  cases first with
  | true =>
    refine ⟨unread _, ?_, rfl⟩
    change nextItem true (l.gap (level + 1) ++ c :: (r ++ tail)) = _
    rw [nextItem, hq]
    simp only [hbracket, if_false, if_true]
    rfl
  | false =>
    have hcomma : isSpace ',' = false := by decide
    refine ⟨(behind (l.gap (level + 1) ++ c :: (r ++ tail))).toTail, ?_, rfl⟩
    change nextItem false (',' :: (l.gap (level + 1) ++ c :: (r ++ tail))) = _
    rw [nextItem, next_cons hcomma]
    have hnext : next (behind (c := ',') (l.gap (level + 1) ++ c :: (r ++ tail))).val =
        some (c, q) := hq
    simp only [hnext, hbracket, if_false, if_true, Bool.false_eq_true,
      show ¬ (',' = ']') by decide]
    rfl

/-- The items of an array are read back by a reader that reads back each of them. -/
theorem reads_items {α : Type} {read : Read α} {encode : α → Json} {xs : List α}
    (h : ∀ x ∈ xs, ReadsBack read x (encode x)) (l : Layout) (level : Nat) (first : Bool)
    (rest : List Char) :
    Reads (items read first) (l.renderItems level first (xs.map encode) ++ rest) xs rest := by
  induction xs generalizing first with
  | nil =>
    rw [List.map_nil, Layout.renderItems]
    obtain ⟨r, hr, hval⟩ := nextItem_close l level first rest
    refine ⟨r, ?_, hval⟩
    rw [items, hr]
  | cons x xs ih =>
    rw [List.map_cons, Layout.renderItems, List.append_assoc, List.append_assoc]
    -- three steps, each on what the one before leaves: to the item, over it, over the others
    obtain ⟨t, ht, htval⟩ := nextItem_lead l level first (encode x)
      (l.renderItems level false (xs.map encode) ++ rest)
    have hx := h x List.mem_cons_self l (level + 1) (l.gap (level + 1)) _
      (l.spaces_gap (level + 1)) (l.endsNumber_renderItems level (xs.map encode) rest)
    rw [← htval] at hx
    obtain ⟨r, hr, hrval⟩ := hx
    have hxs := ih (fun y hy => h y (List.mem_cons_of_mem x hy)) false
    rw [← hrval] at hxs
    obtain ⟨r', hr', hval⟩ := hxs
    refine ⟨(t.rest r).rest r', ?_, hval⟩
    rw [items, ht]
    simp only [hr, hr']

/-! ## Members -/

/-- The end of an object is met behind its last member, or at once. -/
theorem nextMember_close (l : Layout) (level : Nat) (first : Bool) (rest : List Char) :
    ∃ r : Rest (l.close level first '\x7d' ++ rest),
      nextMember first (l.close level first '\x7d' ++ rest) = .ok (.done r) ∧ r.val = rest := by
  obtain ⟨sp, hsp, hclose⟩ : ∃ sp, Spaces sp ∧ l.close level first '\x7d' = sp ++ ['\x7d'] := by
    cases first with
    | true => exact ⟨[], spaces_nil, rfl⟩
    | false => exact ⟨l.gap level, l.spaces_gap level, rfl⟩
  rw [hclose, List.append_assoc, List.singleton_append]
  obtain ⟨r, hr, hval⟩ := next_append hsp (c := '\x7d') (by decide) rest
  refine ⟨r, ?_, hval⟩
  rw [nextMember, hr]
  rfl

/-- The key of a member is what stands in its string. -/
theorem memberKey_of_reads {cs : List Char} {r : Rest cs} {key : String} {tail : List Char}
    (h : Reads Lexeme.string r.val key tail) :
    ∃ r' : Rest cs, memberKey r = .ok (.member key r') ∧ r'.val = tail := by
  obtain ⟨q, hq, hval⟩ := h
  refine ⟨r.rest q, ?_, hval⟩
  rw [memberKey, hq]
  rfl

/-- The step to a member passes over the comma before it and over its key. -/
theorem nextMember_lead (l : Layout) (level : Nat) (first : Bool) (key : String)
    (tail : List Char) :
    ∃ r : Rest (l.lead level first ++ (writeString key ++ tail)),
      nextMember first (l.lead level first ++ (writeString key ++ tail)) =
        .ok (.member key r) ∧ r.val = tail := by
  obtain ⟨q, hq, hkey⟩ := next_writeString (l.spaces_gap (level + 1)) key tail
  cases first with
  | true =>
    obtain ⟨r, hr, hval⟩ := memberKey_of_reads hkey
    refine ⟨r, ?_, hval⟩
    change nextMember true (l.gap (level + 1) ++ (writeString key ++ tail)) = _
    rw [nextMember, hq]
    simp only [hr, if_true, show ¬ ('"' = '\x7d') by decide, if_false]
    rfl
  | false =>
    have hcomma : isSpace ',' = false := by decide
    let b := behind (c := ',') (l.gap (level + 1) ++ (writeString key ++ tail))
    have hnext : next b.val = some ('"', q) := hq
    obtain ⟨r, hr, hval⟩ := memberKey_of_reads (r := b.rest q) hkey
    refine ⟨r, ?_, hval⟩
    change nextMember false (',' :: (l.gap (level + 1) ++ (writeString key ++ tail))) = _
    rw [nextMember, next_cons hcomma]
    simp only [hnext, hr, if_true, show ¬ (',' = '\x7d') by decide, Bool.false_eq_true, if_false,
      b]
    rfl

/-- The colon behind a key. -/
theorem colon_cons (tail : List Char) :
    ∃ r : Rest (':' :: tail), colon (':' :: tail) = .ok r ∧ r.val = tail := by
  have hcolon : isSpace ':' = false := by decide
  refine ⟨behind tail, ?_, rfl⟩
  rw [colon, next_cons hcolon]
  rfl

/-- The members of an object are read back by a reader that reads back the value of each. -/
theorem reads_members {read : Read Json} {ms : List (String × Json)}
    (h : ∀ m ∈ ms, ReadsBack read m.2 m.2) (l : Layout) (level : Nat) (first : Bool)
    (rest : List Char) :
    Reads (members read first) (l.renderMembers level first ms ++ rest) ms rest := by
  induction ms generalizing first with
  | nil =>
    rw [Layout.renderMembers]
    obtain ⟨r, hr, hval⟩ := nextMember_close l level first rest
    refine ⟨r, ?_, hval⟩
    rw [members, hr]
  | cons m ms ih =>
    obtain ⟨key, v⟩ := m
    simp only [Layout.renderMembers, List.append_assoc, List.cons_append]
    -- four steps: over the key, over the colon, over the value, over the other members
    obtain ⟨r₁, hr₁, hval₁⟩ := nextMember_lead l level first key
      (':' :: (l.behindColon ++ (l.render (level + 1) v ++
        (l.renderMembers level false ms ++ rest))))
    have hcolon := colon_cons (l.behindColon ++ (l.render (level + 1) v ++
      (l.renderMembers level false ms ++ rest)))
    rw [← hval₁] at hcolon
    obtain ⟨r₂, hr₂, hval₂⟩ := hcolon
    have hv := h (key, v) List.mem_cons_self l (level + 1) l.behindColon _
      l.spaces_behindColon (l.endsNumber_renderMembers level ms rest)
    rw [← hval₂] at hv
    obtain ⟨r₃, hr₃, hval₃⟩ := hv
    have hms := ih (fun m hm => h m (List.mem_cons_of_mem _ hm)) false
    rw [← hval₃] at hms
    obtain ⟨r₄, hr₄, hval₄⟩ := hms
    refine ⟨((r₁.rest r₂).rest r₃).rest r₄, ?_, hval₄⟩
    rw [members, hr₁]
    simp only [hr₂, hr₃, hr₄]

/-! ## Whole documents -/

/-- Documents that a reader takes back that has room for so many brackets at one place: their
numbers are natural and fit 64 bits, and they are not nested any deeper. -/
inductive Readable : Nat → Json → Prop
  | null {depth : Nat} : Readable depth .null
  | bool {depth : Nat} (b : Bool) : Readable depth (.bool b)
  | nat {depth n : Nat} (h : n < UInt64.size) : Readable depth (.nat n)
  | string {depth : Nat} (s : String) : Readable depth (.string s)
  | array {depth : Nat} {vs : List Json} (h : ∀ v ∈ vs, Readable depth v) :
    Readable (depth + 1) (.array vs)
  | object {depth : Nat} {ms : List (String × Json)} (h : ∀ m ∈ ms, Readable depth m.2) :
    Readable (depth + 1) (.object ms)

/-- The words that are documents. -/
theorem read_word {c : Char} {w : List Char} {v : Json} (depth : Nat)
    (hc : c ≠ '"' ∧ c ≠ '[' ∧ c ≠ '\x7b')
    (h : ∀ cs, scalar c cs = (word w cs).map fun t => (v, t)) (cs : List Char) (r : Rest cs)
    (hr : next cs = some (c, r)) :
    read depth cs = (word w r.val).map fun t => (v, r.tail t) := by
  rw [read, hr]
  simp only [hc, if_false, h]
  cases word w r.val <;> rfl

/-- **A document is read back from its text, in any layout.** -/
theorem readsBack_read {depth : Nat} {v : Json} (h : Readable depth v) :
    ReadsBack (read depth) v v := by
  induction h with
  | @null depth =>
    intro l level sp rest hsp _
    have hread := read_word depth (c := 'n') (v := .null) (by decide) fun _ => rfl
    exact reads_of_word (by decide) hread hsp rest
  | @bool depth b =>
    intro l level sp rest hsp _
    cases b with
    | true =>
      have hread := read_word depth (c := 't') (v := .bool true) (by decide) fun _ => rfl
      exact reads_of_word (by decide) hread hsp rest
    | false =>
      have hread := read_word depth (c := 'f') (v := .bool false) (by decide) fun _ => rfl
      exact reads_of_word (by decide) hread hsp rest
  | @nat depth n hn =>
    -- the only document whose end is not seen in itself
    intro l level sp rest hsp hrest
    change Reads (read depth) (sp ++ (Decimal.digits n ++ rest)) (.nat n) rest
    obtain ⟨c, r, hdigit, hr, t, ht, hval⟩ := next_digits hsp hn hrest
    obtain ⟨-, hopens, hword⟩ := of_isDigit hdigit
    refine ⟨r.tail t, ?_, hval⟩
    rw [read, hr]
    simp only [hopens, if_false, scalar, hword, startsNumber, hdigit, Bool.or_true, if_true, ht]
    rfl
  | string s =>
    intro l level sp rest hsp _
    rw [Layout.render, writeString_append]
    refine reads_behind (by decide) (reads_string s rest) (fun text r r' hr hr' => ?_) hsp
    rw [read, hr]
    simp only [if_true, hr']
    rfl
  | @array depth vs _ ih =>
    intro l level sp rest hsp _
    have hvs : Reads (items (read depth) true) (l.renderItems level true (vs.map id) ++ rest) vs
        rest := reads_items ih l level true rest
    rw [List.map_id] at hvs
    rw [Layout.render, List.cons_append]
    refine reads_behind (by decide) hvs (fun text r r' hr hr' => ?_) hsp
    rw [read, hr]
    simp only [show ¬ ('[' = '"') by decide, if_false, if_true, hr']
    rfl
  | @object depth ms _ ih =>
    intro l level sp rest hsp _
    rw [Layout.render, List.cons_append]
    refine reads_behind (by decide) (reads_members ih l level true rest)
      (fun text r r' hr hr' => ?_) hsp
    rw [read, hr]
    simp only [show ¬ ('\x7b' = '"') by decide, show ¬ ('\x7b' = '[') by decide, if_false, if_true,
      hr']
    rfl

/-- The text of a document, in any layout, stands for that document. -/
theorem ofText_render {v : Json} (h : Readable depthLimit v) (l : Layout) (level : Nat) :
    ofText (l.render level v) = .ok v := by
  have hread := readsBack_read h l level [] [] spaces_nil endsNumber_nil
  rw [List.nil_append, List.append_nil] at hread
  obtain ⟨r, hr, hval⟩ := hread
  rw [ofText, hr]
  simp only [hval]
  rfl

/-! ## What has been read -/

/-- How a value has been read whose first character is known, and what is left behind it. -/
inductive Reading : Nat → Char → (cs : List Char) → Json → Tail cs → Prop
  | string {depth : Nat} {cs : List Char} {s : String} {r : Rest cs}
    (h : Lexeme.string cs = .ok (s, r)) : Reading depth '"' cs (.string s) r.toTail
  | array {depth : Nat} {cs : List Char} {vs : List Json} {r : Rest cs}
    (h : items (read depth) true cs = .ok (vs, r)) : Reading (depth + 1) '[' cs (.array vs) r.toTail
  | object {depth : Nat} {cs : List Char} {ms : List (String × Json)} {r : Rest cs}
    (h : members (read depth) true cs = .ok (ms, r)) :
    Reading (depth + 1) '\x7b' cs (.object ms) r.toTail
  | null {depth : Nat} {cs : List Char} {t : Tail cs} (h : word "ull".toList cs = .ok t) :
    Reading depth 'n' cs .null t
  | true {depth : Nat} {cs : List Char} {t : Tail cs} (h : word "rue".toList cs = .ok t) :
    Reading depth 't' cs (.bool true) t
  | false {depth : Nat} {cs : List Char} {t : Tail cs} (h : word "alse".toList cs = .ok t) :
    Reading depth 'f' cs (.bool false) t
  | number {depth : Nat} {c : Char} {cs : List Char} {n : Number} {t : Tail cs}
    (hc : startsNumber c = true) (h : Lexeme.number c cs = .ok (n, t)) :
    Reading depth c cs (.number n) t

/-- What has been read has been met at its first character and read from there. -/
theorem reading_of_read {depth : Nat} {cs : List Char} {v : Json} {r : Rest cs}
    (h : read depth cs = .ok (v, r)) :
    ∃ c, ∃ q : Rest cs, ∃ t : Tail q.val,
      next cs = some (c, q) ∧ Reading depth c q.val v t ∧ r = q.tail t := by
  unfold read at h
  split at h
  · cases h
  rename_i c q hq
  split at h
  · rename_i hc
    obtain ⟨⟨s, r'⟩, hs, heq⟩ := map_eq_ok.mp h
    obtain ⟨rfl, rfl⟩ := Prod.mk.inj heq
    subst hc
    exact ⟨_, q, r'.toTail, hq, .string hs, rfl⟩
  split at h
  · rename_i hc
    split at h
    · cases h
    obtain ⟨⟨vs, r'⟩, hvs, heq⟩ := map_eq_ok.mp h
    obtain ⟨rfl, rfl⟩ := Prod.mk.inj heq
    subst hc
    exact ⟨_, q, r'.toTail, hq, .array hvs, rfl⟩
  split at h
  · rename_i hc
    split at h
    · cases h
    obtain ⟨⟨ms, r'⟩, hms, heq⟩ := map_eq_ok.mp h
    obtain ⟨rfl, rfl⟩ := Prod.mk.inj heq
    subst hc
    exact ⟨_, q, r'.toTail, hq, .object hms, rfl⟩
  obtain ⟨⟨v', t⟩, hscalar, heq⟩ := map_eq_ok.mp h
  obtain ⟨rfl, rfl⟩ := Prod.mk.inj heq
  refine ⟨c, q, t, hq, ?_, rfl⟩
  unfold scalar at hscalar
  split at hscalar
  · rename_i hc
    obtain ⟨t', ht, heq⟩ := map_eq_ok.mp hscalar
    obtain ⟨rfl, rfl⟩ := Prod.mk.inj heq
    subst hc
    exact .null ht
  split at hscalar
  · rename_i hc
    obtain ⟨t', ht, heq⟩ := map_eq_ok.mp hscalar
    obtain ⟨rfl, rfl⟩ := Prod.mk.inj heq
    subst hc
    exact .true ht
  split at hscalar
  · rename_i hc
    obtain ⟨t', ht, heq⟩ := map_eq_ok.mp hscalar
    obtain ⟨rfl, rfl⟩ := Prod.mk.inj heq
    subst hc
    exact .false ht
  split at hscalar
  · rename_i hc
    obtain ⟨⟨n, t'⟩, hn, heq⟩ := map_eq_ok.mp hscalar
    obtain ⟨rfl, rfl⟩ := Prod.mk.inj heq
    exact .number hc hn
  · cases hscalar

/-- A step to an item has met the end, an item in the first place, or a comma. -/
theorem nextItem_eq_ok {first : Bool} {cs : List Char} {step : ItemStep cs}
    (h : nextItem first cs = .ok step) : ∃ c, ∃ q : Rest cs, next cs = some (c, q) ∧
      (c = ']' ∧ step = .done q ∨ c ≠ ']' ∧ first = true ∧ step = .item (unread cs) ∨
        c = ',' ∧ first = false ∧ step = .item q.toTail) := by
  unfold nextItem at h
  split at h
  · cases h
  rename_i c q hq
  refine ⟨c, q, hq, ?_⟩
  by_cases hend : c = ']'
  · rw [if_pos hend] at h
    exact Or.inl ⟨hend, (Except.ok.inj h).symm⟩
  rw [if_neg hend] at h
  cases first with
  | true => exact Or.inr (Or.inl ⟨hend, rfl, (Except.ok.inj h).symm⟩)
  | false =>
    rw [if_neg Bool.false_ne_true] at h
    split at h
    · rename_i hcomma
      split at h
      · cases h
      split at h
      · cases h
      · exact Or.inr (Or.inr ⟨hcomma, rfl, (Except.ok.inj h).symm⟩)
    · cases h

/-- The key of a member has been read as a string. -/
theorem memberKey_eq_ok {cs : List Char} {q : Rest cs} {step : MemberStep cs}
    (h : memberKey q = .ok step) : ∃ key, ∃ r : Rest q.val,
      Lexeme.string q.val = .ok (key, r) ∧ step = .member key (q.rest r) := by
  obtain ⟨⟨key, r⟩, hkey, heq⟩ := map_eq_ok.mp h
  exact ⟨key, r, hkey, heq.symm⟩

/-- A step to a member has met the end, or a key in the first place or behind a comma. -/
theorem nextMember_eq_ok {first : Bool} {cs : List Char} {step : MemberStep cs}
    (h : nextMember first cs = .ok step) : ∃ c, ∃ q : Rest cs, next cs = some (c, q) ∧
      (c = '\x7d' ∧ step = .done q ∨
        c = '"' ∧ first = true ∧ memberKey q = .ok step ∨
        c = ',' ∧ first = false ∧ ∃ q' : Rest q.val, next q.val = some ('"', q') ∧
          memberKey (q.rest q') = .ok step) := by
  unfold nextMember at h
  split at h
  · cases h
  rename_i c q hq
  refine ⟨c, q, hq, ?_⟩
  by_cases hend : c = '\x7d'
  · rw [if_pos hend] at h
    exact Or.inl ⟨hend, (Except.ok.inj h).symm⟩
  rw [if_neg hend] at h
  cases first with
  | true =>
    rw [if_pos rfl] at h
    split at h
    · rename_i hquote
      exact Or.inr (Or.inl ⟨hquote, rfl, h⟩)
    · cases h
  | false =>
    rw [if_neg Bool.false_ne_true] at h
    split at h
    · rename_i hcomma
      split at h
      · cases h
      rename_i d q' hq'
      split at h
      · rename_i hquote
        subst hquote
        exact Or.inr (Or.inr ⟨hcomma, rfl, q', hq', h⟩)
      split at h
      · cases h
      · cases h
    · cases h

/-- A number begins with no quote and no bracket, and with no letter that a word begins with. -/
theorem of_startsNumber {c : Char} (h : startsNumber c = true) :
    (c ≠ '"' ∧ c ≠ '[' ∧ c ≠ '\x7b') ∧ c ≠ 'n' ∧ c ≠ 't' ∧ c ≠ 'f' := by
  rw [startsNumber, Bool.or_eq_true, decide_eq_true_eq] at h
  rcases h with rfl | hdigit
  · decide
  · exact (of_isDigit hdigit).2

end SuffixLint.Json
