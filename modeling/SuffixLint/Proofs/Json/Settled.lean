import SuffixLint.Proofs.Json.Structure
import SuffixLint.Proofs.Json.Token
/-!
# Documents are read up to their end

A reader that comes to a text of the grammar takes the whole of it and nothing more, or refuses it,
and which of the two it does, and with which value, does not depend on what stands behind
(`settles_read`). So a document may be cut out of a larger one, or put into one, and reads the same.
The one condition is again on numbers, which what follows must not go on.

All readers pass over spaces and go on by the character behind them (`GoesBy`). That is all that is
needed to put spaces around a text, and what stands in brackets is said for any reader of items.
-/

namespace SuffixLint.Json

open Lexeme Text

/-- A reader takes a text as a whole, spaces at its end apart, or refuses it, whatever follows. -/
def Settles {α : Type} (read : Read α) (t : List Char) (o : Option α) : Prop :=
  ∀ rest, EndsNumber rest → ∃ sp, Spaces sp ∧
    plain (read (t ++ rest)) = o.map fun x => (x, sp ++ rest)

/-- What a reader makes of a text, if it takes it. -/
def valueOf {α : Type} (read : Read α) (t : List Char) : Option α :=
  (plain (read t)).map Prod.fst

section Settles

variable {α : Type} {read : Read α} {t : List Char} {o : Option α}

theorem Settles.valueOf_eq (h : Settles read t o) : valueOf read t = o := by
  obtain ⟨sp, -, hread⟩ := h [] endsNumber_nil
  rw [List.append_nil] at hread
  rw [Json.valueOf, hread, Option.map_map]
  exact Option.map_id'

theorem Settles.valueOf (h : Settles read t o) : Settles read t (valueOf read t) := by
  rwa [h.valueOf_eq]

/-- A space at the end of a text that a reader takes as a whole changes nothing. -/
theorem Settles.valueOf_append_space (h : Settles read t o) {c : Char} (hc : isSpace c = true) :
    Json.valueOf read (t ++ [c]) = Json.valueOf read t := by
  obtain ⟨sp, -, hread⟩ := h.valueOf [c] (endsNumber_space hc [])
  rw [Json.valueOf, hread, Option.map_map]
  exact Option.map_id'

end Settles

/-! ## The first character -/

/-- A reader passes over spaces and goes on by the first character that is none, as `behind` says;
without one it reads nothing. -/
structure GoesBy {α : Type} (read : Read α)
    (behind : Char → List Char → Option (α × List Char)) : Prop where
  nothing : ∀ cs, next cs = none → plain (read cs) = none
  first : ∀ cs c q, next cs = some (c, q) → plain (read cs) = behind c q.val

namespace GoesBy

variable {α : Type} {read : Read α} {behind : Char → List Char → Option (α × List Char)}

theorem plain_cons (h : GoesBy read behind) {c : Char} (hc : isSpace c = false) (cs : List Char) :
    plain (read (c :: cs)) = behind c cs :=
  h.first _ _ _ (next_cons hc cs)

/-- Spaces before a text change nothing. -/
theorem plain_spaces (h : GoesBy read behind) {sp : List Char} (hsp : Spaces sp) (cs : List Char) :
    plain (read (sp ++ cs)) = plain (read cs) := by
  induction sp with
  | nil => rfl
  | cons s sp ih =>
    have hs : isSpace s = true := hsp s List.mem_cons_self
    rw [← ih fun c hc => hsp c (List.mem_cons_of_mem s hc), List.cons_append]
    cases hq : next (sp ++ cs) with
    | none =>
      have hnext : next (s :: (sp ++ cs)) = none := by
        rw [next, if_pos hs, hq]
        rfl
      rw [h.nothing _ hq, h.nothing _ hnext]
    | some found =>
      have hnext : next (s :: (sp ++ cs)) = some (found.1, found.2.past) := by
        rw [next, if_pos hs, hq]
        rfl
      rw [h.first _ _ _ hq, h.first _ _ _ hnext]
      rfl

/-- A text is taken as a whole or refused when it is so behind its first character. -/
theorem settles (h : GoesBy read behind) {c : Char} (hc : isSpace c = false) {cs : List Char}
    {o : Option α} (hbehind : ∀ rest, EndsNumber rest →
      behind c (cs ++ rest) = o.map fun x => (x, rest)) : Settles read (c :: cs) o := by
  intro rest hrest
  refine ⟨[], spaces_nil, ?_⟩
  rw [List.cons_append, h.plain_cons hc]
  exact hbehind rest hrest

/-- Spaces before a text are passed over, and those behind it are left. -/
theorem settles_spaced (h : GoesBy read behind) {t : List Char} {o : Option α}
    (ht : Settles read t o) {before behind' : List Char} (hbefore : Spaces before)
    (hbehind : Spaces behind') : Settles read (before ++ (t ++ behind')) o := by
  intro rest hrest
  obtain ⟨sp, hsp, hread⟩ := ht (behind' ++ rest) (Layout.endsNumber_append hbehind hrest)
  refine ⟨sp ++ behind', hsp.append hbehind, ?_⟩
  rw [List.append_assoc, List.append_assoc, h.plain_spaces hbefore, hread, List.append_assoc]

end GoesBy

/-- What is read and left behind the first character of a document. -/
def readBehind (depth : Nat) (c : Char) (cs : List Char) : Option (Json × List Char) :=
  if c = '"' then (plain (Lexeme.string cs)).map fun x => (.string x.1, x.2)
  else if c = '[' then
    match depth with
    | 0 => none
    | d + 1 => (plain (items (read d) true cs)).map fun x => (.array x.1, x.2)
  else if c = '\x7b' then
    match depth with
    | 0 => none
    | d + 1 => (plain (members (read d) true cs)).map fun x => (.object x.1, x.2)
  else plain (scalar c cs)

theorem goesBy_read (depth : Nat) : GoesBy (read depth) (readBehind depth) where
  nothing cs hq := by
    rw [read, hq]
    rfl
  first cs c q hq := by
    unfold readBehind
    rw [read, hq]
    simp only
    split
    · exact plain_map _ _ _ fun _ => rfl
    split
    · cases depth with
      | zero => rfl
      | succ depth => exact plain_map _ _ _ fun _ => rfl
    split
    · cases depth with
      | zero => rfl
      | succ depth => exact plain_map _ _ _ fun _ => rfl
    · exact (plain_map (scalar c q.val) id q.tail fun _ => rfl).trans Option.map_id'

theorem plain_read_cons {c : Char} (hc : isSpace c = false) (depth : Nat) (cs : List Char) :
    plain (read depth (c :: cs)) = readBehind depth c cs :=
  (goesBy_read depth).plain_cons hc cs

/-! ## Items and members -/

/-- What follows a value inside brackets does not go on with a number. -/
theorem endsNumber_listed (parts : List (List Char)) {close : Char}
    (hclose : close = ']' ∨ close = '\x7d') (rest : List Char) :
    EndsNumber (listed parts ++ close :: rest) := by
  cases parts with
  | nil =>
    rcases hclose with rfl | rfl
    · exact endsNumber_cons (by decide) rest
    · exact endsNumber_cons (by decide) rest
  | cons part parts => exact endsNumber_cons (by decide) _

section Listed

variable {α : Type} {read : Read α}

/-- An item is read, and then the others. -/
theorem plain_items {first : Bool} {cs : List Char} {t : Tail cs}
    (h : nextItem first cs = .ok (.item t)) : plain (items read first cs) =
      (plain (read t.val)).bind fun x =>
        (plain (items read false x.2)).map fun xs => (x.1 :: xs.1, xs.2) := by
  rw [items, h]
  simp only
  cases read t.val with
  | error e => rfl
  | ok found =>
    obtain ⟨x, r⟩ := found
    change _ = (plain (items read false r.val)).map _
    cases hothers : items read false r.val with
    | error e => simp only [hothers]; rfl
    | ok found => simp only [hothers]; rfl

/-- A document is met where an item is due. -/
theorem nextItem_document {t : List Char} (ht : IsDocument t) (rest : List Char) :
    nextItem true (t ++ rest) = .ok (.item (unread (t ++ rest))) ∧
      ∀ sp, Spaces sp → ∃ u : Tail (sp ++ ',' :: (t ++ rest)),
        nextItem false (sp ++ ',' :: (t ++ rest)) = .ok (.item u) ∧ u.val = t ++ rest := by
  obtain ⟨before, c, r, hbefore, hc, rfl⟩ := ht.exists_start
  have hend : c ≠ ']' := startsDocument_ne hc (by decide)
  have hspace := isSpace_of_startsDocument hc
  rw [List.append_assoc, List.cons_append]
  obtain ⟨q, hq, -⟩ := next_append hbefore hspace (r ++ rest)
  constructor
  · rw [nextItem, hq]
    simp only [hend, if_false, if_true]
  · intro sp hsp
    obtain ⟨q', hq', hval⟩ := next_append hsp (c := ',') (by decide) (before ++ c :: (r ++ rest))
    refine ⟨q'.toTail, ?_, hval⟩
    rw [nextItem, hq']
    have hnext : ∃ q'' : Rest q'.val, next q'.val = some (c, q'') := by
      rw [hval]
      exact ⟨q, hq⟩
    obtain ⟨q'', hq''⟩ := hnext
    simp only [hq'', hend, if_false, if_true, Bool.false_eq_true, show ¬(',' = ']') by decide]

theorem plain_items_end (first : Bool) {sp : List Char} (hsp : Spaces sp) (rest : List Char) :
    plain (items read first (sp ++ ']' :: rest)) = some ([], rest) := by
  obtain ⟨q, hq, hval⟩ := next_append hsp (c := ']') (by decide) rest
  rw [plain_eq_some]
  refine ⟨q, ?_, hval⟩
  rw [items, nextItem, hq]
  rfl

/-- An item and those behind it are read up to the bracket that closes the array, in the first place
as behind others. -/
theorem plain_items_cons {t : List Char} {ts : List (List Char)} (ht : IsDocument t)
    (hread : Settles read t (valueOf read t))
    (hothers : ∀ sp, Spaces sp → ∀ rest, plain (items read false (sp ++ (listed ts ++ ']' :: rest))) =
      (ts.mapM (valueOf read)).map fun xs => (xs, rest)) (rest : List Char) :
    plain (items read true (t ++ (listed ts ++ ']' :: rest))) =
        ((t :: ts).mapM (valueOf read)).map (fun xs => (xs, rest)) ∧
      ∀ sp, Spaces sp → plain (items read false (sp ++ ',' :: (t ++ (listed ts ++ ']' :: rest)))) =
        ((t :: ts).mapM (valueOf read)).map fun xs => (xs, rest) := by
  obtain ⟨hfirst, hbehind⟩ := nextItem_document ht (listed ts ++ ']' :: rest)
  obtain ⟨sp', hsp', hvalue⟩ := hread _ (endsNumber_listed ts (Or.inl rfl) rest)
  have hvalues : ((plain (read (t ++ (listed ts ++ ']' :: rest)))).bind fun x =>
      (plain (items read false x.2)).map fun xs => (x.1 :: xs.1, xs.2)) =
        ((t :: ts).mapM (valueOf read)).map fun xs => (xs, rest) := by
    rw [hvalue, List.mapM_cons]
    cases valueOf read t with
    | none => rfl
    | some x =>
      simp only [Option.map_some, Option.bind_some, hothers sp' hsp']
      cases ts.mapM (valueOf read) <;> rfl
  constructor
  · rw [plain_items hfirst]
    exact hvalues
  · intro sp hsp
    obtain ⟨u, hu, hval⟩ := hbehind sp hsp
    rw [plain_items hu, hval, hvalues]

/-- Behind an item the others are read up to the bracket that closes the array. -/
theorem plain_items_listed {ts : List (List Char)} (hts : ∀ t ∈ ts, IsDocument t)
    (hread : ∀ t ∈ ts, Settles read t (valueOf read t)) {sp : List Char} (hsp : Spaces sp)
    (rest : List Char) : plain (items read false (sp ++ (listed ts ++ ']' :: rest))) =
      (ts.mapM (valueOf read)).map fun xs => (xs, rest) := by
  induction ts generalizing sp rest with
  | nil => exact plain_items_end false hsp rest
  | cons t ts ih =>
    have hothers : ∀ sp, Spaces sp → ∀ rest, _ := fun _ hsp rest =>
      ih (fun v hv => hts v (List.mem_cons_of_mem t hv))
        (fun v hv => hread v (List.mem_cons_of_mem t hv)) hsp rest
    rw [listed_cons_append]
    exact (plain_items_cons (hts t List.mem_cons_self) (hread t List.mem_cons_self) hothers rest).2
      sp hsp

/-- Behind a key and its colon a value is read, and then the other members. -/
theorem plain_members {first : Bool} {cs : List Char} {q : Rest cs}
    (h : nextMember first cs = memberKey q) {o : Option String} {behind tail : List Char}
    (hbehind : Spaces behind)
    (hkey : plain (Lexeme.string q.val) = o.map fun key => (key, behind ++ ':' :: tail)) :
    plain (members read first cs) = o.bind fun key => (plain (read tail)).bind fun x =>
      (plain (members read false x.2)).map fun xs => ((key, x.1) :: xs.1, xs.2) := by
  cases o with
  | none =>
    obtain ⟨e, he⟩ := plain_eq_none.mp hkey
    have herror : nextMember first cs = .error e := by
      rw [h, memberKey, he]
      rfl
    rw [members, herror]
    rfl
  | some key =>
    obtain ⟨r, hr, hval⟩ := plain_eq_some.mp hkey
    have hmember : nextMember first cs = .ok (.member key (q.rest r)) := by
      rw [h, memberKey, hr]
      rfl
    obtain ⟨r', hr', hval'⟩ := next_append hbehind (c := ':') (by decide) tail
    have hcolon : ∃ r' : Rest (q.rest r).val, colon (q.rest r).val = .ok r' ∧ r'.val = tail := by
      change ∃ r' : Rest r.val, colon r.val = .ok r' ∧ r'.val = tail
      rw [hval]
      refine ⟨r', ?_, hval'⟩
      rw [colon, hr']
      rfl
    obtain ⟨r₂, hr₂, rfl⟩ := hcolon
    rw [members, hmember]
    simp only [hr₂, Option.bind_some]
    cases read r₂.val with
    | error e => rfl
    | ok found =>
      obtain ⟨x, r₃⟩ := found
      change _ = (plain (members read false r₃.val)).map _
      cases hothers : members read false r₃.val with
      | error e => simp only [hothers]; rfl
      | ok found => simp only [hothers]; rfl

/-- What a key is read as: the string behind its opening quote, if it is one. -/
def keyOf (k : List Char) : Option String :=
  match next k with
  | none => none
  | some (_, q) => (plain (Lexeme.string q.val)).map Prod.fst

theorem keyOf_eq {before body behind : List Char} (hbefore : Spaces before) {o : Option String}
    (ho : ∀ rest, plain (Lexeme.string (body ++ '"' :: rest)) = o.map fun s => (s, rest)) :
    keyOf (before ++ '"' :: (body ++ '"' :: behind)) = o := by
  obtain ⟨q, hq, hval⟩ := next_append hbefore (c := '"') (by decide) (body ++ '"' :: behind)
  rw [keyOf, hq]
  change (plain (Lexeme.string q.val)).map Prod.fst = o
  rw [hval, ho, Option.map_map]
  exact Option.map_id'

/-- A key is met where a member is due, in the first place or behind a comma. -/
theorem plain_members_key {k : List Char} (hk : IsKey k) (tail : List Char) :
    (plain (members read true (k ++ ':' :: tail)) = (keyOf k).bind fun key =>
      (plain (read tail)).bind fun x =>
        (plain (members read false x.2)).map fun xs => ((key, x.1) :: xs.1, xs.2)) ∧
    ∀ sp, Spaces sp → plain (members read false (sp ++ ',' :: (k ++ ':' :: tail))) =
      (keyOf k).bind fun key => (plain (read tail)).bind fun x =>
        (plain (members read false x.2)).map fun xs => ((key, x.1) :: xs.1, xs.2) := by
  obtain ⟨hbefore, hbody, hbehind⟩ := hk
  rename_i before body behind
  obtain ⟨o, ho⟩ := plain_string hbody
  rw [keyOf_eq hbefore ho]
  have htext : before ++ '"' :: (body ++ '"' :: behind) ++ ':' :: tail =
      before ++ '"' :: (body ++ '"' :: (behind ++ ':' :: tail)) := by
    simp only [List.append_assoc, List.cons_append]
  rw [htext]
  have hkey := ho (behind ++ ':' :: tail)
  obtain ⟨q, hq, hval⟩ :=
    next_append hbefore (c := '"') (by decide) (body ++ '"' :: (behind ++ ':' :: tail))
  constructor
  · rw [← hval] at hkey
    apply plain_members (q := q) _ hbehind hkey
    rw [nextMember, hq]
    rfl
  · intro sp hsp
    obtain ⟨q₁, hq₁, hval₁⟩ := next_append hsp (c := ',') (by decide)
      (before ++ '"' :: (body ++ '"' :: (behind ++ ':' :: tail)))
    have hnext : ∃ q₂ : Rest q₁.val, next q₁.val = some ('"', q₂) ∧
        q₂.val = body ++ '"' :: (behind ++ ':' :: tail) := by
      rw [hval₁]
      exact ⟨q, hq, hval⟩
    obtain ⟨q₂, hq₂, hval₂⟩ := hnext
    rw [← hval₂] at hkey
    apply plain_members (q := q₁.rest q₂) _ hbehind hkey
    rw [nextMember, hq₁]
    simp only [hq₂, if_false, if_true, Bool.false_eq_true, show ¬(',' = '\x7d') by decide]

theorem plain_members_end (first : Bool) {sp : List Char} (hsp : Spaces sp) (rest : List Char) :
    plain (members read first (sp ++ '\x7d' :: rest)) = some ([], rest) := by
  obtain ⟨q, hq, hval⟩ := next_append hsp (c := '\x7d') (by decide) rest
  rw [plain_eq_some]
  refine ⟨q, ?_, hval⟩
  rw [members, nextMember, hq]
  rfl

/-- What a reader makes of a member, if it takes its key and its value. -/
def memberOf {α : Type} (read : Read α) (m : List Char × List Char) : Option (String × α) := do
  let key ← keyOf m.1
  let x ← valueOf read m.2
  return (key, x)

/-- A member and those behind it are read up to the bracket that closes the object, in the first
place as behind others. -/
theorem plain_members_cons {m : List Char × List Char} {ms : List (List Char × List Char)}
    (hkey : IsKey m.1) (hread : Settles read m.2 (valueOf read m.2))
    (hothers : ∀ sp, Spaces sp → ∀ rest,
      plain (members read false (sp ++ (listed (ms.map memberText) ++ '\x7d' :: rest))) =
        (ms.mapM (memberOf read)).map fun xs => (xs, rest)) (rest : List Char) :
    plain (members read true (memberText m ++ (listed (ms.map memberText) ++ '\x7d' :: rest))) =
        ((m :: ms).mapM (memberOf read)).map (fun xs => (xs, rest)) ∧
      ∀ sp, Spaces sp → plain (members read false
        (sp ++ ',' :: (memberText m ++ (listed (ms.map memberText) ++ '\x7d' :: rest)))) =
          ((m :: ms).mapM (memberOf read)).map fun xs => (xs, rest) := by
  have hends := endsNumber_listed (ms.map memberText) (Or.inr rfl) rest
  obtain ⟨sp', hsp', hvalue⟩ := hread _ hends
  obtain ⟨hfirst, hbehind⟩ := @plain_members_key _ read _ hkey
    (m.2 ++ (listed (ms.map memberText) ++ '\x7d' :: rest))
  have hvalues : ((keyOf m.1).bind fun key =>
      (plain (read (m.2 ++ (listed (ms.map memberText) ++ '\x7d' :: rest)))).bind fun x =>
        (plain (members read false x.2)).map fun xs => ((key, x.1) :: xs.1, xs.2)) =
      ((m :: ms).mapM (memberOf read)).map fun xs => (xs, rest) := by
    rw [hvalue, List.mapM_cons, memberOf]
    cases keyOf m.1 with
    | none => rfl
    | some key =>
      cases valueOf read m.2 with
      | none => rfl
      | some x =>
        simp only [Option.map_some, Option.bind_some, hothers sp' hsp']
        cases ms.mapM (memberOf read) <;> rfl
  rw [memberText, List.append_assoc, List.cons_append]
  constructor
  · rw [hfirst, hvalues]
  · intro sp hsp
    rw [hbehind sp hsp, hvalues]

/-- Behind a member the others are read up to the bracket that closes the object. -/
theorem plain_members_listed {ms : List (List Char × List Char)} (hkeys : ∀ m ∈ ms, IsKey m.1)
    (hread : ∀ m ∈ ms, Settles read m.2 (valueOf read m.2)) {sp : List Char} (hsp : Spaces sp)
    (rest : List Char) :
    plain (members read false (sp ++ (listed (ms.map memberText) ++ '\x7d' :: rest))) =
      (ms.mapM (memberOf read)).map fun xs => (xs, rest) := by
  induction ms generalizing sp rest with
  | nil => exact plain_members_end false hsp rest
  | cons m ms ih =>
    have hothers : ∀ sp, Spaces sp → ∀ rest, _ := fun _ hsp rest =>
      ih (fun n hn => hkeys n (List.mem_cons_of_mem m hn))
        (fun n hn => hread n (List.mem_cons_of_mem m hn)) hsp rest
    rw [List.map_cons, listed_cons_append]
    exact (plain_members_cons (hkeys m List.mem_cons_self) (hread m List.mem_cons_self) hothers
      rest).2 sp hsp

/-- Between their brackets items with commas between them are read as what each of them is read
as. -/
theorem plain_items_intercalate {ts : List (List Char)} (hts : ∀ t ∈ ts, IsDocument t)
    (hread : ∀ t ∈ ts, Settles read t (valueOf read t)) (rest : List Char) :
    plain (items read true ([','].intercalate ts ++ ']' :: rest)) =
      (ts.mapM (valueOf read)).map fun xs => (xs, rest) := by
  cases ts with
  | nil => exact plain_items_end true spaces_nil rest
  | cons t ts =>
    have hothers : ∀ sp, Spaces sp → ∀ rest, _ := fun _ hsp rest =>
      plain_items_listed (fun v hv => hts v (List.mem_cons_of_mem t hv))
        (fun v hv => hread v (List.mem_cons_of_mem t hv)) hsp rest
    rw [intercalate_eq_listed, List.append_assoc]
    exact (plain_items_cons (hts t List.mem_cons_self) (hread t List.mem_cons_self) hothers rest).1

/-- Members with commas between them are read like items. -/
theorem plain_members_intercalate {ms : List (List Char × List Char)} (hkeys : ∀ m ∈ ms, IsKey m.1)
    (hread : ∀ m ∈ ms, Settles read m.2 (valueOf read m.2)) (rest : List Char) :
    plain (members read true ([','].intercalate (ms.map memberText) ++ '\x7d' :: rest)) =
      (ms.mapM (memberOf read)).map fun xs => (xs, rest) := by
  cases ms with
  | nil => exact plain_members_end true spaces_nil rest
  | cons m ms =>
    have hothers : ∀ sp, Spaces sp → ∀ rest, _ := fun _ hsp rest =>
      plain_members_listed (fun n hn => hkeys n (List.mem_cons_of_mem m hn))
        (fun n hn => hread n (List.mem_cons_of_mem m hn)) hsp rest
    rw [List.map_cons, intercalate_eq_listed, List.append_assoc]
    exact (plain_members_cons (hkeys m List.mem_cons_self) (hread m List.mem_cons_self) hothers
      rest).1

end Listed

/-! ## Documents -/

/-- An array is read as the list of what its items are read as, one bracket deeper. -/
theorem plain_read_array {depth : Nat} {ts : List (List Char)} (hts : ∀ t ∈ ts, IsDocument t)
    (hread : ∀ t ∈ ts, Settles (read depth) t (valueOf (read depth) t)) (rest : List Char) :
    plain (read (depth + 1) ('[' :: ([','].intercalate ts ++ ']' :: rest))) =
      (ts.mapM (valueOf (read depth))).map fun vs => (.array vs, rest) := by
  rw [plain_read_cons (by decide)]
  change (plain (items (read depth) true ([','].intercalate ts ++ ']' :: rest))).map _ = _
  rw [plain_items_intercalate hts hread, Option.map_map]
  rfl

/-- A scalar is a value or refused, and leaves what follows it. -/
theorem settles_scalar {c : Char} (hspace : isSpace c = false) (hc : c ≠ '"' ∧ c ≠ '[' ∧ c ≠ '\x7b')
    (depth : Nat) {cs : List Char} {o : Option Json}
    (h : ∀ rest, EndsNumber rest → plain (scalar c (cs ++ rest)) = o.map fun v => (v, rest)) :
    Settles (read depth) (c :: cs) o := by
  apply (goesBy_read depth).settles hspace
  intro rest hrest
  unfold readBehind
  rw [if_neg hc.1, if_neg hc.2.1, if_neg hc.2.2]
  exact h rest hrest

theorem plain_scalar_number {c : Char} (hc : startsNumber c = true) (cs : List Char) :
    plain (scalar c cs) = (plain (Lexeme.number c cs)).map fun x => (.number x.1, x.2) := by
  obtain ⟨-, hn, ht, hf⟩ := of_startsNumber hc
  rw [scalar, if_neg hn, if_neg ht, if_neg hf, if_pos hc]
  exact plain_map _ Json.number id fun _ => rfl

/-- Brackets inside more brackets than there may be are refused at once. -/
theorem settles_zero {c : Char} (hc : c = '[' ∨ c = '\x7b') (cs : List Char) :
    Settles (read 0) (c :: cs) none := by
  rcases hc with rfl | rfl
  · exact (goesBy_read 0).settles (by decide) fun _ _ => rfl
  · exact (goesBy_read 0).settles (by decide) fun _ _ => rfl

/-- A number is read as what its parts stand for. -/
theorem settles_positive {cs : List Char} (h : IsNumeral cs) {n : Numeral}
    (hn : ∀ rest, EndsNumber rest → plain (numeral false (cs ++ rest)) = some (n, rest))
    (depth : Nat) : Settles (read depth) cs ((n.value false).toOption.map .number) := by
  obtain ⟨c, r, hc, rfl⟩ := h.exists_cons
  obtain ⟨hspace, hopens, -⟩ := of_isDigit hc
  have hstarts : startsNumber c = true := by rw [startsNumber, hc, Bool.or_true]
  have hminus : c ≠ '-' := by
    rintro rfl
    exact absurd hc (by decide)
  apply settles_scalar hspace hopens
  intro rest hrest
  have hnumeral : plain (numeral false (c :: (r ++ rest))) = some (n, rest) := hn rest hrest
  rw [plain_scalar_number hstarts, plain_number_positive hminus hnumeral, Option.map_map,
    Option.map_map]
  rfl

theorem settles_negative {cs : List Char} {n : Numeral}
    (hn : ∀ rest, EndsNumber rest → plain (numeral false (cs ++ rest)) = some (n, rest))
    (depth : Nat) : Settles (read depth) ('-' :: cs) ((n.value true).toOption.map .number) := by
  apply settles_scalar (by decide) (by decide)
  intro rest hrest
  rw [plain_scalar_number (by decide), plain_number_negative (hn rest hrest), Option.map_map,
    Option.map_map]
  rfl

theorem settles_string {body : List Char} {o : Option String}
    (ho : ∀ rest, plain (Lexeme.string (body ++ '"' :: rest)) = o.map fun s => (s, rest))
    (depth : Nat) : Settles (read depth) ('"' :: (body ++ ['"'])) (o.map .string) := by
  apply (goesBy_read depth).settles (by decide)
  intro rest _
  rw [List.append_assoc]
  change (plain (Lexeme.string (_ ++ '"' :: rest))).map _ = _
  rw [ho, Option.map_map, Option.map_map]
  rfl

/-- Spaces between brackets are an empty array, unless there are too many brackets around it. -/
theorem settles_emptyArray {sp : List Char} (hsp : Spaces sp) (depth : Nat) :
    ∃ o, Settles (read depth) ('[' :: (sp ++ [']'])) o := by
  cases depth with
  | zero => exact ⟨none, settles_zero (Or.inl rfl) _⟩
  | succ depth =>
    refine ⟨some (.array []), (goesBy_read _).settles (by decide) ?_⟩
    intro rest _
    rw [List.append_assoc]
    change (plain (items (read depth) true (_ ++ ']' :: rest))).map _ = _
    rw [plain_items_end true hsp]
    rfl

theorem settles_array {t : List Char} {ts : List (List Char)} (hts : ∀ u ∈ t :: ts, IsDocument u)
    (hread : ∀ u ∈ t :: ts, ∀ depth, ∃ o, Settles (read depth) u o) (depth : Nat) :
    ∃ o, Settles (read depth) ('[' :: (t ++ (listed ts ++ [']']))) o := by
  cases depth with
  | zero => exact ⟨none, settles_zero (Or.inl rfl) _⟩
  | succ depth =>
    have hvalues : ∀ u ∈ t :: ts, Settles (read depth) u (valueOf (read depth) u) := by
      intro u hu
      obtain ⟨o, ho⟩ := hread u hu depth
      exact ho.valueOf
    refine ⟨((t :: ts).mapM (valueOf (read depth))).map .array,
      (goesBy_read _).settles (by decide) ?_⟩
    intro rest _
    have hitems := plain_items_intercalate hts hvalues rest
    rw [intercalate_eq_listed, List.append_assoc] at hitems
    rw [List.append_assoc, List.append_assoc]
    change (plain (items (read depth) true (t ++ (listed ts ++ ']' :: rest)))).map _ = _
    rw [hitems, Option.map_map, Option.map_map]
    rfl

theorem settles_emptyObject {sp : List Char} (hsp : Spaces sp) (depth : Nat) :
    ∃ o, Settles (read depth) ('\x7b' :: (sp ++ ['\x7d'])) o := by
  cases depth with
  | zero => exact ⟨none, settles_zero (Or.inr rfl) _⟩
  | succ depth =>
    refine ⟨some (.object []), (goesBy_read _).settles (by decide) ?_⟩
    intro rest _
    rw [List.append_assoc]
    change (plain (members (read depth) true (_ ++ '\x7d' :: rest))).map _ = _
    rw [plain_members_end true hsp]
    rfl

theorem settles_object {m : List Char × List Char} {ms : List (List Char × List Char)}
    (hkeys : ∀ n ∈ m :: ms, IsKey n.1)
    (hread : ∀ n ∈ m :: ms, ∀ depth, ∃ o, Settles (read depth) n.2 o) (depth : Nat) :
    ∃ o, Settles (read depth)
      ('\x7b' :: (memberText m ++ (listed (ms.map memberText) ++ ['\x7d']))) o := by
  cases depth with
  | zero => exact ⟨none, settles_zero (Or.inr rfl) _⟩
  | succ depth =>
    have hvalues : ∀ n ∈ m :: ms, Settles (read depth) n.2 (valueOf (read depth) n.2) := by
      intro n hn
      obtain ⟨o, ho⟩ := hread n hn depth
      exact ho.valueOf
    refine ⟨((m :: ms).mapM (memberOf (read depth))).map .object,
      (goesBy_read _).settles (by decide) ?_⟩
    intro rest _
    have hmembers := plain_members_intercalate hkeys hvalues rest
    rw [List.map_cons, intercalate_eq_listed, List.append_assoc] at hmembers
    rw [List.append_assoc, List.append_assoc]
    change (plain (members (read depth) true
      (memberText m ++ (listed (ms.map memberText) ++ '\x7d' :: rest)))).map _ = _
    rw [hmembers, Option.map_map, Option.map_map]
    rfl

/-- **A document is taken as a whole or refused**, whatever follows it. -/
theorem settles_read {t : List Char} (h : IsDocument t) (depth : Nat) :
    ∃ o, Settles (read depth) t o := by
  -- what stands in brackets is read with one bracket less to come, so the depth varies
  induction h generalizing depth with
  | null =>
    exact ⟨some .null, settles_scalar (by decide) (by decide) depth fun _ _ => rfl⟩
  | true =>
    exact ⟨some (.bool Bool.true), settles_scalar (by decide) (by decide) depth fun _ _ => rfl⟩
  | false =>
    exact ⟨some (.bool Bool.false), settles_scalar (by decide) (by decide) depth fun _ _ => rfl⟩
  | positive h =>
    obtain ⟨n, hn⟩ := plain_numeral h
    exact ⟨_, settles_positive h hn depth⟩
  | negative h =>
    obtain ⟨n, hn⟩ := plain_numeral h
    exact ⟨_, settles_negative hn depth⟩
  | string h =>
    obtain ⟨o, ho⟩ := plain_string h
    exact ⟨_, settles_string ho depth⟩
  | emptyArray h => exact settles_emptyArray h depth
  | array hts ih => exact settles_array hts ih depth
  | emptyObject h => exact settles_emptyObject h depth
  | object hkeys _ ih => exact settles_object hkeys ih depth
  | spaced hbefore _ hbehind ih =>
    obtain ⟨o, ho⟩ := ih depth
    exact ⟨o, (goesBy_read depth).settles_spaced ho hbefore hbehind⟩

/-! ## Whole texts -/

/-- A document that has a value is read as that value, and only spaces are left. -/
theorem read_of_valueOf {t : List Char} (ht : IsDocument t) {depth : Nat} {v : Json}
    (h : valueOf (read depth) t = some v) :
    ∃ r, read depth t = .ok (v, r) ∧ atEnd r.val = true := by
  obtain ⟨o, ho⟩ := settles_read ht depth
  obtain ⟨sp, hsp, hread⟩ := ho.valueOf [] endsNumber_nil
  rw [h, List.append_nil, List.append_nil, Option.map_some] at hread
  obtain ⟨r, hr, rfl⟩ := plain_eq_some.mp hread
  exact ⟨r, hr, List.all_eq_true.mpr hsp⟩

/-- A space at the end of a document changes nothing. -/
theorem valueOf_append_space {t : List Char} (ht : IsDocument t) {c : Char}
    (hc : isSpace c = true) (depth : Nat) :
    valueOf (read depth) (t ++ [c]) = valueOf (read depth) t := by
  obtain ⟨o, ho⟩ := settles_read ht depth
  exact ho.valueOf_append_space hc

end SuffixLint.Json
