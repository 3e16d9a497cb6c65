import SuffixLint.Proofs.Json.Passed
import SuffixLint.Proofs.Json.Scalar
/-!
# Records at a glance

A record whose fields are plain values need not go into the brackets of any item or member: it does
with each what skipping it and, if it is no more than a plain value, reading it would do (`glance`).
So the reading of a record comes to a look at the items or members of the text, each at a glance, and
the decoding of what has been seen (`plain_fill`, `plain_readInOrder`). The second half of this is
that of the agreement of one pass with two; the first is that a record that has been read has been
seen so.

From this come the two facts about a record and a text: a document is taken as a whole or refused,
and what is taken is a document (`Codec.TakesDocuments`). Spaces behind a text therefore make no
difference to a record, be the text a document or not (`toOption_parse_append_space`).
-/

namespace SuffixLint

open Json Lexeme Text

namespace Json

/-! ## Glances -/

/-- Passes over a document and reads it if it has no brackets; any other document, and one that
cannot be read, counts as a list of nothing. -/
def glance : Read Json := fun cs =>
  (skip cs).map fun r => (((read 0 cs).toOption.map Prod.fst).getD (.array []), r)

/-- What a document is at a glance. -/
def worth (t : List Char) : Json :=
  (valueOf (read 0) t).getD (.array [])

theorem skip_of_glance {cs : List Char} {v : Json} {r : Rest cs} (h : glance cs = .ok (v, r)) :
    skip cs = .ok r := by
  obtain ⟨r', hr', heq⟩ := map_eq_ok.mp h
  obtain ⟨-, rfl⟩ := Prod.mk.inj heq
  exact hr'

theorem exists_glance_of_skip {cs : List Char} {r : Rest cs} (h : skip cs = .ok r) :
    ∃ v, glance cs = .ok (v, r) := by
  refine ⟨((read 0 cs).toOption.map Prod.fst).getD (.array []), ?_⟩
  rw [glance, h]
  rfl

/-- Each document is passed over as a whole. -/
theorem settles_glance {t : List Char} (ht : IsDocument t) : Settles glance t (some (worth t)) := by
  intro rest hrest
  obtain ⟨sp, hsp, r, hr, hval⟩ := leaves_skip ht hrest
  obtain ⟨o, ho⟩ := settles_read ht 0
  obtain ⟨sp', -, hread⟩ := ho.valueOf rest hrest
  have hfirst : (read 0 (t ++ rest)).toOption.map Prod.fst = valueOf (read 0) t := by
    calc (read 0 (t ++ rest)).toOption.map Prod.fst
        = (plain (read 0 (t ++ rest))).map Prod.fst := by rw [plain, Option.map_map]; rfl
      _ = valueOf (read 0) t := by rw [hread, Option.map_map]; exact Option.map_id'
  refine ⟨sp, hsp, plain_eq_some.mpr ⟨r, ?_, hval⟩⟩
  rw [glance, hr, hfirst]
  rfl

end Json

namespace Codec

variable {α β : Type} {c : Codec α}

namespace Scalar

variable (h : c.Scalar)
include h

theorem decode_emptyArray : c.decode .refused (.array []) = none := by
  cases hx : c.decode .refused (.array []) with
  | none => rfl
  | some x => exact (h.isPlain _ x hx).elim

/-- A codec of plain values reads what it decodes of what is seen at a glance. -/
theorem agreesWith_glance : c.AgreesWith glance := by
  intro cs v r hglance
  obtain ⟨r', hskip, heq⟩ := map_eq_ok.mp hglance
  obtain ⟨rfl, rfl⟩ := Prod.mk.inj heq
  cases hread : Json.read 0 cs with
  | error e =>
    have hnone := h.plain_read cs
    rw [hread] at hnone
    obtain ⟨e', he'⟩ := plain_eq_none.mp hnone
    rw [he']
    change none = (c.decode .refused (.array [])).map _
    rw [h.decode_emptyArray]
    rfl
  | ok found =>
    obtain ⟨v, r⟩ := found
    rw [skip_of_read hread] at hskip
    obtain rfl := Except.ok.inj hskip
    exact h.agrees 0 cs v r hread

theorem decode_worth {t : List Char} (ht : IsDocument t) :
    c.decode .refused (worth t) = valueOf c.read t := by
  rw [(h.settles ht).valueOf_eq, worth]
  cases valueOf (Json.read 0) t with
  | none => exact h.decode_emptyArray
  | some v => rfl

/-- What such a codec reads can be seen at a glance. -/
theorem exists_glance {cs : List Char} {x : α} {r : Rest cs} (hread : c.read cs = .ok (x, r)) :
    ∃ v, glance cs = .ok (v, r) := by
  obtain ⟨v, hv⟩ := h.reads cs x r hread
  exact exists_glance_of_skip (skip_of_read hv)

end Scalar

end Codec

namespace Fields

variable {β σ : Type}

/-- The fields are plain values. -/
def Scalars : {β σ : Type} → Fields β σ → Prop
  | _, _, .nil => True
  | _, _, .cons f fs => f.codec.Scalar ∧ fs.Scalars

theorem Scalars.agreeWith_glance {fs : Fields β σ} (h : fs.Scalars) : fs.AgreeWith glance := by
  induction fs with
  | nil => trivial
  | cons f fs ih => exact ⟨h.1.agreesWith_glance, ih h.2⟩

/-! ## Records in array form -/

/-- An array that has been read as a record has been seen item by item. -/
theorem exists_items_of_readInOrder {fs : Fields β σ} (h : fs.Scalars) {wanted : String}
    {index : Nat} {first : Bool} {cs : List Char} {xs : β} {r : Rest cs}
    (hread : fs.readInOrder wanted index first cs = .ok (xs, r)) :
    ∃ vs, items glance first cs = .ok (vs, r) := by
  induction fs generalizing index first cs with
  | nil =>
    obtain ⟨r', hclose, heq⟩ := map_eq_ok.mp hread
    obtain ⟨-, rfl⟩ := Prod.mk.inj heq
    unfold close at hclose
    split at hclose
    · cases hclose
    rename_i c q hq
    split at hclose
    · rename_i hend
      obtain rfl := Except.ok.inj hclose
      refine ⟨[], ?_⟩
      rw [items, nextItem, hq]
      simp only [hend, if_true]
    · split at hclose
      · split at hclose <;> cases hclose
      · cases hclose
  | cons f fs ih =>
    rw [readInOrder] at hread
    split at hread
    · cases hread
    · rename_i q hstep
      obtain ⟨xs', -, heq⟩ := map_eq_ok.mp hread
      obtain ⟨-, rfl⟩ := Prod.mk.inj heq
      refine ⟨[], ?_⟩
      rw [items, hstep]
    · rename_i t hstep
      split at hread
      · cases hread
      rename_i x q hx
      obtain ⟨⟨xs', q'⟩, hothers, heq⟩ := map_eq_ok.mp hread
      obtain ⟨-, rfl⟩ := Prod.mk.inj heq
      obtain ⟨v, hv⟩ := h.1.exists_glance hx
      obtain ⟨vs, hvs⟩ := ih h.2 hothers
      refine ⟨v :: vs, ?_⟩
      rw [items, hstep]
      simp only [hv, hvs]

/-- **A record in array form is what its items are at a glance.** -/
theorem plain_readInOrder {fs : Fields β σ} (h : fs.Scalars) (wanted : String) (index : Nat)
    (first : Bool) (cs : List Char) : plain (fs.readInOrder wanted index first cs) =
      (plain (items glance first cs)).bind fun found =>
        (fs.ofItems .refused found.1).map fun xs => (xs, found.2) := by
  cases hitems : items glance first cs with
  | error e =>
    cases hread : fs.readInOrder wanted index first cs with
    | error e => rfl
    | ok found =>
      obtain ⟨vs, hvs⟩ := exists_items_of_readInOrder h hread
      rw [hitems] at hvs
      cases hvs
  | ok found =>
    rw [plain, toOption_readInOrder h.agreeWith_glance wanted index hitems, Option.map_map]
    rfl

/-! ## Records in object form -/

/-- What has been offered to the fields and taken was a value behind a colon. -/
theorem exists_glance_of_offer {fs : Fields β σ} (h : fs.Scalars) {slots slots' : σ} {key : String}
    {cs : List Char} {r : Rest cs} (hoffer : fs.offer slots key cs = some (.ok (slots', r))) :
    ∃ v, ∃ q : Rest cs, ∃ r' : Rest q.val,
      colon cs = .ok q ∧ glance q.val = .ok (v, r') ∧ r = q.rest r' := by
  induction fs with
  | nil => cases hoffer
  | cons f fs ih =>
    obtain ⟨slot, slots⟩ := slots
    by_cases hkey : f.knows key = true
    · unfold offer at hoffer
      rw [if_pos hkey] at hoffer
      split at hoffer
      · cases hoffer
      split at hoffer
      · cases hoffer
      rename_i q hcolon
      obtain ⟨⟨x, r'⟩, hx, heq⟩ := map_eq_ok.mp (Option.some.inj hoffer)
      obtain ⟨-, rfl⟩ := Prod.mk.inj heq
      obtain ⟨v, hv⟩ := h.1.exists_glance hx
      exact ⟨v, q, r', hcolon, hv, rfl⟩
    · rw [offer_of_not_knows (Bool.eq_false_iff.mpr hkey)] at hoffer
      obtain ⟨result, hresult, heq⟩ := Option.map_eq_some_iff.mp hoffer
      obtain ⟨⟨slots'', r''⟩, rfl, hpair⟩ := map_eq_ok.mp heq
      obtain ⟨-, rfl⟩ := Prod.mk.inj hpair
      exact ih h.2 hresult

/-- A member that no field knows has been passed over behind its colon. -/
theorem exists_glance_of_skipMember {cs : List Char} {r : Rest cs} (h : skipMember cs = .ok r) :
    ∃ v, ∃ q : Rest cs, ∃ r' : Rest q.val,
      colon cs = .ok q ∧ glance q.val = .ok (v, r') ∧ r = q.rest r' := by
  unfold skipMember at h
  split at h
  · cases h
  rename_i q hcolon
  obtain ⟨r', hskip, rfl⟩ := map_eq_ok.mp h
  obtain ⟨v, hv⟩ := exists_glance_of_skip hskip
  exact ⟨v, q, r', hcolon, hv, rfl⟩

/-- A member that has been seen comes before those behind it. -/
theorem exists_members_cons {first : Bool} {cs : List Char} {key : String} {r : Rest cs}
    (hstep : nextMember first cs = .ok (.member key r)) {r' : Rest r.val}
    (hvalue : ∃ v, ∃ q : Rest r.val, ∃ q' : Rest q.val,
      colon r.val = .ok q ∧ glance q.val = .ok (v, q') ∧ r' = q.rest q')
    {r'' : Rest r'.val} (hothers : ∃ ms, members glance false r'.val = .ok (ms, r'')) :
    ∃ ms, members glance first cs = .ok (ms, (r.rest r').rest r'') := by
  obtain ⟨v, q, q', hcolon, hv, rfl⟩ := hvalue
  obtain ⟨ms, hms⟩ := hothers
  refine ⟨(key, v) :: ms, ?_⟩
  have hms' : members glance false q'.val = .ok (ms, r'') := hms
  rw [members, hstep]
  simp only [hcolon, hv, hms']
  rfl

/-- An object that has filled the room for the fields has been seen member by member. -/
theorem exists_members_of_fill {fs : Fields β σ} (h : fs.Scalars) {slots slots' : σ} {first : Bool}
    {cs : List Char} {r : Rest cs} (hfill : fs.fill slots first cs = .ok (slots', r)) :
    ∃ ms, members glance first cs = .ok (ms, r) := by
  fun_induction fill fs slots first cs generalizing slots' with
  | case1 => cases hfill
  | case2 slots first cs q hstep =>
    obtain ⟨-, rfl⟩ := Prod.mk.inj (Except.ok.inj hfill)
    refine ⟨[], ?_⟩
    rw [members, hstep]
  | case3 => cases hfill
  | case4 slots first cs key q hstep slots₁ q₁ hoffer ih =>
    obtain ⟨⟨slots₂, q₂⟩, hothers, heq⟩ := map_eq_ok.mp hfill
    obtain ⟨-, rfl⟩ := Prod.mk.inj heq
    exact exists_members_cons hstep (exists_glance_of_offer h hoffer) (ih hothers)
  | case5 => cases hfill
  | case6 slots first cs key q hstep hoffer q₁ hskip ih =>
    obtain ⟨⟨slots₂, q₂⟩, hothers, heq⟩ := map_eq_ok.mp hfill
    obtain ⟨-, rfl⟩ := Prod.mk.inj heq
    exact exists_members_cons hstep (exists_glance_of_skipMember hskip) (ih hothers)

/-- **A record in object form is what its members are at a glance.** -/
theorem plain_fill {fs : Fields β σ} (h : fs.Scalars) (hdistinct : fs.distinct = true)
    (cs : List Char) :
    ((plain (fs.fill fs.empty true cs)).bind fun found =>
        (fs.finish found.1).toOption.map fun xs => (xs, found.2)) =
      (plain (members glance true cs)).bind fun found =>
        (fs.ofMembers .refused found.1).map fun xs => (xs, found.2) := by
  cases hmembers : members glance true cs with
  | error e =>
    cases hfill : fs.fill fs.empty true cs with
    | error e => rfl
    | ok found =>
      obtain ⟨ms, hms⟩ := exists_members_of_fill h hfill
      rw [hmembers] at hms
      cases hms
  | ok found =>
    obtain ⟨ms, r⟩ := found
    have hdue := toOption_fill h.agreeWith_glance (fun _ _ _ => skip_of_glance) hdistinct hmembers
      fs.empty
    rw [due_empty] at hdue
    -- the same without the proofs that what is left is shorter
    have hplain := congrArg (Option.map fun found => (found.1, found.2.val)) hdue
    rw [Option.map_map, Option.map_bind] at hplain
    refine Eq.trans ?_ hplain
    cases fs.fill fs.empty true cs with
    | error e => rfl
    | ok found =>
      change (fs.finish found.1).toOption.map _ = ((fs.finish found.1).toOption.map _).map _
      rw [Option.map_map]
      rfl

end Fields

namespace Codec

variable {α β σ : Type}

/-! ## Records as readers of documents -/

section Record

variable (title : String) {fs : Fields β σ} (h : fs.Scalars) (hdistinct : fs.distinct = true)

/-- What a record makes of a text behind its first character. -/
def recordBehind (fs : Fields β σ) (c : Char) (cs : List Char) : Option (β × List Char) :=
  if c = '[' then
    (plain (items glance true cs)).bind fun found =>
      (fs.ofItems .refused found.1).map fun xs => (xs, found.2)
  else if c = '\x7b' then
    (plain (members glance true cs)).bind fun found =>
      (fs.ofMembers .refused found.1).map fun xs => (xs, found.2)
  else none

/-- A record takes what skipping passes over. -/
theorem leavesBehind_of_recordBehind {c : Char} {cs rest : List Char} {xs : β}
    (hread : recordBehind fs c cs = some (xs, rest)) : LeavesBehind c cs rest := by
  unfold recordBehind at hread
  split at hread
  · rename_i hlist
    subst hlist
    obtain ⟨⟨vs, left⟩, hvs, heq⟩ := Option.bind_eq_some_iff.mp hread
    obtain ⟨xs, -, heq⟩ := Option.map_eq_some_iff.mp heq
    obtain ⟨-, rfl⟩ := Prod.mk.inj heq
    obtain ⟨r, hr, rfl⟩ := plain_eq_some.mp hvs
    have hopened := leaves_of_items (fun _ _ _ => skip_of_glance) hr
    rwa [if_pos rfl] at hopened
  split at hread
  · rename_i hobject
    subst hobject
    obtain ⟨⟨ms, left⟩, hms, heq⟩ := Option.bind_eq_some_iff.mp hread
    obtain ⟨xs, -, heq⟩ := Option.map_eq_some_iff.mp heq
    obtain ⟨-, rfl⟩ := Prod.mk.inj heq
    obtain ⟨r, hr, rfl⟩ := plain_eq_some.mp hms
    have hopened := leaves_of_members (fun _ _ _ => skip_of_glance) hr
    rwa [if_pos rfl] at hopened
  · cases hread

include h hdistinct

theorem goesBy_record : GoesBy (record title fs).read (recordBehind fs) where
  nothing cs hq := by
    rw [record]
    simp only [hq]
    rfl
  first cs c q hq := by
    rw [recordBehind, record]
    simp only [hq]
    by_cases hlist : c = '['
    · rw [if_pos hlist, if_pos hlist, ← Fields.plain_readInOrder h]
      exact (plain_map _ id q.rest fun _ => rfl).trans Option.map_id'
    rw [if_neg hlist, if_neg hlist]
    by_cases hobject : c = '\x7b'
    · rw [if_pos hobject, if_pos hobject, ← Fields.plain_fill h hdistinct]
      cases fs.fill fs.empty true q.val with
      | error e => rfl
      | ok found =>
        obtain ⟨slots, r⟩ := found
        change _ = (fs.finish slots).toOption.map fun xs => (xs, r.val)
        cases hfinish : fs.finish slots with
        | error e =>
          simp only [hfinish]
          rfl
        | ok xs =>
          simp only [hfinish]
          rfl
    · rw [if_neg hobject, if_neg hobject]
      rfl

/-- An object is read as what is decoded of its members at a glance. -/
theorem settles_record_object {ms : List (List Char × List Char)} (hkeys : ∀ m ∈ ms, IsKey m.1)
    (hvalues : ∀ m ∈ ms, IsDocument m.2) :
    Settles (record title fs).read
      ('\x7b' :: ([','].intercalate (ms.map memberText) ++ ['\x7d']))
      ((ms.mapM (memberOf glance)).bind (fs.ofMembers .refused)) := by
  apply (goesBy_record title h hdistinct).settles (by decide)
  intro rest _
  have hmembers := plain_members_intercalate hkeys
    (fun m hm => (settles_glance (hvalues m hm)).valueOf) rest
  rw [recordBehind, if_neg (by decide), if_pos rfl, List.append_assoc, List.singleton_append,
    hmembers, Option.bind_map, Option.map_bind]
  rfl

/-- An array is read as what is decoded of its items at a glance. -/
theorem settles_record_array {ts : List (List Char)} (hts : ∀ t ∈ ts, IsDocument t) :
    Settles (record title fs).read ('[' :: ([','].intercalate ts ++ [']']))
      ((ts.mapM (valueOf glance)).bind (fs.ofItems .refused)) := by
  apply (goesBy_record title h hdistinct).settles (by decide)
  intro rest _
  have hitems := plain_items_intercalate hts (fun t ht => (settles_glance (hts t ht)).valueOf) rest
  rw [recordBehind, if_pos rfl, List.append_assoc, List.singleton_append, hitems, Option.bind_map,
    Option.map_bind]
  rfl

end Record

/-! ## Codecs that take documents -/

/-- A codec takes a document as a whole or refuses it, whatever follows, and takes nothing but
documents. -/
structure TakesDocuments (c : Codec α) : Prop where
  settles : ∀ t, IsDocument t → ∃ o, Settles c.read t o
  leaves : ∀ cs x rest, plain (c.read cs) = some (x, rest) → Leaves skip cs rest

theorem takesDocuments_record (title : String) {fs : Fields β σ} (h : fs.Scalars)
    (hdistinct : fs.distinct = true) : (record title fs).TakesDocuments where
  settles t ht := by
    have hgoes := goesBy_record title h hdistinct
    induction ht with
    -- nothing that begins without a bracket is a record
    | null | true | false | negative | string =>
      exact ⟨none, hgoes.settles (by decide) fun _ _ => rfl⟩
    | positive hnumeral =>
      obtain ⟨c, r, hc, rfl⟩ := hnumeral.exists_cons
      obtain ⟨hspace, ⟨-, hlist, hobject⟩, -⟩ := of_isDigit hc
      refine ⟨none, hgoes.settles hspace ?_⟩
      intro rest _
      rw [recordBehind, if_neg hlist, if_neg hobject]
      rfl
    | @emptyArray sp hsp =>
      refine ⟨fs.ofItems .refused [], hgoes.settles (by decide) ?_⟩
      intro rest _
      rw [recordBehind, if_pos rfl, List.append_assoc, List.singleton_append,
        plain_items_end true hsp]
      rfl
    | @array t ts hts =>
      have harray := settles_record_array title h hdistinct hts
      rw [intercalate_eq_listed, List.append_assoc] at harray
      exact ⟨_, harray⟩
    | @emptyObject sp hsp =>
      refine ⟨fs.ofMembers .refused [], hgoes.settles (by decide) ?_⟩
      intro rest _
      rw [recordBehind, if_neg (by decide), if_pos rfl, List.append_assoc, List.singleton_append,
        plain_members_end true hsp]
      rfl
    | @object m ms hkeys hvalues =>
      have hobject := settles_record_object title h hdistinct hkeys hvalues
      rw [List.map_cons, intercalate_eq_listed, List.append_assoc] at hobject
      exact ⟨_, hobject⟩
    | spaced hbefore _ hbehind ih =>
      obtain ⟨o, ho⟩ := ih
      exact ⟨o, hgoes.settles_spaced ho hbefore hbehind⟩
  leaves cs x rest hread := by
    have hgoes := goesBy_record title h hdistinct
    cases hq : next cs with
    | none =>
      rw [hgoes.nothing cs hq] at hread
      cases hread
    | some found =>
      obtain ⟨c, q⟩ := found
      rw [hgoes.first cs c q hq, recordBehind] at hread
      exact (leaves_skip_iff hq).mpr (leavesBehind_of_recordBehind hread)

theorem plain_read_imap (c : Codec α) (f : α → β) (g : β → α) (cs : List Char) :
    plain ((c.imap f g).read cs) = (plain (c.read cs)).map fun found => (f found.1, found.2) :=
  plain_map (c.read cs) f id fun _ => rfl

theorem settles_imap {c : Codec α} {t : List Char} {o : Option α} (h : Settles c.read t o)
    (f : α → β) (g : β → α) : Settles (c.imap f g).read t (o.map f) := by
  intro rest hrest
  obtain ⟨sp, hsp, hread⟩ := h rest hrest
  refine ⟨sp, hsp, ?_⟩
  rw [plain_read_imap, hread, Option.map_map, Option.map_map]
  rfl

theorem takesDocuments_imap {c : Codec α} (h : c.TakesDocuments) (f : α → β) (g : β → α) :
    (c.imap f g).TakesDocuments where
  settles t ht := by
    obtain ⟨o, ho⟩ := h.settles t ht
    exact ⟨o.map f, settles_imap ho f g⟩
  leaves cs y rest hread := by
    rw [plain_read_imap] at hread
    obtain ⟨⟨x, left⟩, hx, heq⟩ := Option.map_eq_some_iff.mp hread
    obtain ⟨-, rfl⟩ := Prod.mk.inj heq
    exact h.leaves cs x left hx

/-! ## Whole texts -/

theorem toOption_parse_eq (c : Codec α) (t : List Char) : (c.parse t).toOption =
    (plain (c.read t)).bind fun found => if atEnd found.2 then some found.1 else none := by
  rw [parse]
  cases c.read t with
  | error e => rfl
  | ok found =>
    obtain ⟨x, r⟩ := found
    by_cases hend : atEnd r.val = true
    · exact (congrArg Except.toOption (if_pos hend)).trans (if_pos hend).symm
    · exact (congrArg Except.toOption (if_neg hend)).trans (if_neg hend).symm

/-- A text that is taken as a whole may have spaces behind it. -/
theorem toOption_parse_append {c : Codec α} {t : List Char} {o : Option α}
    (h : Settles c.read t o) {sp : List Char} (hsp : Spaces sp) :
    (c.parse (t ++ sp)).toOption = o := by
  have hends : EndsNumber sp := by
    have := Layout.endsNumber_append hsp endsNumber_nil
    rwa [List.append_nil] at this
  obtain ⟨sp', hsp', hread⟩ := h sp hends
  have hend : atEnd (sp' ++ sp) = true := List.all_eq_true.mpr (hsp'.append hsp)
  rw [toOption_parse_eq, hread, Option.bind_map]
  cases o with
  | none => rfl
  | some x => exact if_pos hend

namespace TakesDocuments

variable {c : Codec α} (h : c.TakesDocuments) {t : List Char}
include h

/-- What is parsed is a document. -/
theorem isDocument_of_parse {x : α} (hparse : c.parse t = .ok x) : IsDocument t := by
  rw [← toOption_eq_some, toOption_parse_eq, Option.bind_eq_some_iff] at hparse
  obtain ⟨⟨y, rest⟩, hread, hend⟩ := hparse
  obtain ⟨r, hr, rfl⟩ := h.leaves t y rest hread
  split at hend
  · rename_i hspaces
    obtain ⟨u, hu, ht⟩ := isDocument_of_skip hr
    rw [ht]
    exact .spaced spaces_nil hu (List.all_eq_true.mp hspaces)
  · cases hend

/-- **A space behind a text makes no difference**, whether the text is a document or not. -/
theorem toOption_parse_append_space {s : Char} (hs : isSpace s = true) (t : List Char) :
    (c.parse (t ++ [s])).toOption = (c.parse t).toOption := by
  by_cases ht : IsDocument t
  · obtain ⟨o, ho⟩ := h.settles t ht
    have hplain := toOption_parse_append ho spaces_nil
    rw [List.append_nil] at hplain
    rw [hplain, toOption_parse_append ho (List.forall_mem_singleton.mpr hs)]
  · -- no document comes out of a text by a space behind it
    have hrefused : ∀ u, ¬IsDocument u → (c.parse u).toOption = none := by
      intro u hu
      cases hparse : c.parse u with
      | error e => rfl
      | ok x => exact absurd (h.isDocument_of_parse hparse) hu
    rw [hrefused t ht, hrefused (t ++ [s]) fun hts => ht (hts.of_append_space hs)]

end TakesDocuments

end Codec

end SuffixLint
