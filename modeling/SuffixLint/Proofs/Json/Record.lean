import SuffixLint.Json.Record
import SuffixLint.Proofs.Json.Codec
/-!
# Records read back

A record comes back from what is written for it when each of its fields does: a field that is
written by the codec of the field, and a field that is left out by standing for its absence
(`Fields.Restore`). The keys have to tell the fields apart (`Fields.apart`).

Reading an object fills the room for all fields member by member, whichever field a member is for.
The induction on the fields therefore looks at some last fields of a record, and at the room for
them as a part of the room for all (`reads_fill`).
-/

namespace SuffixLint

open Json Lexeme Text

namespace Fields

/-! ## Keys -/

/-- The keys under which fields are written. -/
def keys : {β σ : Type} → Fields β σ → List String
  | _, _, .nil => []
  | _, _, .cons f fs => f.key :: fs.keys

/-- Whether some field is understood under a key. -/
def know : {β σ : Type} → Fields β σ → String → Bool
  | _, _, .nil, _ => false
  | _, _, .cons f fs, key => f.knows key || fs.know key

/-- Whether each key under which a field is written means this field only. -/
def apart : {β σ : Type} → Fields β σ → Bool
  | _, _, .nil => true
  | _, _, .cons f fs => fs.keys.all (fun key => !f.knows key) && !fs.know f.key && fs.apart

theorem knows_key {α : Type} (f : Field α) : f.knows f.key = true := by
  rw [Field.knows, decide_eq_true rfl, Bool.true_or]

/-- What it is for the first field to be apart from the others, and for those to be apart. -/
theorem apart_cons {α β σ : Type} {f : Field α} {fs : Fields β σ}
    (h : (cons f fs).apart = true) :
    (∀ key ∈ fs.keys, f.knows key = false) ∧ fs.know f.key = false ∧ fs.apart = true := by
  simp only [apart, Bool.and_eq_true, List.all_eq_true, Bool.not_eq_true'] at h
  exact ⟨h.1.1, h.1.2, h.2⟩

/-- Members are written under the keys of the fields. -/
theorem mem_keys_of_mem_toMembers {β σ : Type} {fs : Fields β σ} {xs : β} {m : String × Json}
    (h : m ∈ fs.toMembers xs) : m.1 ∈ fs.keys := by
  induction fs with
  | nil => cases h
  | cons f fs ih =>
    obtain ⟨x, xs⟩ := xs
    rw [toMembers] at h
    split at h
    · exact List.mem_cons_of_mem _ (ih h)
    · rcases List.mem_cons.mp h with rfl | h
      · exact List.mem_cons_self
      · exact List.mem_cons_of_mem _ (ih h)

/-! ## Values that come back -/

/-- Each field restores its value, or leaves it out and takes it for absent. -/
def Restore : {β σ : Type} → Fields β σ → β → Prop
  | _, _, .nil, _ => True
  | _, _, .cons f fs, (x, xs) =>
    (if f.omits x then f.absent = some x else f.codec.Restores x) ∧ fs.Restore xs

/-- An optional value that is left out when there is none, and is then taken for none. -/
theorem restore_maybe {α : Type} {c : Codec α} {o : Option α} (h : c.option.Restores o) :
    if o.isNone then some none = some o else c.option.Restores o := by
  rcases o with _ | x
  · rfl
  · exact h

/-- The room for the fields once what is written for values has been read. -/
def stored : {β σ : Type} → Fields β σ → β → σ
  | _, _, .nil, _ => ()
  | _, _, .cons f fs, (x, xs) => (if f.omits x then none else some x, fs.stored xs)

/-- From that room the values come back. -/
theorem finish_stored {β σ : Type} {fs : Fields β σ} {xs : β} (h : fs.Restore xs) :
    fs.finish (fs.stored xs) = .ok xs := by
  induction fs with
  | nil => rfl
  | cons f fs ih =>
    obtain ⟨x, xs⟩ := xs
    obtain ⟨hx, hxs⟩ := h
    have hslot : (if f.omits x then none else some x).or f.absent = some x := by
      by_cases homits : f.omits x = true
      · rw [if_pos homits] at hx ⊢
        exact hx
      · rw [if_neg homits]
        rfl
    rw [stored, finish, hslot, ih hxs]
    rfl

/-- The values come back from the members that are written for them, with members before them that
mean no field. -/
theorem ofMembers_toMembers {β σ : Type} {fs : Fields β σ} {xs : β} (h : fs.Restore xs)
    (hapart : fs.apart = true) (s : Surplus) {before : List (String × Json)}
    (hbefore : ∀ m ∈ before, fs.know m.1 = false) :
    fs.ofMembers s (before ++ fs.toMembers xs) = some xs := by
  induction fs generalizing before with
  | nil => rfl
  | cons f fs ih =>
    obtain ⟨x, xs⟩ := xs
    obtain ⟨hx, hxs⟩ := h
    obtain ⟨hkeys, hknow, hapart⟩ := apart_cons hapart
    have hbefore' : ∀ m ∈ before, f.knows m.1 = false ∧ fs.know m.1 = false := fun m hm =>
      Bool.or_eq_false_iff.mp (hbefore m hm)
    -- only the member of the field itself means the field
    have hnone : before.filter (fun m => f.knows m.1) = [] :=
      List.filter_eq_nil_iff.mpr fun m hm => Bool.eq_false_iff.mp (hbefore' m hm).1
    have hothers : (fs.toMembers xs).filter (fun m => f.knows m.1) = [] :=
      List.filter_eq_nil_iff.mpr fun m hm =>
        Bool.eq_false_iff.mp (hkeys m.1 (mem_keys_of_mem_toMembers hm))
    rw [ofMembers, toMembers]
    by_cases homits : f.omits x = true
    · rw [if_pos homits] at hx ⊢
      rw [List.filter_append, hnone, hothers, ih hxs hapart fun m hm => (hbefore' m hm).2]
      simp only [List.append_nil, hx]
      rfl
    · rw [if_neg homits] at hx ⊢
      have hbehind : ∀ m ∈ before ++ [(f.key, f.codec.encode x)], fs.know m.1 = false := by
        intro m hm
        rcases List.mem_append.mp hm with hm | hm
        · exact (hbefore' m hm).2
        · rw [List.mem_singleton.mp hm]
          exact hknow
      have hmembers := ih hxs hapart hbehind
      rw [List.append_assoc, List.singleton_append] at hmembers
      have hself : ((f.key, f.codec.encode x) :: fs.toMembers xs).filter
          (fun m => f.knows m.1) = [(f.key, f.codec.encode x)] := by
        rw [List.filter_cons, if_pos (knows_key f), hothers]
      rw [List.filter_append, hnone, List.nil_append, hself, hmembers]
      simp only [hx.decode]
      rfl

/-- What is written for each field that is not left out has a property. -/
def Writes (P : Json → Prop) : {β σ : Type} → Fields β σ → β → Prop
  | _, _, .nil, _ => True
  | _, _, .cons f fs, (x, xs) => (f.omits x = false → P (f.codec.encode x)) ∧ fs.Writes P xs

theorem of_mem_toMembers {P : Json → Prop} {β σ : Type} {fs : Fields β σ} {xs : β}
    (h : fs.Writes P xs) {m : String × Json} (hm : m ∈ fs.toMembers xs) : P m.2 := by
  induction fs with
  | nil => cases hm
  | cons f fs ih =>
    obtain ⟨x, xs⟩ := xs
    obtain ⟨hx, hxs⟩ := h
    rw [toMembers] at hm
    split at hm
    · exact ih hxs hm
    · rename_i hwritten
      rcases List.mem_cons.mp hm with rfl | hm
      · exact hx (Bool.eq_false_iff.mpr hwritten)
      · exact ih hxs hm

/-! ## Filling the room -/

/-- A member of a later field is passed on to the later fields. -/
theorem offer_of_not_knows {α β σ : Type} {f : Field α} {key : String}
    (h : f.knows key = false) (fs : Fields β σ) (slot : Option α) (slots : σ) (cs : List Char) :
    (cons f fs).offer (slot, slots) key cs =
      (fs.offer slots key cs).map fun result =>
        result.map fun found => ((slot, found.1), found.2) := by
  exact if_neg (Bool.eq_false_iff.mp h)

/-- A member of the first field is read by the codec of the field. -/
theorem offer_key {α β σ : Type} {f : Field α} (fs : Fields β σ) (slots : σ) {x : α}
    {cs value rest : List Char} (hcs : cs = ':' :: value) (h : Reads f.codec.read value x rest) :
    ∃ r : Rest cs, (cons f fs).offer (none, slots) f.key cs = some (.ok ((some x, slots), r)) ∧
      r.val = rest := by
  have hcolon := colon_cons value
  rw [← hcs] at hcolon
  obtain ⟨r, hr, hval⟩ := hcolon
  rw [← hval] at h
  obtain ⟨r', hr', hval'⟩ := h
  refine ⟨r.rest r', ?_, hval'⟩
  unfold offer
  rw [if_pos (knows_key f)]
  simp only [hr, hr']
  rfl

/-- What is written for the last fields of a record fills the room for them. `place` puts the room
for these fields into the room for all of them, and `hplace` says that their members are read into
it there. -/
theorem reads_fill {B S : Type} (all : Fields B S) {β σ : Type} {fs : Fields β σ} {xs : β}
    (h : fs.Restore xs) (hapart : fs.apart = true) (place : σ → S)
    (hplace : ∀ slots, ∀ key ∈ fs.keys, ∀ cs, all.offer (place slots) key cs =
      (fs.offer slots key cs).map fun result => result.map fun found => (place found.1, found.2))
    (l : Layout) (level : Nat) (first : Bool) (rest : List Char) :
    Reads (all.fill (place fs.empty) first) (l.renderMembers level first (fs.toMembers xs) ++ rest)
      (place (fs.stored xs)) rest := by
  induction fs generalizing first with
  | nil =>
    rw [toMembers, Layout.renderMembers]
    obtain ⟨r, hr, hval⟩ := nextMember_close l level first rest
    refine ⟨r, ?_, hval⟩
    rw [fill, hr]
  | @cons α β σ f fs ih =>
    obtain ⟨x, xs⟩ := xs
    obtain ⟨hx, hxs⟩ := h
    obtain ⟨hkeys, -, hapart⟩ := apart_cons hapart
    -- the room for the fields behind the first, whatever the first has
    have hbehind : ∀ slot : Option α, ∀ slots, ∀ key ∈ fs.keys, ∀ cs,
        all.offer (place (slot, slots)) key cs = (fs.offer slots key cs).map fun result =>
          result.map fun found => (place (slot, found.1), found.2) := by
      intro slot slots key hkey cs
      rw [hplace _ key (List.mem_cons_of_mem _ hkey), offer_of_not_knows (hkeys key hkey),
        Option.map_map]
      refine congrArg (Option.map · _) (funext fun result => ?_)
      cases result <;> rfl
    rw [toMembers, stored, empty]
    by_cases homits : f.omits x = true
    · -- no member is written for the field, and the room for it stays empty
      rw [if_pos homits, if_pos homits]
      exact ih hxs hapart (fun slots => place (none, slots)) (hbehind none) first
    · -- the member of the field is met first: its key, then its value, then the other members
      rw [if_neg homits] at hx
      rw [if_neg homits, if_neg homits]
      simp only [Layout.renderMembers, List.append_assoc, List.cons_append]
      obtain ⟨r, hr, hval⟩ := nextMember_lead l level first f.key
        (':' :: (l.behindColon ++ (l.render (level + 1) (f.codec.encode x) ++
          (l.renderMembers level false (fs.toMembers xs) ++ rest))))
      have hvalue := hx.read l (level + 1) l.behindColon _ l.spaces_behindColon
        (l.endsNumber_renderMembers level (fs.toMembers xs) rest)
      obtain ⟨r', hr', hval'⟩ := offer_key fs fs.empty hval hvalue
      have hmembers := ih hxs hapart (fun slots => place (some x, slots)) (hbehind (some x)) false
      rw [← hval'] at hmembers
      obtain ⟨r'', hr'', hval''⟩ := hmembers
      have hoffer := hplace (none, fs.empty) f.key List.mem_cons_self r.val
      rw [hr'] at hoffer
      refine ⟨(r.rest r').rest r'', ?_, hval''⟩
      rw [fill, hr]
      simp only [hoffer, Option.map_some, Except.map, hr'']

end Fields

namespace Codec

/-- A record is nested one level deeper than what is written for its fields. -/
theorem readable_record {depth : Nat} {β σ : Type} (title : String) {fs : Fields β σ} {xs : β}
    (h : fs.Writes (Readable depth) xs) : Readable (depth + 1) ((record title fs).encode xs) := by
  apply Readable.object
  intro m hm
  exact Fields.of_mem_toMembers h hm

/-- A record is restored when its fields restore their values. -/
theorem restores_record {β σ : Type} (title : String) {fs : Fields β σ} {xs : β}
    (h : fs.Restore xs) (hapart : fs.apart = true) : (record title fs).Restores xs where
  decode s := by
    change fs.ofMembers s (fs.toMembers xs) = some xs
    rw [← List.nil_append (fs.toMembers xs)]
    exact Fields.ofMembers_toMembers h hapart s fun m hm => nomatch hm
  read l level sp rest hsp _ := by
    change Reads _ (sp ++ (l.render level (.object (fs.toMembers xs)) ++ rest)) xs rest
    rw [Layout.render, List.cons_append]
    have hid : ∀ slots, ∀ key ∈ fs.keys, ∀ cs, fs.offer (id slots) key cs =
        (fs.offer slots key cs).map fun result =>
          result.map fun found => (id found.1, found.2) := by
      intro slots key _ cs
      rw [id_eq]
      cases fs.offer slots key cs with
      | none => rfl
      | some result => cases result <;> rfl
    have hfill := Fields.reads_fill fs h hapart id hid l level true rest
    rw [id_eq, id_eq] at hfill
    refine reads_behind (by decide) hfill (fun text r r' hr hr' => ?_) hsp
    rw [record]
    simp only [hr, show ¬ ('\x7b' = '[') by decide, if_false, if_true, hr',
      Fields.finish_stored h]
    rfl

end Codec

end SuffixLint
