import SuffixLint.Proofs.Json.Record
import SuffixLint.Proofs.Json.Skip
/-!
# One pass and two

A codec reads a value in one pass, straight from a text, or in two: it decodes the document that has
been read before. Where the document can be read, both come to the same (`Codec.Agrees`): the same
value and the same rest, or no value. Which fault is reported is another matter, since one pass meets
a wrong type before a fault in the text behind it.

A codec that is put together agrees when its parts do. For a record this takes more than its parts:
one pass puts members into the room for the fields one by one, and decoding looks for the members of
each field. The value that is due at any point of the pass (`Fields.due`) leads from one to the other.
None of this looks at how items and members are read, so it is said for any reader of documents that
takes what skipping takes (`Codec.AgreesWith`).
-/

namespace SuffixLint

open Json Lexeme Text

namespace Codec

/-- Reading a value comes to decoding the document that is read in its place. -/
def Agrees {α : Type} (c : Codec α) : Prop :=
  ∀ depth cs v r, Json.read depth cs = .ok (v, r) →
    (c.read cs).toOption = (c.decode .refused v).map fun x => (x, r)

/-- Reading a value comes to decoding what some reader of documents reads in its place. -/
def AgreesWith {α : Type} (c : Codec α) (reader : Read Json) : Prop :=
  ∀ cs v r, reader cs = .ok (v, r) →
    (c.read cs).toOption = (c.decode .refused v).map fun x => (x, r)

variable {α β : Type} {c : Codec α}

/-! ## Simple values -/

theorem agrees_imap (h : c.Agrees) (f : α → β) (g : β → α) : (c.imap f g).Agrees := by
  intro depth cs v r hread
  change ((c.read cs).map _).toOption = ((c.decode .refused v).map f).map _
  rw [toOption_map, h depth cs v r hread, Option.map_map, Option.map_map]
  rfl

theorem agrees_stringAs (wanted : String) : (stringAs wanted).Agrees := by
  intro depth cs v r hread
  obtain ⟨c, q, t, hq, hreading, rfl⟩ := reading_of_read hread
  rw [stringAs]
  simp only [hq]
  cases hreading with
  | string hs =>
    simp only [if_true, hs]
    rfl
  | array | object | null | true | false => rfl
  | number hc =>
    simp only [(of_startsNumber hc).1.1, if_false]
    rfl

theorem agrees_bool : bool.Agrees := by
  intro depth cs v r hread
  obtain ⟨c, q, t, hq, hreading, rfl⟩ := reading_of_read hread
  rw [bool]
  simp only [hq]
  cases hreading with
  | string | array | object | null => rfl
  | true hword | false hword =>
    simp only [if_true, show ¬('f' = 't') by decide, if_false, hword]
    rfl
  | number hc =>
    obtain ⟨-, -, ht, hf⟩ := of_startsNumber hc
    simp only [ht, hf, if_false]
    rfl

theorem agrees_natBelow (bound : Nat) (wanted : String) : (natBelow bound wanted).Agrees := by
  intro depth cs v r hread
  obtain ⟨c, q, t, hq, hreading, rfl⟩ := reading_of_read hread
  rw [natBelow]
  simp only [hq]
  cases hreading with
  | string | array | object | null | true | false => rfl
  | @number _ _ _ n t hc hn =>
    simp only [hc, if_true, hn]
    rw [toOption_map]

/-- Any document but `null` is left to the codec of the value. -/
theorem decode_option {v : Json} (hv : v ≠ .null) (s : Surplus) :
    c.option.decode s v = (c.decode s v).map some := by
  cases v with
  | null => exact absurd rfl hv
  | bool | number | string | array | object => rfl

theorem agrees_option (h : c.Agrees) : c.option.Agrees := by
  intro depth cs v r hread
  have hsome := h depth cs v r hread
  obtain ⟨d, q, t, hq, hreading, rfl⟩ := reading_of_read hread
  by_cases hd : d = 'n'
  · subst hd
    cases hreading with
    | null hword =>
      rw [option]
      simp only [hq, if_true, hword]
      rfl
    | number hc => exact absurd hc (by decide)
  · have hv : v ≠ .null := by
      rintro rfl
      cases hreading
      exact hd rfl
    rw [decode_option hv, option]
    simp only [hq, if_neg hd]
    rw [toOption_map, hsome, Option.map_map, Option.map_map]
    rfl

end Codec

/-- The value that is due for a field when one may have been read and members are still to come: it
is the one that has been read, or that of the one member that means the field. -/
def Field.due {α : Type} (f : Field α) (slot : Option α) (members : List (String × Json)) :
    Option α :=
  match slot, members.filter fun m => f.knows m.1 with
  | none, [] => f.absent
  | none, [m] => f.codec.decode .refused m.2
  | some x, [] => some x
  | _, _ => none

/-- The member that means the field comes first among those that do. -/
theorem Field.filter_knows_cons {α : Type} {f : Field α} {m : String × Json}
    (h : f.knows m.1 = true) (members : List (String × Json)) :
    (m :: members).filter (fun m => f.knows m.1) = m :: members.filter fun m => f.knows m.1 :=
  List.filter_cons_of_pos h

/-- A second member is one too many. -/
theorem Field.due_some_cons {α : Type} {f : Field α} {m : String × Json} (h : f.knows m.1 = true)
    (x : α) (members : List (String × Json)) : f.due (some x) (m :: members) = none := by
  unfold Field.due
  rw [Field.filter_knows_cons h]

/-- The value of a member takes the place of the member. -/
theorem Field.due_none_cons {α : Type} {f : Field α} {m : String × Json} (h : f.knows m.1 = true)
    (members : List (String × Json)) : f.due none (m :: members) =
      (f.codec.decode .refused m.2).bind fun x => f.due (some x) members := by
  unfold Field.due
  rw [Field.filter_knows_cons h]
  cases members.filter fun m => f.knows m.1 with
  | nil => cases hm : f.codec.decode .refused m.2 <;> simp [hm]
  | cons m' ms => cases f.codec.decode .refused m.2 <;> rfl

theorem Field.due_cons_of_not_knows {α : Type} {f : Field α} {m : String × Json}
    (h : f.knows m.1 = false) (slot : Option α) (members : List (String × Json)) :
    f.due slot (m :: members) = f.due slot members := by
  have hfilter : (m :: members).filter (fun m => f.knows m.1) =
      members.filter fun m => f.knows m.1 := List.filter_cons_of_neg (Bool.eq_false_iff.mp h)
  unfold Field.due
  rw [hfilter]

theorem Field.due_nil {α : Type} (f : Field α) (slot : Option α) :
    f.due slot [] = slot.or f.absent := by
  cases slot <;> rfl

namespace Fields

variable {β σ : Type}

/-- The codec of each field reads what it decodes. -/
def Agree : {β σ : Type} → Fields β σ → Prop
  | _, _, .nil => True
  | _, _, .cons f fs => f.codec.Agrees ∧ fs.Agree

/-- The codec of each field reads what it decodes of what a reader of documents reads. -/
def AgreeWith (reader : Read Json) : {β σ : Type} → Fields β σ → Prop
  | _, _, .nil => True
  | _, _, .cons f fs => f.codec.AgreesWith reader ∧ fs.AgreeWith reader

theorem Agree.agreeWith {fs : Fields β σ} (h : fs.Agree) (depth : Nat) :
    fs.AgreeWith (Json.read depth) := by
  induction fs with
  | nil => trivial
  | cons f fs ih => exact ⟨h.1 depth, ih h.2⟩

variable {reader : Read Json}

/-! ## Records in array form -/

/-- Fields behind the end of an array take the values for their absence. -/
theorem toOption_rest (wanted : String) (fs : Fields β σ) (index : Nat) :
    (fs.rest wanted index).toOption = fs.ofItems .refused [] := by
  induction fs generalizing index with
  | nil => rfl
  | cons f fs ih =>
    rw [rest, ofItems]
    cases f.absent with
    | none => rfl
    | some x =>
      simp only [toOption_map, ih]
      cases fs.ofItems .refused [] <;> rfl

/-- No array ends where an item begins. -/
theorem toOption_close {first : Bool} {cs : List Char} {t : Tail cs}
    (h : nextItem first cs = .ok (.item t)) : (close cs).toOption = none := by
  obtain ⟨c, q, hq, hcase⟩ := nextItem_eq_ok h
  have hc : c ≠ ']' := by
    rcases hcase with ⟨-, heq⟩ | ⟨hc, -, -⟩ | ⟨rfl, -, -⟩
    · cases heq
    · exact hc
    · decide
  rw [close, hq]
  simp only [if_neg hc]
  split
  · split <;> rfl
  · rfl

/-- An array that is read as a document is read as a record if its items stand for the fields. -/
theorem toOption_readInOrder {fs : Fields β σ} (h : fs.AgreeWith reader) (wanted : String)
    (index : Nat) {first : Bool} {cs : List Char} {vs : List Json} {r : Rest cs}
    (hread : items reader first cs = .ok (vs, r)) :
    (fs.readInOrder wanted index first cs).toOption =
      (fs.ofItems .refused vs).map fun xs => (xs, r) := by
  induction fs generalizing index first cs vs with
  | nil =>
    rw [items] at hread
    split at hread
    · cases hread
    · rename_i q hstep
      obtain ⟨rfl, rfl⟩ := Prod.mk.inj (Except.ok.inj hread)
      obtain ⟨c, q', hq', ⟨rfl, heq⟩ | ⟨-, -, heq⟩ | ⟨-, -, heq⟩⟩ := nextItem_eq_ok hstep
      · obtain rfl := ItemStep.done.inj heq
        rw [readInOrder, close, hq']
        rfl
      · cases heq
      · cases heq
    · -- there is an item where no field is left
      rename_i t hstep
      split at hread
      · cases hread
      split at hread
      · cases hread
      obtain ⟨rfl, -⟩ := Prod.mk.inj (Except.ok.inj hread)
      rw [readInOrder, toOption_map, toOption_close hstep]
      rfl
  | cons f fs ih =>
    obtain ⟨hf, hfs⟩ := h
    rw [items] at hread
    split at hread
    · cases hread
    · rename_i q hstep
      obtain ⟨rfl, rfl⟩ := Prod.mk.inj (Except.ok.inj hread)
      rw [readInOrder, hstep]
      simp only [toOption_map, toOption_rest]
    · rename_i t hstep
      split at hread
      · cases hread
      rename_i v q hv
      split at hread
      · cases hread
      rename_i vs q' hvs
      obtain ⟨rfl, rfl⟩ := Prod.mk.inj (Except.ok.inj hread)
      have hfirst := hf t.val v q hv
      rw [readInOrder, hstep, ofItems]
      cases hx : f.codec.decode .refused v with
      | none =>
        rw [hx, Option.map_none, toOption_eq_none] at hfirst
        obtain ⟨e, he⟩ := hfirst
        simp only [he]
        rfl
      | some x =>
        rw [hx, Option.map_some, toOption_eq_some] at hfirst
        simp only [hfirst, toOption_map, ih hfs (index + 1) hvs]
        cases fs.ofItems .refused vs <;> rfl

/-! ## Records in object form -/

/-- Whether no key means two fields. -/
def distinct : {β σ : Type} → Fields β σ → Bool
  | _, _, .nil => true
  | _, _, .cons f fs => (f.key :: f.aliases).all (fun key => !fs.know key) && fs.distinct

theorem distinct_cons {α : Type} {f : Field α} {fs : Fields β σ}
    (h : (cons f fs).distinct = true) :
    (∀ key, f.knows key = true → fs.know key = false) ∧ fs.distinct = true := by
  rw [distinct, Bool.and_eq_true, List.all_eq_true] at h
  refine ⟨?_, h.2⟩
  intro key hkey
  rw [← Bool.not_eq_true']
  apply h.1
  rw [Field.knows, Bool.or_eq_true, decide_eq_true_eq, List.contains_iff_mem] at hkey
  rcases hkey with rfl | hkey
  · exact List.mem_cons_self
  · exact List.mem_cons_of_mem _ hkey

/-- The values that are due when some members have been put into the room for the fields and others
are still to come. -/
def due : {β σ : Type} → Fields β σ → σ → List (String × Json) → Option β
  | _, _, .nil, _, _ => some ()
  | _, _, .cons f fs, (slot, slots), members => do
    let x ← f.due slot members
    let xs ← fs.due slots members
    return (x, xs)

/-- Before the first member all values are still to come. -/
theorem due_empty (fs : Fields β σ) (members : List (String × Json)) :
    fs.due fs.empty members = fs.ofMembers .refused members := by
  induction fs with
  | nil => rfl
  | cons f fs ih =>
    rw [empty, due, ofMembers, ih]
    unfold Field.due
    cases members.filter fun m => f.knows m.1 with
    | nil => rfl
    | cons m ms =>
      cases ms with
      | nil => rfl
      | cons m' ms => rfl

/-- Behind the last member all values are there, or are those for their absence. -/
theorem due_nil (fs : Fields β σ) (slots : σ) : fs.due slots [] = (fs.finish slots).toOption := by
  induction fs with
  | nil => rfl
  | cons f fs ih =>
    obtain ⟨slot, slots⟩ := slots
    rw [due, finish, Field.due_nil, ih]
    cases slot.or f.absent with
    | none => rfl
    | some x =>
      simp only [toOption_map]
      cases (fs.finish slots).toOption <;> rfl

/-- A member that no field knows changes nothing. -/
theorem due_of_not_know {fs : Fields β σ} {m : String × Json} (h : fs.know m.1 = false) (slots : σ)
    (members : List (String × Json)) : fs.due slots (m :: members) = fs.due slots members := by
  induction fs with
  | nil => rfl
  | cons f fs ih =>
    obtain ⟨slot, slots⟩ := slots
    obtain ⟨hf, hfs⟩ := Bool.or_eq_false_iff.mp h
    rw [due, due, Field.due_cons_of_not_knows hf, ih hfs]

theorem offer_of_not_know {fs : Fields β σ} {key : String} (h : fs.know key = false) (slots : σ)
    (cs : List Char) : fs.offer slots key cs = none := by
  induction fs with
  | nil => rfl
  | cons f fs ih =>
    obtain ⟨slot, slots⟩ := slots
    obtain ⟨hf, hfs⟩ := Bool.or_eq_false_iff.mp h
    rw [offer_of_not_knows hf, ih hfs, Option.map_none]

/-- A member is put into the room for its field, and `rest` is left behind it; or it is refused, and
nothing is due any more. -/
def Puts (fs : Fields β σ) (slots : σ) (key : String) (v : Json) {cs : List Char} (rest : Rest cs) :
    Prop :=
  (∃ e, fs.offer slots key cs = some (.error e) ∧
      ∀ members, fs.due slots ((key, v) :: members) = none) ∨
    ∃ slots', fs.offer slots key cs = some (.ok (slots', rest)) ∧
      ∀ members, fs.due slots ((key, v) :: members) = fs.due slots' members

section Puts

variable {α : Type} {f : Field α} {fs : Fields β σ} {key : String} {cs : List Char} {v : Json}

/-- The first field takes a member that it knows and that no other field knows. -/
theorem puts_of_knows (hf : f.codec.AgreesWith reader) (hkey : f.knows key = true)
    (hfs : fs.know key = false) (slot : Option α) (slots : σ) {q : Rest cs}
    (hcolon : colon cs = .ok q) {r : Rest q.val} (hread : reader q.val = .ok (v, r)) :
    (cons f fs).Puts (slot, slots) key v (q.rest r) := by
  cases slot with
  | some x =>
    refine Or.inl ⟨.duplicateField f.key, ?_, ?_⟩
    · rw [offer, if_pos hkey]
    · intro members
      rw [due, Field.due_some_cons hkey]
      rfl
  | none =>
    have hvalue := hf q.val v r hread
    cases hx : f.codec.decode .refused v with
    | none =>
      rw [hx, Option.map_none, toOption_eq_none] at hvalue
      obtain ⟨e, he⟩ := hvalue
      refine Or.inl ⟨e, ?_, ?_⟩
      · rw [offer, if_pos hkey, hcolon]
        simp only [he]
        rfl
      · intro members
        rw [due, Field.due_none_cons hkey, hx]
        rfl
    | some x =>
      rw [hx, Option.map_some, toOption_eq_some] at hvalue
      refine Or.inr ⟨(some x, slots), ?_, ?_⟩
      · rw [offer, if_pos hkey, hcolon]
        simp only [hvalue]
        rfl
      · intro members
        rw [due, due, Field.due_none_cons hkey, due_of_not_know hfs, hx]
        rfl

/-- A member that the first field does not know is left to the others. -/
theorem puts_of_not_knows (hkey : f.knows key = false) (slot : Option α) {slots : σ} {rest : Rest cs}
    (h : fs.Puts slots key v rest) : (cons f fs).Puts (slot, slots) key v rest := by
  rcases h with ⟨e, he, hnone⟩ | ⟨slots', hslots, hdue⟩
  · refine Or.inl ⟨e, ?_, ?_⟩
    · rw [offer_of_not_knows hkey, he]
      rfl
    · intro members
      rw [due, hnone]
      simp
  · refine Or.inr ⟨(slot, slots'), ?_, ?_⟩
    · rw [offer_of_not_knows hkey, hslots]
      rfl
    · intro members
      rw [due, due, Field.due_cons_of_not_knows hkey, hdue]

end Puts

/-- A member that a field knows is put into the room for it, or nothing is due any more. -/
theorem puts_of_know {fs : Fields β σ} (h : fs.AgreeWith reader) (hdistinct : fs.distinct = true)
    {key : String} (hknow : fs.know key = true) (slots : σ) {cs : List Char} {q : Rest cs}
    (hcolon : colon cs = .ok q) {v : Json} {r : Rest q.val} (hread : reader q.val = .ok (v, r)) :
    fs.Puts slots key v (q.rest r) := by
  induction fs with
  | nil => cases hknow
  | cons f fs ih =>
    obtain ⟨slot, slots⟩ := slots
    obtain ⟨hf, hfs⟩ := h
    obtain ⟨hother, hdistinct⟩ := distinct_cons hdistinct
    by_cases hkey : f.knows key = true
    · exact puts_of_knows hf hkey (hother key hkey) slot slots hcolon hread
    · rw [know, Bool.or_eq_true] at hknow
      have hlater := ih hfs hdistinct (hknow.resolve_left hkey) slots
      exact puts_of_not_knows (Bool.eq_false_iff.mpr hkey) slot hlater

/-- What is left behind the last member is left behind those before it too. -/
theorem finish_behind {fs : Fields β σ} {cs more : List Char} {found : Option (σ × Rest more)}
    {xs : Option β} {r : Rest more}
    (h : (found.bind fun x => (fs.finish x.1).toOption.map fun xs => (xs, x.2)) =
      xs.map fun xs => (xs, r)) (g : Rest more → Rest cs) :
    ((found.map fun x => (x.1, g x.2)).bind fun x =>
        (fs.finish x.1).toOption.map fun xs => (xs, x.2)) =
      xs.map fun xs => (xs, g r) := by
  have hmap := congrArg (Option.map fun x => (x.1, g x.2)) h
  simp only [Option.map_bind, Option.map_map, Function.comp_def] at hmap
  simp only [Option.bind_map, Function.comp_def]
  exact hmap

/-- An object that is read as a document fills the room for the fields with the values that are
due. -/
theorem toOption_fill {fs : Fields β σ} (h : fs.AgreeWith reader)
    (hskip : ∀ cs v r, reader cs = .ok (v, r) → skip cs = .ok r) (hdistinct : fs.distinct = true)
    {first : Bool} {cs : List Char} {ms : List (String × Json)} {r : Rest cs}
    (hread : members reader first cs = .ok (ms, r)) (slots : σ) :
    ((fs.fill slots first cs).toOption.bind fun found =>
        (fs.finish found.1).toOption.map fun xs => (xs, found.2)) =
      (fs.due slots ms).map fun xs => (xs, r) := by
  fun_induction members reader first cs generalizing ms slots with
  | case1 => cases hread
  | case2 first cs q hstep =>
    obtain ⟨rfl, rfl⟩ := Prod.mk.inj (Except.ok.inj hread)
    rw [fill, hstep, due_nil]
    rfl
  | case3 => cases hread
  | case4 => cases hread
  | case5 => cases hread
  | case6 first cs key r₁ hstep r₂ hcolon v r₃ hv ms r₄ hms ih =>
    obtain ⟨rfl, rfl⟩ := Prod.mk.inj (Except.ok.inj hread)
    rw [fill, hstep]
    -- a member that no field knows is skipped, which comes to reading it and forgetting the value
    by_cases hknow : fs.know key = true
    · rcases puts_of_know h hdistinct hknow slots hcolon hv with
        ⟨e, he, hnone⟩ | ⟨slots', hslots, hdue⟩
      · simp only [he, hnone]
        rfl
      · simp only [hslots, hdue, toOption_map]
        exact finish_behind (ih hms slots') (r₁.rest (r₂.rest r₃)).rest
    · have hnot := Bool.eq_false_iff.mpr hknow
      have hskip : skipMember r₁.val = .ok (r₂.rest r₃) := by
        rw [skipMember, hcolon]
        simp only [hskip _ _ _ hv]
        rfl
      have hdue := due_of_not_know (m := (key, v)) hnot slots ms
      simp only [offer_of_not_know hnot, hskip, hdue, toOption_map]
      exact finish_behind (ih hms slots) (r₁.rest (r₂.rest r₃)).rest

end Fields

namespace Codec

/-- **A record is read as it is decoded**, in either form, if its fields are. -/
theorem agrees_record {β σ : Type} (title : String) {fs : Fields β σ} (h : fs.Agree)
    (hdistinct : fs.distinct = true) : (record title fs).Agrees := by
  intro depth cs v r hread
  obtain ⟨c, q, t, hq, hreading, rfl⟩ := reading_of_read hread
  rw [record]
  simp only [hq]
  cases hreading with
  | array hvs =>
    simp only [if_true, toOption_map, Fields.toOption_readInOrder (h.agreeWith _) _ _ hvs,
      Option.map_map]
    rfl
  | object hms =>
    have hfill := Fields.finish_behind (Fields.toOption_fill (h.agreeWith _)
      (fun _ _ _ => skip_of_read) hdistinct hms fs.empty) q.rest
    rw [Fields.due_empty] at hfill
    simp only [show ¬('\x7b' = '[') by decide, if_false, if_true]
    refine Eq.trans ?_ hfill
    cases fs.fill fs.empty true q.val with
    | error e => rfl
    | ok found => exact toOption_map _
  | string | null | true | false => rfl
  | number hc =>
    obtain ⟨⟨-, hlist, hobject⟩, -⟩ := of_startsNumber hc
    simp only [hlist, hobject, if_false]
    rfl

/-- A text that is one document is parsed as what the document stands for. -/
theorem toOption_parse {α : Type} {c : Codec α} (h : c.Agrees) {depth : Nat} {text : List Char}
    {v : Json} {r : Rest text} (hread : Json.read depth text = .ok (v, r))
    (hend : atEnd r.val = true) : (c.parse text).toOption = c.decode .refused v := by
  have hvalue := h depth text v r hread
  rw [parse]
  cases hx : c.decode .refused v with
  | none =>
    rw [hx, Option.map_none, toOption_eq_none] at hvalue
    obtain ⟨e, he⟩ := hvalue
    rw [he]
    rfl
  | some x =>
    rw [hx, Option.map_some, toOption_eq_some] at hvalue
    rw [hvalue]
    simp only [hend, if_true]
    rfl

end Codec

end SuffixLint
