import Mathlib.Data.List.Perm.Basic
import SuffixLint.Proofs.Json.Glance
/-!
# Objects as records

An object as it is written: members in an order, each with a key that says a string and with a
document as its value. What a record with fields of plain values makes of it is said for each field
on its own, by what the members tell of the keys of the field (`told`, `Field.given`): nothing, one
value, or too much (`Fields.ofMembers_cons`). So neither the order of the members nor a member with
any other key makes a difference (`Fields.ofMembers_congr`).
-/

namespace SuffixLint

open Json Lexeme Text

namespace Json

/-- A member of an object as it is written, with what its key says. -/
structure Member where
  keyText : List Char
  valueText : List Char
  key : String
  saysKey : Says keyText (.string key)
  isDocument : IsDocument valueText

/-- The texts of the key and the value. -/
def Member.texts (m : Member) : List Char × List Char :=
  (m.keyText, m.valueText)

/-- What is seen of a member at a glance. -/
def Member.seen (m : Member) : String × Json :=
  (m.key, worth m.valueText)

/-- A text that is an object of these members, in this order. -/
inductive IsObjectOf : List Member → List Char → Prop
  | empty {sp : List Char} (h : Spaces sp) : IsObjectOf [] ('\x7b' :: (sp ++ ['\x7d']))
  | members (m : Member) (ms : List Member) : IsObjectOf (m :: ms)
    ('\x7b' :: ([','].intercalate ((m :: ms).map fun m => memberText m.texts) ++ ['\x7d']))
  | spaced {ms : List Member} {before t behind : List Char} (hbefore : Spaces before)
    (h : IsObjectOf ms t) (hbehind : Spaces behind) : IsObjectOf ms (before ++ (t ++ behind))

/-- What members tell of some keys: those keys among theirs, each with the text of its value. -/
def told (ms : List Member) (keys : List String) : List (String × List Char) :=
  (ms.filter fun m => m.key ∈ keys).map fun m => (m.key, m.valueText)

/-- What is told of some keys among others is told among what is told of those. -/
theorem told_eq_filter (ms : List Member) {keys keys' : List String} (h : keys ⊆ keys') :
    told ms keys = (told ms keys').filter fun m => m.1 ∈ keys := by
  have hboth : ∀ m : Member, (decide (m.key ∈ keys) && decide (m.key ∈ keys')) =
      decide (m.key ∈ keys) := by
    intro m
    by_cases hm : m.key ∈ keys
    · rw [decide_eq_true hm, decide_eq_true (h hm), Bool.and_self]
    · rw [decide_eq_false hm, Bool.false_and]
  rw [told, told, List.filter_map, List.filter_filter]
  simp only [Function.comp_def, hboth]

theorem told_perm {ms ms' : List Member} {keys keys' : List String} (h : keys ⊆ keys')
    (hperm : (told ms keys').Perm (told ms' keys')) : (told ms keys).Perm (told ms' keys) := by
  rw [told_eq_filter ms h, told_eq_filter ms' h]
  exact hperm.filter _

theorem mem_told {ms : List Member} {keys : List String} {m : Member} (hm : m ∈ ms)
    (hkey : m.key ∈ keys) : (m.key, m.valueText) ∈ told ms keys := by
  apply List.mem_map_of_mem
  rw [List.mem_filter, decide_eq_true_eq]
  exact ⟨hm, hkey⟩

theorem isDocument_of_mem_told {ms : List Member} {keys : List String} {m : String × List Char}
    (hm : m ∈ told ms keys) : IsDocument m.2 := by
  obtain ⟨n, -, rfl⟩ := List.mem_map.mp hm
  exact n.isDocument

end Json

/-- The value of a field, by what is told of its keys. -/
def Field.given {α : Type} (f : Field α) : List (String × List Char) → Option α
  | [] => f.absent
  | [m] => valueOf f.codec.read m.2
  | _ => none

theorem Field.given_perm {α : Type} (f : Field α) {ts ts' : List (String × List Char)}
    (h : ts.Perm ts') : f.given ts = f.given ts' := by
  cases ts with
  | nil => rw [h.nil_eq]
  | cons t ts =>
    cases ts with
    | nil => rw [List.singleton_perm.mp h]
    | cons u ts =>
      have hlength := h.length_eq
      cases ts' with
      | nil => cases hlength
      | cons t' ts' =>
        cases ts' with
        | nil => cases Nat.succ.inj hlength
        | cons u' ts' => rfl

/-- The value of a field is given by one value that says it, or by nothing. -/
theorem Field.given_eq_some {α : Type} {f : Field α} (hf : f.codec.Scalar)
    {ts : List (String × List Char)} (hts : ∀ m ∈ ts, IsDocument m.2) {x : α} :
    f.given ts = some x ↔ ts = [] ∧ f.absent = some x ∨
      ∃ m v, ts = [m] ∧ Says m.2 v ∧ f.codec.decode .refused v = some x := by
  cases ts with
  | nil => simp [Field.given]
  | cons m ts =>
    cases ts with
    | cons m' ts => simp [Field.given]
    | nil =>
      have hone := hf.valueOf_iff (hts m List.mem_cons_self) x
      rw [Field.given, hone]
      constructor
      · rintro ⟨v, hv, hx⟩
        exact Or.inr ⟨m, v, rfl, hv, hx⟩
      · rintro (⟨hnil, -⟩ | ⟨m', v, heq, hv, hx⟩)
        · cases hnil
        · rw [List.singleton_inj.mp heq]
          exact ⟨v, hv, hx⟩

section Given

variable {α : Type} {c : Codec α} {ts : List (String × List Char)}

/-- A field that has to be given is given by one value, which says what is written for it. -/
theorem Field.given_required {f : Field α} (hf : f.codec.Scalar)
    (hexact : ∀ v x, f.codec.decode .refused v = some x ↔ v = f.codec.encode x)
    (habsent : f.absent = none) (hts : ∀ m ∈ ts, IsDocument m.2) {x : α} :
    f.given ts = some x ↔ ∃ m, ts = [m] ∧ Says m.2 (f.codec.encode x) := by
  rw [f.given_eq_some hf hts, habsent]
  simp only [hexact]
  constructor
  · rintro (⟨-, hnone⟩ | ⟨m, v, hm, htext, rfl⟩)
    · cases hnone
    · exact ⟨m, hm, htext⟩
  · rintro ⟨m, hm, htext⟩
    exact Or.inr ⟨m, _, hm, htext, rfl⟩

/-- An optional field is given by nothing, by `null`, or by one value that says it. -/
theorem Field.given_optional {f : Field (Option α)} (hcodec : f.codec = c.option) (hc : c.Scalar)
    (hexact : ∀ v x, c.decode .refused v = some x ↔ v = c.encode x)
    (hnull : ∀ x, c.encode x ≠ .null) (habsent : f.absent = some none)
    (hts : ∀ m ∈ ts, IsDocument m.2) {o : Option α} :
    f.given ts = some o ↔ ts = [] ∧ o = none ∨
      ∃ m, ts = [m] ∧ (Says m.2 .null ∧ o = none ∨ ∃ x, Says m.2 (c.encode x) ∧ o = some x) := by
  have hf : f.codec.Scalar := hcodec ▸ Codec.scalar_option hc
  have hnone : c.decode .refused .null = none := by
    cases hx : c.decode .refused .null with
    | none => rfl
    | some x => exact absurd ((hexact _ _).mp hx).symm (hnull x)
  rw [f.given_eq_some hf hts, habsent, hcodec]
  simp only [Codec.decode_option_eq_some hnone, hexact, Option.some.injEq]
  constructor
  · rintro (⟨hnil, rfl⟩ | ⟨m, v, hm, htext, ⟨rfl, rfl⟩ | ⟨x, rfl, rfl⟩⟩)
    · exact Or.inl ⟨hnil, rfl⟩
    · exact Or.inr ⟨m, hm, Or.inl ⟨htext, rfl⟩⟩
    · exact Or.inr ⟨m, hm, Or.inr ⟨x, htext, rfl⟩⟩
  · rintro (⟨hnil, rfl⟩ | ⟨m, hm, ⟨htext, rfl⟩ | ⟨x, htext, rfl⟩⟩)
    · exact Or.inl ⟨hnil, rfl⟩
    · exact Or.inr ⟨m, .null, hm, htext, Or.inl ⟨rfl, rfl⟩⟩
    · exact Or.inr ⟨m, c.encode x, hm, htext, Or.inr ⟨x, rfl, rfl⟩⟩

end Given

theorem Field.knows_eq {α : Type} (f : Field α) (key : String) :
    f.knows key = decide (key ∈ f.key :: f.aliases) := by
  rw [Bool.eq_iff_iff, Field.knows, Bool.or_eq_true, decide_eq_true_eq, decide_eq_true_eq,
    List.contains_iff_mem, List.mem_cons, eq_comm]

namespace Fields

variable {α β σ : Type}

/-- All keys under which fields are understood. -/
def allKeys : {β σ : Type} → Fields β σ → List String
  | _, _, .nil => []
  | _, _, .cons f fs => f.key :: f.aliases ++ fs.allKeys

/-- The members of a field at a glance are those that are told of its keys. -/
theorem filter_seen (f : Field α) (ms : List Member) :
    (ms.map Member.seen).filter (fun m => f.knows m.1) =
      (told ms (f.key :: f.aliases)).map fun m => (m.1, worth m.2) := by
  rw [List.filter_map, told, List.map_map]
  simp only [Function.comp_def, Member.seen, f.knows_eq]
  rfl

/-- The values of the fields among members are given by what is told of each. -/
theorem ofMembers_cons {f : Field α} (hf : f.codec.Scalar) (fs : Fields β σ) (ms : List Member) :
    (cons f fs).ofMembers .refused (ms.map Member.seen) =
      (f.given (told ms (f.key :: f.aliases))).bind fun x =>
        (fs.ofMembers .refused (ms.map Member.seen)).map fun xs => (x, xs) := by
  have hdocuments : ∀ m ∈ told ms (f.key :: f.aliases), IsDocument m.2 :=
    fun m hm => isDocument_of_mem_told hm
  rw [ofMembers, filter_seen]
  generalize fs.ofMembers .refused (ms.map Member.seen) = others
  cases hts : told ms (f.key :: f.aliases) with
  | nil =>
    rw [Field.given]
    cases f.absent with
    | none => rfl
    | some x => cases others <;> rfl
  | cons m ts =>
    cases ts with
    | cons m' ts => rfl
    | nil =>
      have hvalue := hf.decode_worth (hdocuments m (hts ▸ List.mem_cons_self))
      rw [Field.given, ← hvalue]
      change ((f.codec.decode .refused (worth m.2)).bind fun x =>
        others.bind fun xs => some (x, xs)) = _
      cases f.codec.decode .refused (worth m.2) with
      | none => rfl
      | some x => cases others <;> rfl

theorem ofMembers_cons_eq_some {f : Field α} (hf : f.codec.Scalar) {fs : Fields β σ}
    {ms : List Member} {x : α} {xs : β} :
    (cons f fs).ofMembers .refused (ms.map Member.seen) = some (x, xs) ↔
      f.given (told ms (f.key :: f.aliases)) = some x ∧
        fs.ofMembers .refused (ms.map Member.seen) = some xs := by
  rw [ofMembers_cons hf]
  simp only [Option.bind_eq_some_iff, Option.map_eq_some_iff, Prod.mk.injEq]
  constructor
  · rintro ⟨x', hx, xs', hxs, rfl, rfl⟩
    exact ⟨hx, hxs⟩
  · rintro ⟨hx, hxs⟩
    exact ⟨x, hx, xs, hxs, rfl, rfl⟩

/-- **Order and unknown members make no difference**: members that tell the same of the keys of the
fields, in whatever order, give the fields the same values. -/
theorem ofMembers_congr {fs : Fields β σ} (h : fs.Scalars) {ms ms' : List Member}
    (hperm : (told ms fs.allKeys).Perm (told ms' fs.allKeys)) :
    fs.ofMembers .refused (ms.map Member.seen) = fs.ofMembers .refused (ms'.map Member.seen) := by
  induction fs with
  | nil => rfl
  | cons f fs ih =>
    have hfirst := f.given_perm (told_perm (List.subset_append_left _ _) hperm)
    have hothers := ih h.2 (told_perm (List.subset_append_right _ _) hperm)
    rw [ofMembers_cons h.1, ofMembers_cons h.1, hfirst, hothers]

end Fields

namespace Codec

variable {β σ : Type}

/-- **An object is read as a record by its members**, whatever they hold. -/
theorem settles_record_of_isObjectOf (title : String) {fs : Fields β σ} (h : fs.Scalars)
    (hdistinct : fs.distinct = true) {ms : List Member} {t : List Char} (ht : IsObjectOf ms t) :
    Settles (record title fs).read t (fs.ofMembers .refused (ms.map Member.seen)) := by
  have hgoes := goesBy_record title h hdistinct
  induction ht with
  | @empty sp hsp =>
    apply hgoes.settles (by decide)
    intro rest _
    rw [recordBehind, if_neg (by decide), if_pos rfl, List.append_assoc, List.singleton_append,
      plain_members_end true hsp]
    rfl
  | members m ms =>
    generalize m :: ms = all
    have hkeys : ∀ n ∈ all.map Member.texts, IsKey n.1 := by
      intro n hn
      obtain ⟨m, -, rfl⟩ := List.mem_map.mp hn
      exact m.saysKey.isKey
    have hvalues : ∀ n ∈ all.map Member.texts, IsDocument n.2 := by
      intro n hn
      obtain ⟨m, -, rfl⟩ := List.mem_map.mp hn
      exact m.isDocument
    have hseen : (all.map Member.texts).mapM (memberOf glance) = some (all.map Member.seen) := by
      apply mapM_map_eq_some
      intro m _
      change ((keyOf m.keyText).bind fun key => (valueOf glance m.valueText).bind fun x =>
        some (key, x)) = some m.seen
      rw [m.saysKey.keyOf_eq_some, (settles_glance m.isDocument).valueOf_eq]
      rfl
    have hobject := settles_record_object title h hdistinct hkeys hvalues
    rw [hseen, List.map_map] at hobject
    exact hobject
  | spaced hbefore _ hbehind ih => exact hgoes.settles_spaced ih hbefore hbehind

end Codec

end SuffixLint
