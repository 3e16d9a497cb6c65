import SuffixLint.DeclarationFile
import SuffixLint.Proofs.Json.Members
/-!
# Declarations as objects

What the members of an object have to tell for it to be a declaration (`Tells`): the name once, as a
string; the flag once, as a truth value under either of its keys; and file and line at most once,
where `null` says the same as nothing. An object is parsed as a declaration just if its members tell
of it (`parse_members`), in any order and among any other members, be these nested, large or repeated.
-/

namespace SuffixLint

open Json

namespace Declaration

/-- The keys that a declaration knows. -/
def keys : List String :=
  ["name", "is_async", "async", "file", "line"]

/-- What members tell is a declaration. -/
structure Tells (ms : List Member) (d : Declaration) : Prop where
  name : ∃ m, told ms ["name"] = [m] ∧ Says m.2 (.string d.name)
  isAsync : ∃ m, told ms ["is_async", "async"] = [m] ∧ Says m.2 (.bool d.isAsync)
  file : told ms ["file"] = [] ∧ d.file = none ∨ ∃ m, told ms ["file"] = [m] ∧
    (Says m.2 .null ∧ d.file = none ∨ ∃ p : Path, Says m.2 (.string p.text) ∧ d.file = some p)
  line : told ms ["line"] = [] ∧ d.line = none ∨ ∃ m, told ms ["line"] = [m] ∧
    (Says m.2 .null ∧ d.line = none ∨ ∃ n : UInt32, Says m.2 (.nat n.toNat) ∧ d.line = some n)

theorem scalar_pathCodec : pathCodec.Scalar :=
  Codec.scalar_imap (Codec.scalar_stringAs _) _ _

theorem scalar_word32 : Codec.word32.Scalar :=
  Codec.scalar_imap (Codec.scalar_natBelow (by decide) _) _ _

theorem scalars_fields : fields.Scalars :=
  ⟨Codec.scalar_stringAs _, Codec.scalar_bool, Codec.scalar_option scalar_pathCodec,
    Codec.scalar_option scalar_word32, trivial⟩

theorem decode_pathCodec {s : Surplus} {v : Json} {p : Path} :
    pathCodec.decode s v = some p ↔ v = .string p.text := by
  change ((Codec.stringAs _).decode s v).map Path.mk = some p ↔ _
  simp only [Option.map_eq_some_iff, Codec.decode_stringAs]
  constructor
  · rintro ⟨text, rfl, rfl⟩
    rfl
  · rintro rfl
    exact ⟨p.text, rfl, rfl⟩

/-- The fields get the values that the members tell. -/
theorem ofMembers_fields {ms : List Member} {d : Declaration} :
    fields.ofMembers .refused (ms.map Member.seen) = some (d.name, d.isAsync, d.file, d.line, ()) ↔
      Tells ms d := by
  have hdocuments : ∀ keys, ∀ m ∈ told ms keys, IsDocument m.2 := fun _ _ => isDocument_of_mem_told
  have hname := Field.given_required (f := ⟨"name", [], Codec.string, none, fun _ => false⟩)
    (Codec.scalar_stringAs _) (fun _ _ => Codec.decode_stringAs) rfl (hdocuments ["name"])
    (x := d.name)
  have hasync := Field.given_required
    (f := ⟨"is_async", ["async"], Codec.bool, none, fun _ => false⟩) Codec.scalar_bool
    (fun _ _ => Codec.decode_bool) rfl (hdocuments ["is_async", "async"]) (x := d.isAsync)
  -- neither a path nor a number is written as `null`
  have hfile := Field.given_optional
    (f := ⟨"file", [], pathCodec.option, some none, Option.isNone⟩) rfl scalar_pathCodec
    (fun _ _ => decode_pathCodec) (by intro x h; cases h) rfl (hdocuments ["file"]) (o := d.file)
  have hline := Field.given_optional
    (f := ⟨"line", [], Codec.word32.option, some none, Option.isNone⟩) rfl scalar_word32
    (fun _ _ => Codec.decode_word32) (by intro x h; cases h) rfl (hdocuments ["line"]) (o := d.line)
  rw [fields, Fields.ofMembers_cons_eq_some (Codec.scalar_stringAs _),
    Fields.ofMembers_cons_eq_some Codec.scalar_bool,
    Fields.ofMembers_cons_eq_some (Codec.scalar_option scalar_pathCodec),
    Fields.ofMembers_cons_eq_some (Codec.scalar_option scalar_word32), hname, hasync, hfile, hline]
  constructor
  · rintro ⟨hname, hasync, hfile, hline, -⟩
    exact ⟨hname, hasync, hfile, hline⟩
  · rintro ⟨hname, hasync, hfile, hline⟩
    exact ⟨hname, hasync, hfile, hline, rfl⟩

/-- An object is parsed as what its members are for the fields. -/
theorem toOption_parse_members {ms : List Member} {t : List Char} (ht : IsObjectOf ms t) :
    (codec.parse t).toOption = (fields.ofMembers .refused (ms.map Member.seen)).map
      fun (name, isAsync, file, line, _) => ⟨name, isAsync, file, line⟩ := by
  have hrecord := Codec.settles_record_of_isObjectOf "Declaration" scalars_fields (by decide) ht
  have hcodec : Settles codec.read t _ := Codec.settles_imap hrecord _ _
  have hparse := Codec.toOption_parse_append hcodec Lexeme.spaces_nil
  rw [List.append_nil] at hparse
  exact hparse

theorem parse_eq_ok_iff {ms : List Member} {t : List Char} (ht : IsObjectOf ms t)
    {d : Declaration} : codec.parse t = .ok d ↔ Tells ms d := by
  rw [← toOption_eq_some, toOption_parse_members ht, ← ofMembers_fields, Option.map_eq_some_iff]
  constructor
  · rintro ⟨⟨name, isAsync, file, line, ⟨⟩⟩, hvalues, rfl⟩
    exact hvalues
  · intro hvalues
    exact ⟨_, hvalues, rfl⟩

/-- **Objects as declarations.** An object is parsed as a declaration just if its members tell of it,
so members that tell the same of the known keys, in whatever order and among whatever other members,
have the same result; and no object with members under both keys of the flag is a declaration. -/
theorem parse_members {ms : List Member} {t : List Char} (h : IsObjectOf ms t) :
    (∀ d, codec.parse t = .ok d ↔ Tells ms d) ∧
    (∀ ms' t', IsObjectOf ms' t' → (told ms' keys).Perm (told ms keys) →
      (codec.parse t').toOption = (codec.parse t).toOption) ∧
    (∀ m ∈ ms, ∀ m' ∈ ms, m.key = "is_async" → m'.key = "async" → ∃ e, codec.parse t = .error e) := by
  refine ⟨fun d => parse_eq_ok_iff h, ?_, ?_⟩
  · intro ms' t' h' hperm
    rw [toOption_parse_members h', toOption_parse_members h,
      Fields.ofMembers_congr scalars_fields hperm]
  · intro m hm m' hm' hkey hkey'
    cases hparse : codec.parse t with
    | error e => exact ⟨e, rfl⟩
    | ok d =>
      obtain ⟨n, hn, -⟩ := ((parse_eq_ok_iff h).mp hparse).isAsync
      have hone : (m.key, m.valueText) ∈ told ms ["is_async", "async"] :=
        mem_told hm (by rw [hkey]; decide)
      have hother : (m'.key, m'.valueText) ∈ told ms ["is_async", "async"] :=
        mem_told hm' (by rw [hkey']; decide)
      -- the one member that tells of the flag would have both keys
      rw [hn, List.mem_singleton] at hone hother
      have hsame : m.key = m'.key := congrArg Prod.fst (hone.trans hother.symm)
      rw [hkey, hkey'] at hsame
      exact absurd hsame (by decide)

/-- A member that no declaration knows stands before the others, and is passed over. -/
theorem parse_members_unknown :
    let unknown : Member :=
      ⟨writeString "x", "[null]".toList, "x", says_writeString "x",
        @IsDocument.array "null".toList [] (List.forall_mem_singleton.mpr .null)⟩
    let isAsync : Member :=
      ⟨writeString "async", "true".toList, "async", says_writeString "async", .true⟩
    let name : Member :=
      ⟨writeString "name", writeString "B", "name", says_writeString "name",
        (says_writeString "B").isDocument⟩
    IsObjectOf [unknown, isAsync, name]
        "\x7b\"x\":[null],\"async\":true,\"name\":\"B\"\x7d".toList ∧
      codec.parse "\x7b\"x\":[null],\"async\":true,\"name\":\"B\"\x7d".toList =
        .ok ⟨"B", true, none, none⟩ := by
  intro unknown isAsync name
  have hobject : IsObjectOf [unknown, isAsync, name]
      "\x7b\"x\":[null],\"async\":true,\"name\":\"B\"\x7d".toList :=
    IsObjectOf.members unknown [isAsync, name]
  refine ⟨hobject, ((parse_members hobject).1 _).mpr ?_⟩
  exact ⟨⟨_, rfl, says_writeString "B"⟩, ⟨_, rfl, .true⟩, Or.inl ⟨rfl, rfl⟩, Or.inl ⟨rfl, rfl⟩⟩

end Declaration

end SuffixLint
