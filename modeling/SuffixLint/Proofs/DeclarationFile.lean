import SuffixLint.Input
import SuffixLint.Proofs.Disk.Write
import SuffixLint.Proofs.Json.OneLine
import SuffixLint.Proofs.Json.Record
/-!
# Declarations written and read back

Declarations may be handed over in three forms: as a list, as an object with the list in it, and as
lines. Written in any of them, they come back as they were, whatever their names and paths are made
of. The first two forms are read into memory and decoded from there, the third is read in one pass,
so both halves of `Codec.Restores` are needed.
-/

namespace SuffixLint

open Json Text

namespace Declaration

theorem restores_pathCodec (p : Path) : pathCodec.Restores p :=
  Codec.restores_imap (Codec.restores_stringAs _ p.text) rfl

/-- A declaration comes back, with what is not known of its place left out. -/
theorem restores_codec (d : Declaration) : codec.Restores d := by
  have hfile : pathCodec.option.Restores d.file :=
    Codec.restores_option (fun p _ => restores_pathCodec p) fun _ => nofun
  have hline : Codec.word32.option.Restores d.line :=
    Codec.restores_option (fun n _ => Codec.restores_word32 n) fun _ => nofun
  refine Codec.restores_imap (Codec.restores_record "Declaration" ?_ (by decide)) rfl
  exact ⟨Codec.restores_stringAs _ d.name, Codec.restores_bool d.isAsync,
    Fields.restore_maybe hfile, Fields.restore_maybe hline, trivial⟩

/-- A declaration is an object of strings, a truth value and a number of 32 bits. -/
theorem readable_encode (depth : Nat) (d : Declaration) :
    Readable (depth + 1) (codec.encode d) := by
  apply Codec.readable_record "Declaration"
  refine ⟨fun _ => .string d.name, fun _ => .bool d.isAsync, ?_, ?_, trivial⟩
  · rcases d.file with _ | p
    · exact nofun
    · exact fun _ => .string p.text
  · rcases d.line with _ | n
    · exact nofun
    · exact fun _ => .nat (Nat.lt_trans n.toNat_lt_size (by decide))

end Declaration

namespace DeclarationFile

/-! ## The three forms -/

/-- Declarations as a list. -/
def listing (ds : List Declaration) : Json :=
  Declaration.codec.list.encode ds

/-- Declarations as an object that holds the list of them. -/
def wrapped (ds : List Declaration) : Json :=
  .object [("declarations", listing ds)]

/-- Declarations as lines. -/
def linesText (ds : List Declaration) : String :=
  String.intercalate "\n" (ds.map fun d => (Declaration.codec.encode d).compactText)

/-! ## Documents -/

theorem readable_listing (depth : Nat) (ds : List Declaration) :
    Readable (depth + 2) (listing ds) := by
  apply Readable.array
  intro v hv
  obtain ⟨d, -, rfl⟩ := List.mem_map.mp hv
  exact d.readable_encode depth

theorem readable_wrapped (depth : Nat) (ds : List Declaration) :
    Readable (depth + 3) (wrapped ds) := by
  apply Readable.object
  intro m hm
  rw [List.mem_singleton.mp hm]
  exact readable_listing depth ds

theorem declarations?_listing (ds : List Declaration) : declarations? (listing ds) = some ds :=
  (Codec.restores_list fun d _ => d.restores_codec).decode .refused

theorem declarations?_wrapped (ds : List Declaration) : declarations? (wrapped ds) = some ds :=
  declarations?_listing ds

/-- A document is taken for what it lists, in whichever layout it is written. -/
theorem ofDocument_render {v : Json} (hv : Readable depthLimit v) (l : Layout) (level : Nat) :
    ofDocument (l.render level v) = match declarations? v with
      | none => .error .noForm
      | some ds => .ok ds := by
  have hread := readsBack_read hv l level [] [] Lexeme.spaces_nil Lexeme.endsNumber_nil
  rw [List.nil_append, List.append_nil] at hread
  obtain ⟨r, hr, hval⟩ := hread
  rw [ofDocument, hr]
  simp only [hval]
  rfl

/-! ## Lines -/

/-- A line that holds a declaration is not blank, since it begins with a brace. -/
theorem allBlank_write (d : Declaration) : allBlank (Declaration.codec.encode d).write = false := by
  obtain ⟨r, hr⟩ : ∃ r, (Declaration.codec.encode d).write = '\x7b' :: r := ⟨_, write_eq_render 0 _⟩
  have hbrace : isBlank '\x7b' = false := by decide
  rw [hr, allBlank, List.all_cons, hbrace, Bool.false_and]

/-- Lines give the declarations in them. -/
theorem readLines_write (number : Nat) (ds : List Declaration) :
    readLines number (ds.map fun d => (Declaration.codec.encode d).write) = .ok ds := by
  induction ds generalizing number with
  | nil => rfl
  | cons d ds ih =>
    rw [List.map_cons, readLines, allBlank_write, if_neg Bool.false_ne_true,
      d.restores_codec.parse_write, ih (number + 1)]
    rfl

theorem lines_linesText (ds : List Declaration) :
    lines (linesText ds).toList = ds.map fun d => (Declaration.codec.encode d).write := by
  have hlist : (linesText ds).toList =
      ['\n'].intercalate (ds.map fun d => (Declaration.codec.encode d).write) := by
    rw [linesText, String.toList_intercalate, List.map_map]
    simp only [Function.comp_def, compactText, String.toList_ofList]
    rfl
  rw [hlist, lines_intercalate]
  intro piece hpiece
  obtain ⟨d, -, rfl⟩ := List.mem_map.mp hpiece
  exact fitsLine_write (d.readable_encode 0)

end DeclarationFile

namespace Input

open DeclarationFile

theorem parseDocument_of_readable (p : Path) {v : Json} {ds : List Declaration}
    (hv : Readable depthLimit v) (hds : declarations? v = some ds) :
    parseDocument p v.compactText = .ok ds ∧ parseDocument p v.prettyText = .ok ds := by
  unfold parseDocument compactText prettyText
  rw [String.toList_ofList, String.toList_ofList, write_eq_render 0, pretty_eq_render,
    ofDocument_render hv, ofDocument_render hv, hds]
  exact ⟨rfl, rfl⟩

theorem parseLines_linesText (p : Path) (ds : List Declaration) :
    parseLines p (linesText ds) = .ok ds := by
  unfold parseLines ofLines
  rw [lines_linesText, readLines_write]
  rfl

/-- Declarations that come as lines on standard input are loaded from there, whatever is on the
disk. -/
theorem load_linesText (d : Disk) (ds : List Declaration) :
    (load d (linesText ds).toUTF8 [standard]).value = .ok ds := by
  have hone : (loadOne d (linesText ds).toUTF8 standard).value = .ok ds := by
    unfold loadOne loadStandard
    rw [if_pos rfl, Disk.decodeText_toUTF8]
    simp only [parseLines_linesText]
    rfl
  unfold load loadEach loadEach
  simp only [Log.Logged.value_bind, hone, Log.Logged.value_pure, List.append_nil]

/-- **Declarations that are written are read back**, from a list, from an object with a list in it
and from lines. -/
theorem parse_written (p : Path) (ds : List Declaration) :
    (parseDocument p (listing ds).compactText = .ok ds ∧
        parseDocument p (listing ds).prettyText = .ok ds) ∧
      (parseDocument p (wrapped ds).compactText = .ok ds ∧
        parseDocument p (wrapped ds).prettyText = .ok ds) ∧
      parseLines p (linesText ds) = .ok ds := by
  refine ⟨?_, ?_, ?_⟩
  · exact parseDocument_of_readable p (readable_listing _ ds) (declarations?_listing ds)
  · exact parseDocument_of_readable p (readable_wrapped _ ds) (declarations?_wrapped ds)
  · exact parseLines_linesText p ds

end Input

end SuffixLint
