import SuffixLint.Proofs.Command.Setup
import SuffixLint.Proofs.Disk.Extra
import SuffixLint.Proofs.Json.Record
import SuffixLint.Proofs.Report.RoundTrip
import SuffixLint.Proofs.Toml.Document
/-!
# Settings written and loaded

Settings may be written as the tables of a TOML text or as an object, and either way they are loaded
as they were. Both texts stand for one document, which `tables` lists: a setting that is not made is
left out of it, and the two lists are always there. The readers share nothing but the codec, so what
is left to show is that each of them comes to that document, whatever the strings are and however
the text is laid out.
-/

namespace SuffixLint

/-! ## Settings as a document -/

/-- A member for a value, if there is one. -/
def memberFor {α : Type} (key : String) (write : α → Json) : Option α → List (String × Json)
  | none => []
  | some x => [(key, write x)]

/-- Two members have different keys. -/
theorem nodup_memberFor {α β : Type} {key key' : String} (h : key ≠ key') (write : α → Json)
    (write' : β → Json) (x : Option α) (y : Option β) :
    ((memberFor key write x ++ memberFor key' write' y).map Prod.fst).Nodup := by
  cases x <;> cases y <;> simp [memberFor, h]

theorem forall_mem_memberFor {α : Type} {P : Json → Prop} {write : α → Json}
    (h : ∀ x, P (write x)) (key : String) (o : Option α) : ∀ m ∈ memberFor key write o, P m.2 := by
  cases o with
  | none => exact List.forall_mem_nil _
  | some x => exact List.forall_mem_singleton.mpr (h x)

namespace Settings

/-- The tables of settings, by their names, with the keys and values in each. -/
def tables (s : Settings) : List (String × List (String × Json)) :=
  [("rule",
      memberFor "enabled" Json.bool s.rule.enabled ++
        memberFor "severity" (fun v => .string v.name) s.rule.severity),
    ("exclude",
      [("paths", .array (s.exclude.paths.map fun g => .string g.text)),
        ("names", .array (s.exclude.names.map .string))]),
    ("defaults",
      memberFor "format" Json.string s.defaults.format ++
        memberFor "fail_on" (fun v => .string v.name) s.defaults.failOn)]

/-- Settings as an object of the tables. -/
def document (s : Settings) : Json :=
  .object (s.tables.map fun t => (t.1, .object t.2))

theorem encode_eq_document (s : Settings) : codec.encode s = s.document := by
  obtain ⟨⟨enabled, severity⟩, ⟨paths, names⟩, ⟨format, failOn⟩⟩ := s
  cases enabled <;> cases severity <;> cases format <;> cases failOn <;> rfl

end Settings

/-! ## Settings come back from their document -/

theorem RuleSettings.restores_codec (r : RuleSettings) : codec.Restores r := by
  refine Codec.restores_imap (Codec.restores_record "RuleConfig" ?_ (by decide)) rfl
  refine ⟨Fields.restore_maybe ?_, Fields.restore_maybe ?_, trivial⟩
  · exact Codec.restores_option (fun b _ => Codec.restores_bool b) fun _ => nofun
  · exact Codec.restores_option (fun v _ => v.restores_codec) fun _ => nofun

theorem Exclusions.restores_codec (e : Exclusions) : codec.Restores e := by
  have hstring : ∀ s : String, Codec.string.Restores s := Codec.restores_stringAs "a string"
  refine Codec.restores_imap (Codec.restores_record "ExcludeConfig" ?_ (by decide)) rfl
  refine ⟨Codec.restores_list fun g _ => Codec.restores_imap (hstring g.text) rfl, ?_, trivial⟩
  exact Codec.restores_list fun s _ => hstring s

theorem RunDefaults.restores_codec (d : RunDefaults) : codec.Restores d := by
  refine Codec.restores_imap (Codec.restores_record "CliDefaults" ?_ (by decide)) rfl
  refine ⟨Fields.restore_maybe ?_, Fields.restore_maybe ?_, trivial⟩
  · exact Codec.restores_option (fun s _ => Codec.restores_stringAs _ s) fun _ => nofun
  · exact Codec.restores_option (fun v _ => v.restores_codec) fun _ => nofun

namespace Settings

theorem restores_codec (s : Settings) : codec.Restores s := by
  refine Codec.restores_imap (Codec.restores_record "ProjectConfig" ?_ (by decide)) rfl
  exact ⟨s.rule.restores_codec, s.exclude.restores_codec, s.defaults.restores_codec, trivial⟩

/-! ## Texts of settings -/

/-- A text in which settings are written as tables. -/
def IsToml (s : Settings) (text : String) : Prop :=
  Toml.IsText (Toml.statementsOf s.tables) text.toList

/-- A text in which settings are written as an object, maybe with spaces at its end. -/
def IsJson (s : Settings) (text : String) : Prop :=
  ∃ (l : Json.Layout) (sp : List Char), Json.Lexeme.Spaces sp ∧
    text.toList = l.render 0 s.document ++ sp

theorem nodup_keys (s : Settings) : ∀ t ∈ s.tables, (t.2.map Prod.fst).Nodup := by
  simp only [tables, List.forall_mem_cons]
  refine ⟨?_, ?_, ?_, List.forall_mem_nil _⟩
  · exact nodup_memberFor (by decide) _ _ _ _
  · change ["paths", "names"].Nodup
    decide
  · exact nodup_memberFor (by decide) _ _ _ _

/-- Whatever the settings are, they can be written as tables. -/
theorem exists_isToml (s : Settings) : ∃ text, s.IsToml text := by
  have hstring := Toml.isWritable_string Toml.depthLimit
  have hlist : ∀ {α : Type} (xs : List α) (f : α → String),
      Toml.IsWritable Toml.depthLimit (.array (xs.map fun x => .string (f x))) := by
    intro α xs f
    apply Toml.isWritable_array
    intro v hv
    obtain ⟨x, -, rfl⟩ := List.mem_map.mp hv
    exact Toml.isWritable_string _ (f x)
  have hvalues : ∀ t ∈ s.tables, ∀ m ∈ t.2, Toml.IsWritable Toml.depthLimit m.2 := by
    simp only [tables, List.forall_mem_cons, List.forall_mem_append]
    refine ⟨⟨?_, ?_⟩, ⟨?_, ?_, List.forall_mem_nil _⟩, ⟨?_, ?_⟩, List.forall_mem_nil _⟩
    · exact forall_mem_memberFor (Toml.isWritable_bool _) _ _
    · exact forall_mem_memberFor (fun v : Severity => hstring v.name) _ _
    · exact hlist s.exclude.paths Glob.text
    · exact hlist s.exclude.names id
    · exact forall_mem_memberFor hstring _ _
    · exact forall_mem_memberFor (fun v : Severity => hstring v.name) _ _
  obtain ⟨cs, hcs⟩ := Toml.exists_isText_statementsOf hvalues
  refine ⟨String.ofList cs, ?_⟩
  rwa [IsToml, String.toList_ofList]

theorem exists_isJson (s : Settings) : ∃ text, s.IsJson text := by
  refine ⟨String.ofList (Json.Layout.lines.render 0 s.document), .lines, [], ?_, ?_⟩
  · exact Json.Lexeme.spaces_nil
  · rw [String.toList_ofList, List.append_nil]

theorem readToml_of_isToml {s : Settings} {text : String} (h : s.IsToml text) :
    readToml text = .ok s := by
  have hnames : (s.tables.map Prod.fst).Nodup := by
    change ["rule", "exclude", "defaults"].Nodup
    decide
  have hdocument : Toml.ofText? text.toList = some (codec.encode s) := by
    rw [encode_eq_document]
    exact Toml.ofText?_of_isText hnames s.nodup_keys h
  have hsettings : ofToml? text = some s := by
    rw [ofToml?, hdocument, Option.bind_some, s.restores_codec.decode]
  rw [readToml, hsettings]

theorem readJson_of_isJson {s : Settings} {text : String} (h : s.IsJson text) :
    readJson text = .ok s := by
  obtain ⟨l, sp, hsp, htext⟩ := h
  have hparse := s.restores_codec.parse_render_spaces l 0 hsp
  rw [encode_eq_document, ← htext] at hparse
  rw [readJson, hparse]
  rfl

end Settings

/-! ## Directories of one file -/

namespace Disk

/-- A path leads to a directory in which a file of a name holds a text, and nothing else lies. -/
def HoldsOnly (d : Disk) (dir : Path) (name text : String) : Prop :=
  ∃ l, d.locate dir = .ok l ∧ d.at? l = some .directory ∧
    ∀ other, d.at? (l ++ [other]) = if other = name then some (.file text.toUTF8) else none

variable {d : Disk} {dir : Path} {name text : String}

theorem HoldsOnly.find (h : d.HoldsOnly dir name text) (hname : IsName name) :
    d.find (dir.join name) = .ok (.file text.toUTF8) := by
  obtain ⟨l, hdir, hl, hchildren⟩ := h
  rw [Disk.find, locate_child hdir hl hname]
  simp only [hchildren, if_true]

theorem HoldsOnly.not_holds (h : d.HoldsOnly dir name text) {other : String}
    (hother : IsName other) (hne : other ≠ name) : d.holds (dir.join other) = false := by
  obtain ⟨l, hdir, hl, hchildren⟩ := h
  rw [holds, Disk.find, locate_child hdir hl hother]
  simp only [hchildren, hne, if_false]
  rfl

/-- A file that is laid in an empty directory is all that the directory holds. -/
theorem holdsOnly_put {l : Location} (hdir : d.locate dir = .ok l)
    (hl : d.at? l = some .directory) (hempty : ∀ other, d.at? (l ++ [other]) = none)
    (name text : String) :
    (d.put (l ++ [name]) (.file text.toUTF8)).HoldsOnly dir name text := by
  have hfree : d.at? (l ++ [name]) ≠ some .directory := by
    rw [hempty]
    nofun
  refine ⟨l, locate_put hfree hdir, directory_put hfree hl, fun other => ?_⟩
  by_cases hother : other = name
  · rw [hother, at?_put, if_pos rfl]
  · have hne : l ++ [other] ≠ l ++ [name] := fun heq =>
      hother (List.singleton_inj.mp (List.append_cancel_left heq))
    rw [at?_put_of_ne (fun k => isAbove_of_directory_concat hl) hne, hempty, if_neg hother]

end Disk

/-! ## Loading -/

namespace Settings

theorem isName_jsonFileName : IsName jsonFileName := by
  decide +kernel

/-- Without a TOML file the settings in the JSON file are in force. -/
theorem value_load_of_json {d : Disk} {dir : Path} {s : Settings}
    (hfree : d.holds (dir.join tomlFileName) = false) (h : InFile d dir jsonFileName readJson s) :
    (load d dir).value = s := by
  have htoml : (tryFile d (dir.join tomlFileName) readToml).value = none := by
    rw [tryFile, if_neg (Bool.eq_false_iff.mp hfree)]
    rfl
  have hjson : (tryFile d (dir.join jsonFileName) readJson).value = some s := by
    unfold tryFile
    rw [if_pos h.holds, h.read]
    rfl
  unfold load
  rw [Log.Logged.value_bind, htoml]
  simp only [Log.Logged.value_bind, hjson]
  rfl

/-- **Settings are loaded as they were from either file.** Whatever they are, there are texts for
them of both kinds, and a directory that holds nothing but the file of such a text has just these
settings: none of its strings is changed, and nothing that was not set is. -/
theorem load_written (s : Settings) :
    (∃ text, s.IsToml text) ∧ (∃ text, s.IsJson text) ∧
      ∀ (d : Disk) (dir : Path) (text : String),
        (s.IsToml text → d.HoldsOnly dir tomlFileName text → (load d dir).value = s) ∧
        (s.IsJson text → d.HoldsOnly dir jsonFileName text → (load d dir).value = s) := by
  refine ⟨s.exists_isToml, s.exists_isJson, fun d dir text => ⟨?_, ?_⟩⟩
  · intro htext hdir
    have hfind := hdir.find Command.Setup.isName_tomlFileName
    exact value_load_of_inFile (inFile_of_find hfind (readToml_of_isToml htext))
  · -- the file with the object is asked for only where there is none with tables
    intro htext hdir
    have hfree := hdir.not_holds Command.Setup.isName_tomlFileName (by decide)
    have hfind := hdir.find isName_jsonFileName
    exact value_load_of_json hfree (inFile_of_find hfind (readJson_of_isJson htext))

/-- Settings whose strings need escapes, in the only file there is. -/
theorem load_written_escapes :
    let s : Settings :=
      { rule := ⟨some false, none⟩
        exclude := ⟨[⟨"a\"\\/**"⟩, ⟨""⟩], ["\x00\t\n\x7f", "\u2028é😀"]⟩
        defaults := ⟨some "[rule]", some .high⟩ }
    let holding (name text : String) : Disk := ({} : Disk).put [name] (.file text.toUTF8)
    ∃ toml json, s.IsToml toml ∧ s.IsJson json ∧
      (load (holding tomlFileName toml) ⟨"."⟩).value = s ∧
      (load (holding jsonFileName json) ⟨"."⟩).value = s := by
  intro s holding
  have hdir : ({} : Disk).locate ⟨"."⟩ = .ok [] := by decide +kernel
  have hholds : ∀ name text, (holding name text).HoldsOnly ⟨"."⟩ name text :=
    Disk.holdsOnly_put hdir rfl fun _ => rfl
  obtain ⟨⟨toml, htoml⟩, ⟨json, hjson⟩, hload⟩ := load_written s
  exact ⟨toml, json, htoml, hjson, (hload _ _ toml).1 htoml (hholds _ _),
    (hload _ _ json).2 hjson (hholds _ _)⟩

end Settings

end SuffixLint
