import SuffixLint.Command.Setup
import SuffixLint.Proofs.Disk.Canonical
/-!
# Setting up and the settings in force

Setting up writes example settings, and refuses to where a TOML file of settings lies already. It
looks for no other file. So settings in a TOML file stay in force, since nothing happens to the disk
(`run_of_holds`). Where that file is missing it is written (`run_of_free`), and from then on it is
looked at before any JSON file: its settings take the place of those that were in force.
-/

namespace SuffixLint

namespace Settings

/-- A directory has settings in a file of a name: the file is there and can be read. -/
structure InFile (d : Disk) (dir : Path) (name : String) (read : String → Except String Settings)
    (s : Settings) : Prop where
  holds : d.holds (dir.join name) = true
  read : ofFile d (dir.join name) read = .ok s

variable {d : Disk} {dir : Path} {s : Settings}

/-- A file that holds a text has the settings that are read from the text. -/
theorem inFile_of_find {name text : String} {read : String → Except String Settings}
    (hfind : d.find (dir.join name) = .ok (.file text.toUTF8)) (hread : read text = .ok s) :
    InFile d dir name read s := by
  refine ⟨?_, ?_⟩
  · rw [Disk.holds, hfind]
    rfl
  · unfold ofFile Disk.readText
    rw [hfind]
    simp only [Disk.decodeText_toUTF8, hread]

/-- **Settings in the TOML file of a directory are in force**, whatever else the directory holds. -/
theorem value_load_of_inFile (h : InFile d dir tomlFileName readToml s) : (load d dir).value = s := by
  have htry : (tryFile d (dir.join tomlFileName) readToml).value = some s := by
    unfold tryFile
    rw [if_pos h.holds, h.read]
    rfl
  unfold load
  rw [Log.Logged.value_bind, htry]
  rfl

end Settings

namespace Command.Setup

open Settings

/-- The settings that the example settings say. -/
def exampleValue : Settings where
  rule := ⟨some true, some .info⟩
  exclude := ⟨[⟨"**/Migrations/**"⟩, ⟨"**/*.g.cs"⟩], []⟩
  defaults := ⟨some "text", none⟩

theorem readToml_exampleSettings : readToml exampleSettings = .ok exampleValue := by
  have hvalue : ofToml? exampleSettings = some exampleValue := by
    unfold ofToml? exampleSettings
    -- the characters of a literal are there as a list, and need not be taken from its bytes
    rw [String.toList_ofList]
    decide +kernel
  rw [readToml, hvalue]

variable {s : Surroundings} {p : Path} {l : Location}

/-- What is no directory cannot be set up. -/
theorem run_of_not_directory (hcurrent : s.disk.IsReached s.disk.current)
    (h : s.disk.isDirectory p = false) : (run s p).exit = 1 ∧ (run s p).disk = s.disk := by
  unfold run
  cases hcanonical : s.disk.canonical p with
  | error e => exact ⟨rfl, rfl⟩
  | ok dir =>
    have hdir := Disk.isDirectory_canonical hcurrent hcanonical h
    simp only [hdir, Bool.not_false, if_true]
    exact ⟨rfl, rfl⟩

theorem isName_tomlFileName : IsName tomlFileName := by
  decide +kernel

/-- A file of settings is looked for in the same place, by the path of its directory and by the
canonical path. -/
theorem find_join_canonical {dir : Path} (hl : s.disk.at? l = some .directory)
    (hp : s.disk.locate p = .ok l) (hdir : s.disk.locate dir = .ok l) :
    s.disk.find (dir.join tomlFileName) = s.disk.find (p.join tomlFileName) := by
  rw [Disk.find, Disk.find, Disk.locate_child hp hl isName_tomlFileName,
    Disk.locate_child hdir hl isName_tomlFileName]

/-- **Where a TOML file lies already nothing is done**, whatever the file holds. -/
theorem run_of_holds (hcurrent : s.disk.IsReached s.disk.current)
    (hl : s.disk.at? l = some .directory) (hp : s.disk.locate p = .ok l)
    (h : s.disk.holds (p.join tomlFileName) = true) :
    (run s p).exit = 1 ∧ (run s p).disk = s.disk := by
  obtain ⟨dir, hcanonical, hdir⟩ := Disk.locate_canonical hcurrent hp hl
  have hdirectory : s.disk.isDirectory dir = true := Disk.isDirectory_iff.mpr ⟨l, hdir, hl⟩
  rw [Disk.holds, ← find_join_canonical hl hp hdir] at h
  unfold run
  rw [hcanonical]
  simp only [hdirectory, Disk.holds, h, Bool.not_true, Bool.false_eq_true, if_false, if_true]
  exact ⟨rfl, rfl⟩

/-- Where no TOML file lies the example settings are written to one. -/
theorem run_of_free (hcurrent : s.disk.IsReached s.disk.current)
    (hl : s.disk.at? l = some .directory) (hp : s.disk.locate p = .ok l)
    (h : s.disk.holds (p.join tomlFileName) = false) :
    (run s p).exit = 0 ∧
      (run s p).disk.find (p.join tomlFileName) = .ok (.file exampleSettings.toUTF8) := by
  obtain ⟨dir, hcanonical, hdir⟩ := Disk.locate_canonical hcurrent hp hl
  have hdirectory : s.disk.isDirectory dir = true := Disk.isDirectory_iff.mpr ⟨l, hdir, hl⟩
  have hchild := Disk.locate_child hp hl isName_tomlFileName
  have hfree : s.disk.at? (l ++ [tomlFileName]) ≠ some .directory := by
    rw [Disk.at?_of_not_holds h hchild]
    exact (Option.some_ne_none _).symm
  have htarget := Disk.target_child hp hl isName_tomlFileName hfree
  have hwrite : s.disk.write (dir.join tomlFileName) exampleSettings =
      .ok (s.disk.put (l ++ [tomlFileName]) (.file exampleSettings.toUTF8)) := by
    rw [Disk.write, Disk.target_child hdir hl isName_tomlFileName hfree]
    rfl
  have hfind := Disk.find_put htarget (.file exampleSettings.toUTF8)
  rw [Disk.holds, ← find_join_canonical hl hp hdir] at h
  unfold run
  rw [hcanonical]
  simp only [hdirectory, Disk.holds, h, Bool.not_true, Bool.false_eq_true, if_false, hwrite]
  exact ⟨trivial, hfind⟩

/-- **Settings in a TOML file stay in force when their directory is set up**, since nothing is done
then. The settings in force stay the same just if the directory is none, or there is a TOML file in
it, or they are those that the example settings say. -/
theorem load_after_setup (hcurrent : s.disk.IsReached s.disk.current) (p : Path) :
    let done := run s p
    (∀ settings, InFile s.disk p tomlFileName readToml settings →
      done.exit = 1 ∧ done.disk = s.disk ∧ (Settings.load done.disk p).value = settings) ∧
    ((Settings.load done.disk p).value = (Settings.load s.disk p).value ↔
      s.disk.isDirectory p = false ∨ s.disk.holds (p.join tomlFileName) = true ∨
        (Settings.load s.disk p).value = exampleValue) := by
  intro done
  have hnothing : s.disk.isDirectory p = false ∨ s.disk.holds (p.join tomlFileName) = true →
      done.exit = 1 ∧ done.disk = s.disk := by
    intro h
    by_cases hp : s.disk.isDirectory p = true
    · obtain ⟨l, hlocate, hl⟩ := Disk.isDirectory_iff.mp hp
      exact run_of_holds hcurrent hl hlocate (h.resolve_left (by simp [hp]))
    · exact run_of_not_directory hcurrent (Bool.eq_false_iff.mpr hp)
  refine ⟨?_, ?_⟩
  · intro settings hfile
    obtain ⟨hexit, hdisk⟩ := hnothing (Or.inr hfile.holds)
    rw [hdisk]
    exact ⟨hexit, rfl, value_load_of_inFile hfile⟩
  · by_cases h : s.disk.isDirectory p = false ∨ s.disk.holds (p.join tomlFileName) = true
    · rw [(hnothing h).2, ← or_assoc]
      exact iff_of_true rfl (Or.inl h)
    · -- the example settings are written, and are in force from then on
      rw [← or_assoc, or_iff_right h, eq_comm]
      rw [not_or, Bool.not_eq_false, Bool.not_eq_true] at h
      obtain ⟨l, hlocate, hl⟩ := Disk.isDirectory_iff.mp h.1
      have hfind := (run_of_free hcurrent hl hlocate h.2).2
      rw [value_load_of_inFile (inFile_of_find hfind readToml_exampleSettings)]

/-- Settings that are in a TOML file, beside others in a JSON file. -/
theorem load_after_setup_both_files :
    let s : Surroundings :=
      { disk :=
          { entries := [(["async-naming.toml"], .file "rule.enabled = false".toUTF8),
              ([".async-naming.json"], .file "\x7b\x7d".toUTF8)] } }
    s.disk.IsReached s.disk.current ∧
      InFile s.disk ⟨"."⟩ tomlFileName readToml { rule := ⟨some false, none⟩ } ∧
      (Settings.load (run s ⟨"."⟩).disk ⟨"."⟩).value = { rule := ⟨some false, none⟩ } := by
  intro s
  have hcurrent : s.disk.IsReached s.disk.current := Disk.isReached_nil s.disk
  have hfile : InFile s.disk ⟨"."⟩ tomlFileName readToml { rule := ⟨some false, none⟩ } :=
    ⟨by decide +kernel, toOption_eq_some.mp (by decide +kernel)⟩
  exact ⟨hcurrent, hfile, ((load_after_setup hcurrent ⟨"."⟩).1 _ hfile).2.2⟩

/-- Settings that switch the rule off, in a JSON file, are no longer in force once the directory is
set up: the example settings switch it on. -/
theorem json_settings_lost :
    let before : Disk :=
      { entries := [([".async-naming.json"],
          .file "\x7b\"rule\":\x7b\"enabled\":false\x7d\x7d".toUTF8)] }
    let after := (run { disk := before } ⟨"."⟩).disk
    InFile before ⟨"."⟩ jsonFileName readJson { rule := ⟨some false, none⟩ } ∧
      (Settings.load before ⟨"."⟩).value = { rule := ⟨some false, none⟩ } ∧
      (Settings.load after ⟨"."⟩).value = exampleValue ∧
      (Settings.load after ⟨"."⟩).value ≠ (Settings.load before ⟨"."⟩).value := by
  intro before after
  have hcurrent : before.IsReached before.current := Disk.isReached_nil before
  have hl : before.at? [] = some .directory := by decide +kernel
  have hp : before.locate ⟨"."⟩ = .ok [] := by decide +kernel
  have hfree : before.holds (Path.join ⟨"."⟩ tomlFileName) = false := by decide +kernel
  have hfile : InFile before ⟨"."⟩ jsonFileName readJson { rule := ⟨some false, none⟩ } :=
    ⟨by decide +kernel, toOption_eq_some.mp (by decide +kernel)⟩
  have hbefore : (Settings.load before ⟨"."⟩).value = { rule := ⟨some false, none⟩ } := by
    decide +kernel
  have hafter : (Settings.load after ⟨"."⟩).value = exampleValue :=
    value_load_of_inFile (inFile_of_find (run_of_free hcurrent hl hp hfree).2
      readToml_exampleSettings)
  refine ⟨hfile, hbefore, hafter, ?_⟩
  rw [hbefore, hafter]
  decide

end Command.Setup

end SuffixLint
