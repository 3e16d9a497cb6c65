import SuffixLint.Proofs.Disk.Canonical
import SuffixLint.Proofs.Input
import SuffixLint.Proofs.Report.RoundTrip
import SuffixLint.Proofs.Report.Sarif
/-!
# Reports are no declarations

A report may be written where the next walk looks for declarations. It is not taken for any, in
whichever format it is written and whatever its findings are called: neither the reader of documents
nor that of lines accepts its text (`Shows.refused`).

A report that is a document is read as the object that it is, and no member of that object lists
declarations (`refused_document`). Its first line is an opening brace with nothing behind it, which
is no document. The text for readers begins with an empty line, and what comes next begins no
document either (`refused_text`). So a walk passes over the report with a warning and finds what it
found before.
-/

namespace SuffixLint

open Json Text

namespace DeclarationFile

/-- A text is refused by the reader of documents and by that of lines. -/
structure IsRefused (text : List Char) : Prop where
  document : ∃ e, ofDocument text = .error e
  lines : ∃ e, ofLines text = .error e

/-- The first line that is not blank decides if it is no declaration. -/
theorem exists_readLines_eq_error {l : List Char} (hfull : allBlank l = false)
    (h : ∃ e, Declaration.codec.parse l = .error e) (number : Nat) (ls : List (List Char)) :
    ∃ e, readLines number (l :: ls) = .error e := by
  obtain ⟨e, he⟩ := h
  refine ⟨⟨number, e⟩, ?_⟩
  rw [readLines, hfull, if_neg Bool.false_ne_true, he]

/-- A brace with nothing behind it is no declaration. -/
theorem exists_parse_brace : ∃ e, Declaration.codec.parse ['\x7b'] = .error e := by
  rw [← toOption_eq_none]
  decide +kernel

/-- Documents over several lines are refused when they list no declarations. -/
theorem refused_document {v : Json} {text : List Char} (hv : Readable depthLimit v)
    (hnone : declarations? v = none) (hbrace : v.pretty 0 = '\x7b' :: '\n' :: text) :
    IsRefused (v.pretty 0) where
  document := by
    refine ⟨.noForm, ?_⟩
    rw [pretty_eq_render, ofDocument_render hv, hnone]
  lines := by
    have hnewline : '\n' ∉ ['\x7b'] := by decide
    have hlines : Text.lines (v.pretty 0) = ['\x7b'] :: Text.lines text := by
      rw [hbrace]
      exact lines_append hnewline text
    rw [ofLines, hlines]
    exact exists_readLines_eq_error (by decide) exists_parse_brace 1 _

/-- The characters with which the heading of a report begins: one of its title, or the one that
opens a style. -/
def beginsHeading (c : Char) : Prop :=
  c = 'A' ∨ c = '\x1b'

/-- Texts are refused that begin with an empty line and a heading. -/
theorem refused_text {c : Char} (hc : beginsHeading c) (text : List Char) :
    IsRefused ('\n' :: c :: text) where
  document := by
    rcases hc with rfl | rfl <;> exact ⟨.expectedValue, rfl⟩
  lines := by
    have hline : c ≠ '\n' ∧ c ≠ '\r' ∧ isBlank c = false := by
      rcases hc with rfl | rfl <;> decide
    obtain ⟨l, ls, hlines⟩ := exists_lines_eq_cons hline.1 hline.2.1 text
    have hall : Text.lines ('\n' :: c :: text) = [] :: (c :: l) :: ls := by
      rw [← hlines]
      exact lines_append List.not_mem_nil (c :: text)
    have hfull : allBlank (c :: l) = false := by
      rw [allBlank, List.all_cons, hline.2.2, Bool.false_and]
    have hparse : ∃ e, Declaration.codec.parse (c :: l) = .error e := by
      rcases hc with rfl | rfl <;> exact ⟨_, rfl⟩
    rw [ofLines, hall]
    exact exists_readLines_eq_error hfull hparse 2 ls

end DeclarationFile

namespace Report

open DeclarationFile

/-- The texts that are shown or written of a report: in a format, and as the text for readers
without its styles, which may be left out or taken out. -/
inductive Shows (r : Report) : String → Prop where
  | rendered (time : String) (f : Format) : Shows r (r.render time f)
  | bare : Shows r (Terminal.render false r.styled)
  | stripped (time : String) :
    Shows r (String.ofList (Terminal.strip (r.render time .text).toList))

/-- The text for readers begins with an empty line. With its styles, what comes next is one of them,
and the title without. -/
theorem exists_heading (r : Report) :
    (∃ text, Terminal.colored r.styled = '\n' :: '\x1b' :: text) ∧
      (∃ text, Terminal.bare r.styled = '\n' :: 'A' :: text) ∧
      ∃ text, Terminal.strip (Terminal.colored r.styled) = '\n' :: 'A' :: text := by
  rw [styled]
  split
  · exact ⟨⟨_, rfl⟩, ⟨_, rfl⟩, ⟨_, rfl⟩⟩
  · exact ⟨⟨_, rfl⟩, ⟨_, rfl⟩, ⟨_, rfl⟩⟩

/-- **No reader takes a report for declarations.** -/
theorem Shows.refused {r : Report} {text : String} (h : r.Shows text) (hr : r.Fits) :
    IsRefused text.toList := by
  obtain ⟨⟨colored, hcolored⟩, ⟨bare, hbare⟩, ⟨stripped, hstripped⟩⟩ := exists_heading r
  cases h with
  | rendered time f =>
    cases f with
    | text =>
      rw [render, String.toList_ofList, hcolored]
      exact refused_text (.inr rfl) colored
    | json =>
      rw [render, prettyText, String.toList_ofList]
      exact refused_document (readable_encode hr _) rfl rfl
    | sarif =>
      rw [render, prettyText, String.toList_ofList]
      exact refused_document (Sarif.readable_log time r.findings) rfl rfl
  | bare =>
    rw [Terminal.render, String.toList_ofList, if_neg Bool.false_ne_true, hbare]
    exact refused_text (.inl rfl) bare
  | stripped time =>
    rw [render, String.toList_ofList, String.toList_ofList, hstripped]
    exact refused_text (.inl rfl) stripped

end Report

namespace Input

open DeclarationFile

variable {d : Disk} {p root : Path} {l : Location} {text : String}

/-! ## Walks -/

/-- A file with a text that is refused does not load, by whichever path it is found. -/
theorem not_loads_put (h : IsRefused text.toList) (q : Path) (ds : List Declaration)
    (hq : (d.put l (.file text.toUTF8)).locate q = .ok l) :
    loadFile (d.put l (.file text.toUTF8)) q ≠ .ok ds := by
  have hread : (d.put l (.file text.toUTF8)).readText q = .ok text := by
    rw [Disk.readText, Disk.find, hq]
    simp only [Disk.at?_put]
    exact Disk.decodeText_toUTF8 text
  intro hload
  obtain ⟨form, text', -, hread', hds⟩ := loadFile_eq_ok.mp hload
  obtain rfl : text = text' := Except.ok.inj (hread.symm.trans hread')
  cases form with
  | document =>
    rw [listed?, toOption_eq_none.mpr h.document] at hds
    cases hds
  | lines =>
    rw [listed?, toOption_eq_none.mpr h.lines] at hds
    cases hds

theorem exists_loadFile_put (h : IsRefused text.toList) {q : Path}
    (hq : (d.put l (.file text.toUTF8)).locate q = .ok l) :
    ∃ e, loadFile (d.put l (.file text.toUTF8)) q = .error e := by
  cases hload : loadFile (d.put l (.file text.toUTF8)) q with
  | ok ds => exact absurd hload (not_loads_put h q ds hq)
  | error e => exact ⟨e, rfl⟩

/-- A text that is refused may be written under the name of a declaration file, where there was
nothing before: walks give what they gave. -/
theorem value_loadDirectory_put (h : IsRefused text.toList) (htree : d.IsTree)
    (hcurrent : d.IsReached d.current) (htarget : d.target p = .ok l)
    (hfree : d.holds p = false) (hsupported : isSupported p = true)
    (hroot : d.isDirectory root = true) :
    (loadDirectory (d.put l (.file text.toUTF8)) root).value = (loadDirectory d root).value := by
  obtain ⟨hlocate, hdirectory⟩ := Disk.locate_of_target htarget
  have hextra : Disk.Extra d (d.put l (.file text.toUTF8)) l :=
    Disk.extra_of_target htarget (Disk.at?_of_not_holds hfree hlocate)
  have hmore : (d.put l (.file text.toUTF8)).IsTree :=
    htree.put (Disk.isReached_of_locate hcurrent hlocate) hdirectory text.toUTF8
  have hrules : ∀ place, ∀ rules ∈ [".git"] :: Disk.ruleFiles, place ++ rules ≠ l := by
    intro place rules hmem
    obtain ⟨name, hname⟩ := Disk.exists_fileName?_of_isSupported hsupported
    have hlast := Disk.getLast?_of_locate (Disk.locate_put hdirectory hlocate)
      (Disk.at?_put d l (.file text.toUTF8)) hname
    exact Disk.append_ruleFile_ne hsupported (hname.trans hlast.symm) place hmem
  have hshare : share d root = share (d.put l (.file text.toUTF8)) root :=
    share_extra hextra htree hmore (not_loads_put h) hrules
  rw [share, share, ← hextra.isDirectory_eq, if_pos hroot, if_pos hroot] at hshare
  rw [value_loadDirectory, value_loadDirectory, hshare]

/-- **A report contributes no declarations**, whatever it tells of and in whichever format it is
written. Both readers refuse its text. Written to a path, it does not load from there, and a walk
gives what the other declaration files give: it passes over the report with a warning. Written under
the name of a declaration file where there was nothing before, it leaves the walk of each directory
as it was. -/
theorem report_contributes_nothing {r : Report} (hr : r.Fits) (h : r.Shows text) :
    ((∀ q, ∃ e, parseDocument q text = .error e) ∧ ∀ q, ∃ e, parseLines q text = .error e) ∧
      ∀ (d after : Disk) (p : Path), d.write p text = .ok after →
        (∃ e, loadFile after p = .error e) ∧ ∀ root,
          let walk := loadDirectory after root
          let others := (after.declarationFiles root).filter fun q => after.locate q ≠ after.locate p
          walk.value = others.flatMap (loaded after) ∧
            (∀ q ∈ after.declarationFiles root, after.locate q = after.locate p →
              ∃ e : InputError, e.path = q ∧ ⟨.warn, "Skipping " ++ e.message⟩ ∈ walk.records) ∧
            (d.IsTree → d.IsReached d.current → d.holds p = false → isSupported p = true →
              d.isDirectory root = true → walk.value = (loadDirectory d root).value) := by
  have hrefused := h.refused hr
  refine ⟨⟨fun q => ?_, fun q => ?_⟩, fun d after p hwrite => ?_⟩
  · obtain ⟨e, he⟩ := hrefused.document
    exact ⟨.badDocument q e, by rw [parseDocument, he]; rfl⟩
  · obtain ⟨e, he⟩ := hrefused.lines
    exact ⟨.badLine q e.line e.cause, by rw [parseLines, he]; rfl⟩
  · obtain ⟨l, htarget, rfl⟩ := Disk.exists_of_write_eq_ok hwrite
    have hlocate : (d.put l (.file text.toUTF8)).locate p = .ok l :=
      Disk.locate_put (Disk.locate_of_target htarget).2 (Disk.locate_of_target htarget).1
    refine ⟨exists_loadFile_put hrefused hlocate, fun root => ⟨?_, ?_, ?_⟩⟩
    · rw [value_loadDirectory, hlocate, flatMap_loaded_filter (not_loads_put hrefused)]
    · intro q hq hsame
      obtain ⟨e, he⟩ := exists_loadFile_put hrefused (hsame.trans hlocate)
      exact ⟨e, path_of_loadFile he, List.mem_append_right _ (mem_records_loadThose hq he)⟩
    · intro htree hcurrent hfree hsupported hroot
      exact value_loadDirectory_put hrefused htree hcurrent htarget hfree hsupported hroot

/-- A report on a declaration with a line end and a list of declarations in its name is written
beside a line that tells of another declaration. -/
theorem report_contributes_nothing_beside_lines :
    let r : Report :=
      { findings := [{ name := "\n\x7b\"declarations\":[]\x7d" }]
        summary := ⟨0, 0, 0, 0, 1, 1⟩
        declarations := 1
        asynchronous := 1
        compliant := 0 }
    let text := r.render "" .json
    let line := "\x7b\"name\":\"Load\",\"is_async\":true\x7d\n"
    let d : Disk := { entries := [(["w", "a.jsonl"], .file line.toUTF8)] }
    let after := d.put ["w", "r.json"] (.file text.toUTF8)
    r.Fits ∧ r.Shows text ∧ d.write ⟨"w/r.json"⟩ text = .ok after ∧ d.IsTree ∧
      d.IsReached d.current ∧ d.holds ⟨"w/r.json"⟩ = false ∧ isSupported ⟨"w/r.json"⟩ = true ∧
      d.isDirectory ⟨"w"⟩ = true ∧ (∃ e, loadFile after ⟨"w/r.json"⟩ = .error e) ∧
      (loadDirectory d ⟨"w"⟩).value = [⟨"Load", true, none, none⟩] ∧
      (loadDirectory after ⟨"w"⟩).value = (loadDirectory d ⟨"w"⟩).value := by
  intro r text line d after
  have hr : r.Fits :=
    { summary := ⟨fun severity => by cases severity <;> decide, by decide⟩
      declarations := by decide
      asynchronous := by decide
      compliant := by decide }
  have hshows : r.Shows text := .rendered "" .json
  have htarget : d.target ⟨"w/r.json"⟩ = .ok ["w", "r.json"] := by decide +kernel
  have hwrite : d.write ⟨"w/r.json"⟩ text = .ok after := by
    rw [Disk.write, htarget]
    rfl
  have htree : d.IsTree := ⟨by decide, by decide⟩
  have hcurrent : d.IsReached d.current := Disk.isReached_nil d
  have hfree : d.holds ⟨"w/r.json"⟩ = false := by decide +kernel
  have hsupported : isSupported ⟨"w/r.json"⟩ = true := by decide
  have hroot : d.isDirectory ⟨"w"⟩ = true := by decide +kernel
  have hloads : (loadDirectory d ⟨"w"⟩).value = [⟨"Load", true, none, none⟩] := by decide +kernel
  obtain ⟨herror, hwalks⟩ := (report_contributes_nothing hr hshows).2 d after _ hwrite
  refine ⟨hr, hshows, hwrite, htree, hcurrent, hfree, hsupported, hroot, herror, hloads, ?_⟩
  exact (hwalks ⟨"w"⟩).2.2 htree hcurrent hfree hsupported hroot

end Input

end SuffixLint
