import SuffixLint.Proofs.Report.Plain
import SuffixLint.Proofs.Report.Table
/-!
# The columns of a report

Without styles a row of the table has its fields one behind the other, each filled up with spaces to
the width of its column, so that they stand under the words of the heading. Numbers of three digits
and tags fit their columns, and a name is cut to the width of its own. A place need not fit: its
path is cut, but the line is added to it afterwards, and that may have ten digits. What hangs over
(`overhang`) moves the name and the proposed name to the right in that row, by seven characters at
most, and nothing else moves them. So the columns of a table are straight just if all its places
hang over by the same number of characters (`aligned_iff_overhangs_agree`), and they are the columns
of the heading where no line has more than three digits.
-/

namespace SuffixLint

/-- The strings of a finding that make the fields of its row. -/
def Finding.rowStrings (f : Finding) : List String :=
  f.name :: f.affectedFiles.map Path.text ++ f.suggestedName.toList

namespace Report

open Terminal

variable {text more : List Char} {c : Char} {f : Finding} {e : Entry} {width n : Nat}

/-! ## Control characters -/

/-- Whether a character is a control character: one before the space, or one from the delete
character on to the end of the second row of controls. -/
def isControl (c : Char) : Bool :=
  c.toNat < 0x20 || (0x7f ≤ c.toNat && c.toNat ≤ 0x9f)

/-- No character of the text is a control character. -/
def HasNoControl (text : List Char) : Prop :=
  text.any isControl = false

instance (text : List Char) : Decidable (HasNoControl text) :=
  inferInstanceAs (Decidable (_ = _))

theorem hasNoControl_iff : HasNoControl text ↔ ∀ c ∈ text, isControl c = false := by
  rw [HasNoControl, List.any_eq_false]
  simp only [Bool.not_eq_true]

theorem hasNoControl_append :
    HasNoControl (text ++ more) ↔ HasNoControl text ∧ HasNoControl more := by
  rw [HasNoControl, List.any_append, Bool.or_eq_false_iff]
  rfl

theorem isControl_of_isEscape (h : isEscape c = true) : isControl c = true := by
  simp only [isEscape, Bool.or_eq_true, decide_eq_true_eq] at h
  rcases h with rfl | rfl
  · decide
  · decide

theorem HasNoControl.hasNoEscape (h : HasNoControl text) : HasNoEscape text := by
  refine hasNoEscape_iff.mpr fun c hc => ?_
  by_contra hescape
  rw [Bool.not_eq_false] at hescape
  exact absurd (hasNoControl_iff.mp h c hc) (by simp [isControl_of_isEscape hescape])

theorem HasNoControl.newline_notMem (h : HasNoControl text) : '\n' ∉ text := fun hmem =>
  absurd (hasNoControl_iff.mp h _ hmem) (by decide)

theorem hasNoControl_spaces (n : Nat) : HasNoControl (List.replicate n ' ') :=
  hasNoControl_iff.mpr fun _ hc => List.eq_of_mem_replicate hc ▸ (by decide : isControl ' ' = false)

theorem isControl_of_isMark (h : isMark c = true) : isControl c = false := by
  simp only [isMark, Bool.or_eq_true, decide_eq_true_eq] at h
  rcases h with ((rfl | rfl) | rfl) | hdigit
  · decide
  · decide
  · decide
  · simp only [Char.isDigit, Bool.and_eq_true, decide_eq_true_eq, ge_iff_le,
      UInt32.le_iff_toNat_le] at hdigit
    obtain ⟨hlow, hhigh⟩ : 48 ≤ c.toNat ∧ c.toNat ≤ 57 := hdigit
    simp only [isControl, Bool.or_eq_false_iff, Bool.and_eq_false_iff, decide_eq_false_iff_not]
    omega

theorem hasNoControl_digits (n : Nat) : HasNoControl (Decimal.digits n) :=
  hasNoControl_iff.mpr fun _ hc => isControl_of_isMark (isMark_of_mem_digits hc)

/-! ## Fields -/

theorem hasNoControl_padLeft (width : Nat) (h : HasNoControl text) :
    HasNoControl (padLeft width text) :=
  hasNoControl_append.mpr ⟨hasNoControl_spaces _, h⟩

theorem hasNoControl_padRight (width : Nat) (h : HasNoControl text) :
    HasNoControl (padRight width text) :=
  hasNoControl_append.mpr ⟨h, hasNoControl_spaces _⟩

theorem hasNoControl_shorten (width : Nat) (h : HasNoControl text) :
    HasNoControl (shorten width text) :=
  hasNoControl_iff.mpr fun c hc =>
    (mem_shorten width hc).elim (hasNoControl_iff.mp h c) isControl_of_isMark

/-- A field is as wide as its column, or as its text where that is wider. -/
theorem length_padRight (width : Nat) (text : List Char) :
    (padRight width text).length = max text.length width := by
  rw [padRight, List.length_append, List.length_replicate]
  omega

theorem length_padLeft (width : Nat) (text : List Char) :
    (padLeft width text).length = max text.length width := by
  rw [padLeft, List.length_append, List.length_replicate]
  omega

/-- What is cut keeps to the width, as long as the dots do. -/
theorem length_shorten (h : 3 ≤ width) (text : List Char) :
    (shorten width text).length = min text.length width := by
  have hdots : ellipsis.length = 3 := rfl
  unfold shorten
  split
  · omega
  · rw [List.length_append, List.length_take, hdots]
    omega

theorem length_shortenPath (h : 3 ≤ width) (text : List Char) :
    (shortenPath width text).length = min text.length width := by
  have hdots : ellipsis.length = 3 := rfl
  unfold shortenPath
  split
  · omega
  · rw [List.length_append, List.length_drop, hdots]
    omega

/-! ## Places -/

/-- By how many characters a place hangs over its column: it has what is left of the path, a colon
and the line. -/
def overhang (f : Finding) : Nat :=
  match f.affectedFiles.head?, f.line with
  | some path, some line =>
    min path.text.length pathWidth + 1 + (Decimal.digits line.toNat).length - columnWidth
  | _, _ => 0

theorem length_place (f : Finding) :
    max (place f).length columnWidth = columnWidth + overhang f := by
  have hpath : ∀ path : Path, (shortenPath pathWidth path.text.toList).length =
      min path.text.length pathWidth := fun path => by
    rw [length_shortenPath (by decide), String.length_toList]
  unfold place overhang
  cases f.affectedFiles.head? with
  | none => rfl
  | some path =>
    -- what is left of a path has room, so that only its line can hang over
    have hfits : min path.text.length pathWidth ≤ columnWidth :=
      (Nat.min_le_right _ _).trans (by decide)
    cases f.line with
    | none =>
      simp only [hpath]
      omega
    | some line =>
      simp only [List.length_append, List.length_cons, hpath]
      omega

theorem hasNoControl_place (h : ∀ path ∈ f.affectedFiles, HasNoControl path.text.toList) :
    HasNoControl (place f) := by
  refine hasNoControl_iff.mpr fun c hc => ?_
  rcases mem_place hc with ⟨path, hpath, hmem⟩ | hmark
  · exact hasNoControl_iff.mp (h path (List.mem_of_mem_head? hpath)) c hmem
  · exact isControl_of_isMark hmark

/-- A colon and three digits have room behind any path, so only further digits hang over. -/
theorem overhang_le_of_length (k : Nat)
    (h : ∀ line ∈ f.line, (Decimal.digits line.toNat).length ≤ k + 3) : overhang f ≤ k := by
  unfold overhang
  split
  next path line _ hline =>
    have hdigits := h line hline
    have hfits : min path.text.length pathWidth ≤ 20 := Nat.min_le_right _ _
    have hwidth : columnWidth = 24 := rfl
    omega
  next => exact Nat.zero_le k

theorem overhang_le (f : Finding) : overhang f ≤ 7 :=
  overhang_le_of_length 7 fun line _ =>
    Decimal.length_digits_le_iff.mpr (line.toNat_lt.trans (by decide))

theorem overhang_eq_zero (h : ∀ line ∈ f.line, line < 1000) : overhang f = 0 :=
  Nat.le_zero.mp <| overhang_le_of_length 0 fun line hline =>
    Decimal.length_digits_le_iff.mpr (UInt32.lt_iff_toNat_lt.mp (h line hline))

/-! ## Lines without styles -/

theorem strip_shown_append (s : Style) (h : HasNoEscape text) (rest : List Char) :
    strip (shown s text ++ rest) = text ++ strip rest := by
  rw [shown, List.append_assoc, List.append_assoc, strip_code_append,
    strip_append_of_hasNoEscape h, strip_code_append]

/-- No control sequence runs over the end of a line. -/
theorem strip_printed (ls : List (List Char)) : strip (printed ls) = printed (ls.map strip) := by
  induction ls with
  | nil => rfl
  | cons l ls ih =>
    rw [printed_cons, List.map_cons, printed_cons, strip_append (stops_newline _),
      strip_cons (by decide), ih]

/-- The column in which the heading of the names begins. -/
def nameColumn : Nat := 38

/-- The column in which the heading of the proposed names begins. -/
def suggestionColumn : Nat := 64

/-- The heading of a table has its words in these columns. -/
theorem headings_mem_tableHeadingLines : ∃ line ∈ tableHeadingLines,
    "NAME".toList <+: (strip line).drop nameColumn ∧
      "SUGGESTION".toList = (strip line).drop suggestionColumn := by
  decide

namespace Entry

/-- What a row has before its name. -/
def beforeName (e : Entry) : List Char :=
  spaces ++ padLeft 3 (Decimal.digits e.number) ++ spaces ++ e.tag ++ spaces ++
    padRight columnWidth e.place ++ spaces

/-- What a row has before its proposed name. -/
def beforeSuggestion (e : Entry) : List Char :=
  e.beforeName ++ padRight columnWidth e.name ++ spaces

/-- Without styles the row of an entry is one line, in which the name and the proposed name stand by
some number of characters to the right of their headings. -/
structure MovedBy (e : Entry) (n : Nat) : Prop where
  row : strip e.row = e.beforeName ++ padRight columnWidth e.name ++ spaces ++ e.suggestion
  oneLine : '\n' ∉ strip e.row
  name : e.beforeName.length = nameColumn + n
  suggestion : e.beforeSuggestion.length = suggestionColumn + n

/-- The names of all rows begin in one column, and so do the proposed names. -/
def Aligned (entries : List Entry) : Prop :=
  ∀ e ∈ entries, ∀ e' ∈ entries, e.beforeName.length = e'.beforeName.length ∧
    e.beforeSuggestion.length = e'.beforeSuggestion.length

instance (entries : List Entry) : Decidable (Aligned entries) :=
  inferInstanceAs (Decidable (∀ e ∈ entries, ∀ e' ∈ entries, _ ∧ _))

/-- Where no field has an escape character, a row is stripped of its styles and of nothing else. -/
theorem strip_row (htag : HasNoEscape e.tag) (hplace : HasNoEscape e.place)
    (hname : HasNoEscape e.name) (hsuggestion : HasNoEscape e.suggestion) :
    strip e.row = e.beforeName ++ padRight columnWidth e.name ++ spaces ++ e.suggestion := by
  have hspaces : HasNoEscape spaces := by decide
  have hnumber := hasNoEscape_padLeft 3 (hasNoEscape_digits e.number)
  simp only [row, beforeName, List.append_assoc, strip_append_of_hasNoEscape hspaces,
    strip_shown_append _ hnumber, strip_shown_append _ htag,
    strip_shown_append _ (hasNoEscape_padRight columnWidth hplace),
    strip_append_of_hasNoEscape (hasNoEscape_padRight columnWidth hname), strip_eq_self hsuggestion]

theorem hasNoControl_strip_row (htag : HasNoControl e.tag) (hplace : HasNoControl e.place)
    (hname : HasNoControl e.name) (hsuggestion : HasNoControl e.suggestion) :
    HasNoControl (strip e.row) := by
  have hspaces : HasNoControl spaces := by decide
  rw [strip_row htag.hasNoEscape hplace.hasNoEscape hname.hasNoEscape hsuggestion.hasNoEscape]
  simp only [beforeName, hasNoControl_append, hspaces, htag, hsuggestion, and_self,
    hasNoControl_padLeft 3 (hasNoControl_digits e.number), hasNoControl_padRight columnWidth hplace,
    hasNoControl_padRight columnWidth hname]

theorem length_severityTag (s : Severity) : (severityTag s).length = 3 := by
  cases s <;> rfl

theorem hasNoControl_severityTag (s : Severity) : HasNoControl (severityTag s) := by
  cases s <;> decide

/-- What stands before the name is as wide as its columns, and as what the place hangs over. -/
theorem length_beforeName {number : Nat} (hnumber : number ≤ 999) (f : Finding) :
    (ofFinding number f).beforeName.length = nameColumn + overhang f := by
  have hdigits : (Decimal.digits (ofFinding number f).number).length ≤ 3 :=
    Decimal.length_digits_le_iff.mpr (Nat.lt_succ_of_le hnumber)
  have htag : (ofFinding number f).tag.length = 3 := length_severityTag f.severity
  have hplace : max (ofFinding number f).place.length columnWidth = columnWidth + overhang f :=
    length_place f
  have hspaces : spaces.length = 2 := rfl
  have hwidth : columnWidth = 24 := rfl
  have hcolumn : nameColumn = 38 := rfl
  -- four gaps, three digits, the tag and the column of the places make up the column of the names
  simp only [beforeName, List.length_append, length_padLeft, length_padRight]
  omega

/-- A name keeps to its column, so the proposed name moves as it does. -/
theorem length_beforeSuggestion (number : Nat) (f : Finding) :
    (ofFinding number f).beforeSuggestion.length =
      (ofFinding number f).beforeName.length + columnWidth + spaces.length := by
  have hname : (ofFinding number f).name.length = min f.name.toList.length columnWidth :=
    length_shorten (by decide) f.name.toList
  have hfield : max (ofFinding number f).name.length columnWidth = columnWidth := by
    rw [hname]
    exact Nat.max_eq_right (Nat.min_le_right _ _)
  rw [beforeSuggestion, List.length_append, List.length_append, length_padRight, hfield]

/-- The row of a finding is moved by what its place hangs over. -/
theorem movedBy_ofFinding {number : Nat} (hnumber : number ≤ 999)
    (h : ∀ s ∈ f.rowStrings, HasNoControl s.toList) :
    (ofFinding number f).MovedBy (overhang f) := by
  have hname : HasNoControl f.name.toList := h f.name (by simp [Finding.rowStrings])
  have hpaths : ∀ path ∈ f.affectedFiles, HasNoControl path.text.toList := fun path hpath =>
    h path.text (by simp [Finding.rowStrings, List.mem_map_of_mem hpath])
  have hsuggestion : HasNoControl (f.suggestedName.getD "").toList := by
    cases hs : f.suggestedName with
    | none => decide
    | some suggested => exact h suggested (by simp [Finding.rowStrings, hs])
  have htag := hasNoControl_severityTag f.severity
  have hplace := hasNoControl_place hpaths
  have hshort := hasNoControl_shorten columnWidth hname
  refine ⟨?_, ?_, length_beforeName hnumber f, ?_⟩
  · exact strip_row htag.hasNoEscape hplace.hasNoEscape hshort.hasNoEscape hsuggestion.hasNoEscape
  · exact (hasNoControl_strip_row htag hplace hshort hsuggestion).newline_notMem
  · have hwidths : nameColumn + columnWidth + spaces.length = suggestionColumn := rfl
    rw [length_beforeSuggestion, length_beforeName hnumber]
    omega

theorem forall₂_movedBy {fs : List Finding} {number : Nat} (hcount : number + fs.length ≤ 1000)
    (h : ∀ f ∈ fs, ∀ s ∈ f.rowStrings, HasNoControl s.toList) :
    List.Forall₂ (fun e f => e.MovedBy (overhang f)) (numberedFrom number fs) fs := by
  -- the number grows as the findings get fewer, so the bound on both together stays
  induction fs generalizing number with
  | nil => exact .nil
  | cons f fs ih =>
    rw [List.length_cons] at hcount
    obtain ⟨hf, hfs⟩ := List.forall_mem_cons.mp h
    exact .cons (movedBy_ofFinding (by omega) hf) (ih (by omega) hfs)

theorem MovedBy.agree_iff {e e' : Entry} {n n' : Nat} (h : e.MovedBy n) (h' : e'.MovedBy n') :
    (e.beforeName.length = e'.beforeName.length ∧
      e.beforeSuggestion.length = e'.beforeSuggestion.length) ↔ n = n' := by
  rw [h.name, h'.name, h.suggestion, h'.suggestion]
  omega

/-- What holds of all entries holds of all findings, where it comes to the same of each with its
own. -/
theorem forall_mem_iff_of_forall₂ {R : Entry → Finding → Prop} {P : Entry → Prop}
    {Q : Finding → Prop} {es : List Entry} {fs : List Finding} (h : List.Forall₂ R es fs)
    (hiff : ∀ e f, R e f → (P e ↔ Q f)) : (∀ e ∈ es, P e) ↔ ∀ f ∈ fs, Q f := by
  induction h with
  | nil => simp
  | cons hR _ ih => rw [List.forall_mem_cons, List.forall_mem_cons, hiff _ _ hR, ih]

/-- Rows are aligned just if they are moved by the same number of characters. -/
theorem aligned_iff {es : List Entry} {fs : List Finding}
    (h : List.Forall₂ (fun e f => e.MovedBy (overhang f)) es fs) :
    Aligned es ↔ ∀ f ∈ fs, ∀ g ∈ fs, overhang f = overhang g :=
  -- once for the first and once for the second of the two rows that are compared
  forall_mem_iff_of_forall₂ h fun _ _ hfirst =>
    forall_mem_iff_of_forall₂ h fun _ _ hsecond => hfirst.agree_iff hsecond

end Entry

/-- **When the columns of a table are straight.** The text of a report, stripped of its styles, is
the lines that the report lays out, each stripped. For up to 999 findings without control characters
in their names, paths and proposed names the row of each is one line, with the name and the proposed
name under their headings but for what the place hangs over, which is seven characters at most and
nothing where the line has three digits or fewer. So the names begin in one column, and the proposed
names in another, just if all places hang over by the same number of characters. -/
theorem aligned_iff_overhangs_agree (r : Report) (time : String) (hcount : r.findings.length ≤ 999)
    (hfindings : ∀ f ∈ r.findings, ∀ s ∈ f.rowStrings, HasNoControl s.toList) :
    let entries := Entry.numberedFrom 1 r.findings
    (strip (r.render time .text).toList = printed (r.ownLines.map strip) ∧
        (r.findings ≠ [] → r.ownLines = headingLines r ++ tableLines entries)) ∧
      (∃ line ∈ tableHeadingLines, "NAME".toList <+: (strip line).drop nameColumn ∧
        "SUGGESTION".toList = (strip line).drop suggestionColumn) ∧
      List.Forall₂ (fun e f => e.MovedBy (overhang f)) entries r.findings ∧
      (∀ f ∈ r.findings, overhang f ≤ 7 ∧ ((∀ line ∈ f.line, line < 1000) → overhang f = 0)) ∧
      (Entry.Aligned entries ↔ ∀ f ∈ r.findings, ∀ g ∈ r.findings, overhang f = overhang g) := by
  intro entries
  have hmoved : List.Forall₂ (fun e f => e.MovedBy (overhang f)) entries r.findings :=
    Entry.forall₂_movedBy (by omega) hfindings
  have htext : strip (r.render time .text).toList = printed (r.ownLines.map strip) := by
    rw [render, String.toList_ofList, colored_styled, strip_printed]
  exact ⟨⟨htext, ownLines_of_ne⟩, headings_mem_tableHeadingLines, hmoved,
    fun f _ => ⟨overhang_le f, overhang_eq_zero⟩, Entry.aligned_iff hmoved⟩

/-- A long path has room for a line of three digits, and a short one for any line. -/
theorem aligned_iff_overhangs_agree_long_lines :
    let f : Finding := { name := "Load", affectedFiles := [⟨"src/Services/Repository.cs"⟩]
                         line := some 999, suggestedName := some "LoadAsync" }
    let g : Finding := { name := "SaveAllRecordsOfTheDisk", affectedFiles := [⟨"src/Data/F.cs"⟩]
                         line := some 4294967295 }
    let r : Report := .ofFindings [f, g] []
    r.findings.length ≤ 999 ∧
      (∀ f ∈ r.findings, ∀ s ∈ f.rowStrings, HasNoControl s.toList) ∧
      Entry.Aligned (Entry.numberedFrom 1 r.findings) := by
  intro f g r
  have hcount : r.findings.length ≤ 999 := by decide
  have hfindings : ∀ f ∈ r.findings, ∀ s ∈ f.rowStrings, HasNoControl s.toList := by decide
  have hoverhangs : ∀ f ∈ r.findings, ∀ g ∈ r.findings, overhang f = overhang g := by
    decide +kernel
  obtain ⟨-, -, -, -, hiff⟩ := aligned_iff_overhangs_agree r "" hcount hfindings
  exact ⟨hcount, hfindings, hiff.mpr hoverhangs⟩

/-- A line of four digits behind a long path moves the names of its row out of their columns. -/
theorem not_aligned_long_place :
    let ds : List Declaration := [⟨"Load", true, some ⟨"src/Api.cs"⟩, some 3⟩,
      ⟨"Save", true, some ⟨"src/Services/Repository.cs"⟩, some 1024⟩]
    let r : Report := .ofFindings ((Linter.standard {}).value.run ds).value ds
    let entries := Entry.numberedFrom 1 r.findings
    r.findings.length ≤ 999 ∧
      (∀ f ∈ r.findings, ∀ s ∈ f.rowStrings, HasNoControl s.toList) ∧
      entries.map (fun e => String.ofList (strip e.row)) =
        ["    1  [I]  src/Api.cs:3              Load                      LoadAsync",
          "    2  [I]  ...ces/Repository.cs:1024  Save                      SaveAsync"] ∧
      entries.map (fun e => e.beforeName.length) = [38, 39] ∧ ¬Entry.Aligned entries := by
  intro ds r entries
  have hfound : r.findings =
      [Linter.standardFinding {} ⟨"Load", true, some ⟨"src/Api.cs"⟩, some 3⟩,
        Linter.standardFinding {}
          ⟨"Save", true, some ⟨"src/Services/Repository.cs"⟩, some 1024⟩] := by
    have hreports : ds.filter (Settings.reports {}) = ds := by decide +kernel
    change ((Linter.standard {}).value.run ds).value = ds.map (Linter.standardFinding {})
    rw [Linter.value_run_standard, hreports]
    -- sorting does not compute, but these two are in their order already
    exact List.mergeSort_of_pairwise (by decide +kernel)
  have hentries : entries = Entry.numberedFrom 1 _ := congrArg _ hfound
  rw [hentries, hfound]
  decide +kernel

end Report

end SuffixLint
