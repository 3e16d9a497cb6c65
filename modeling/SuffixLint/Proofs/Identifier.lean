import Mathlib.Data.List.Infix
import SuffixLint.Proofs.Decimal.Digits
import SuffixLint.Proofs.Linter.Run
/-!
# What identifiers tell apart

The identifier of a finding is a digest of a text, in which the path, the line and the name of a
declaration stand one behind the other with line feeds between them. An absent path counts in it as
an empty one, and an absent line as zero. The line is a number and holds no line feed, but a path
and a name may. Then the text can be read in two ways: the path of the one reading takes in the path
and the line of the other, and the name of that other takes in the line and the name of the first
(`TakesIn`). Apart from this the text tells path, line and name (`joined_eq_iff`). Where no detector
and no path has a line feed it tells them and the detector, whatever the name (`idText_inj`).
-/

namespace SuffixLint

open Decimal

/-! ## Parts between line feeds -/

namespace Finding

/-- A path, a line and a name with line feeds between them. -/
def joined (file : List Char) (line : Nat) (name : List Char) : List Char :=
  file ++ '\n' :: (digits line ++ '\n' :: name)

/-- The longer path takes in the other one and its line, and the name that belongs to the shorter
path takes in the line and the name that belong to the longer one. -/
def TakesIn (file : List Char) (line : Nat) (name : List Char) (file' : List Char) (line' : Nat)
    (name' : List Char) : Prop :=
  ∃ between, file' = file ++ '\n' :: (digits line ++ between) ∧
    '\n' :: name = between ++ '\n' :: (digits line' ++ '\n' :: name')

variable {file name file' name' more : List Char} {line line' : Nat}

theorem newline_notMem_digits (n : Nat) : '\n' ∉ digits n := fun h =>
  absurd (isDigit_of_mem_digits h) (by decide)

/-- What stands before the first line feed is told by the text. -/
theorem append_newline_inj {front front' behind behind' : List Char} (h : '\n' ∉ front)
    (h' : '\n' ∉ front') (heq : front ++ '\n' :: behind = front' ++ '\n' :: behind') :
    front = front' ∧ behind = behind' := by
  rcases List.append_eq_append_iff.mp heq with ⟨more, rfl, hmore⟩ | ⟨more, rfl, hmore⟩
  · cases more with
    | nil => exact ⟨(List.append_nil front).symm, (List.cons.inj hmore).2⟩
    | cons c more =>
      obtain ⟨rfl, -⟩ := List.cons.inj hmore
      exact absurd (List.mem_append_right front List.mem_cons_self) h'
  · cases more with
    | nil => exact ⟨List.append_nil front', (List.cons.inj hmore).2.symm⟩
    | cons c more =>
      obtain ⟨rfl, -⟩ := List.cons.inj hmore
      exact absurd (List.mem_append_right front' List.mem_cons_self) h

/-- A line and the name behind it are told by their text. -/
theorem line_name_inj (h : digits line ++ '\n' :: name = digits line' ++ '\n' :: name') :
    line = line' ∧ name = name' := by
  obtain ⟨hdigits, hname⟩ := append_newline_inj (newline_notMem_digits line)
    (newline_notMem_digits line') h
  exact ⟨digits_injective hdigits, hname⟩

/-- What a text goes on with behind the shorter of two paths is nothing, or takes in the line. -/
theorem eq_or_takesIn (file : List Char)
    (h : '\n' :: (digits line ++ '\n' :: name) = more ++ '\n' :: (digits line' ++ '\n' :: name')) :
    (more = [] ∧ line = line' ∧ name = name') ∨
      TakesIn file line name (file ++ more) line' name' := by
  cases more with
  | nil =>
    obtain ⟨hline, hname⟩ := line_name_inj (List.cons.inj h).2
    exact .inl ⟨rfl, hline, hname⟩
  | cons c more =>
    right
    obtain ⟨rfl, hmore⟩ := List.cons.inj h
    rcases List.append_eq_append_iff.mp hmore with ⟨between, rfl, hname⟩ | ⟨rest, hdigits, hrest⟩
    · exact ⟨between, rfl, hname⟩
    · -- the path does not end inside the digits, since a line feed follows it
      cases rest with
      | nil =>
        rw [List.append_nil] at hdigits
        exact ⟨[], by rw [List.append_nil, hdigits], hrest.symm⟩
      | cons d rest =>
        obtain ⟨rfl, -⟩ := List.cons.inj hrest
        exact absurd (hdigits ▸ List.mem_append_right more List.mem_cons_self)
          (newline_notMem_digits line)

theorem joined_eq_of_takesIn (h : TakesIn file line name file' line' name') :
    joined file line name = joined file' line' name' := by
  obtain ⟨between, rfl, hname⟩ := h
  rw [joined, joined, hname]
  simp

/-- **The text tells path, line and name**, unless those of one reading take in those of the
other. -/
theorem joined_eq_iff : joined file line name = joined file' line' name' ↔
    (file = file' ∧ line = line' ∧ name = name') ∨ TakesIn file line name file' line' name' ∨
      TakesIn file' line' name' file line name := by
  constructor
  · intro h
    rcases List.append_eq_append_iff.mp h with ⟨more, rfl, hmore⟩ | ⟨more, rfl, hmore⟩
    · rcases eq_or_takesIn file hmore with ⟨rfl, hline, hname⟩ | htakes
      · exact .inl ⟨(List.append_nil file).symm, hline, hname⟩
      · exact .inr (.inl htakes)
    · rcases eq_or_takesIn file' hmore with ⟨rfl, hline, hname⟩ | htakes
      · exact .inl ⟨List.append_nil file', hline.symm, hname.symm⟩
      · exact .inr (.inr htakes)
  · rintro (⟨rfl, rfl, rfl⟩ | h | h)
    · rfl
    · exact joined_eq_of_takesIn h
    · exact (joined_eq_of_takesIn h).symm

/-- It takes a line feed in the longer path and one in the name that belongs to the other. -/
theorem TakesIn.newline_mem (h : TakesIn file line name file' line' name') :
    '\n' ∈ file' ∧ '\n' ∈ name := by
  obtain ⟨between, rfl, hname⟩ := h
  refine ⟨List.mem_append_right file List.mem_cons_self, ?_⟩
  cases between with
  | nil =>
    rw [(List.cons.inj hname).2]
    exact List.mem_append_right _ List.mem_cons_self
  | cons c between =>
    rw [(List.cons.inj hname).2]
    exact List.mem_append_right between List.mem_cons_self

theorem idText_eq_append_joined (detector file : String) (line : Nat) (name : String) :
    idText detector file line name =
      detector.toList ++ '\n' :: joined file.toList line name.toList := by
  simp [idText, joined]

/-- **The text tells its four parts**, as long as no detector and no path has a line feed. The name
comes last and may hold anything. -/
theorem idText_inj {detector file name detector' file' name' : String} {line line' : UInt32}
    (hdetector : '\n' ∉ detector.toList) (hdetector' : '\n' ∉ detector'.toList)
    (hfile : '\n' ∉ file.toList) (hfile' : '\n' ∉ file'.toList) :
    idText detector file line.toNat name = idText detector' file' line'.toNat name' ↔
      detector = detector' ∧ file = file' ∧ line = line' ∧ name = name' := by
  constructor
  · -- each line feed that separates is the first one behind the part before it
    intro h
    rw [idText_eq_append_joined, idText_eq_append_joined] at h
    obtain ⟨hdetectors, hjoined⟩ := append_newline_inj hdetector hdetector' h
    obtain ⟨hfiles, hbehind⟩ := append_newline_inj hfile hfile' hjoined
    obtain ⟨hlines, hnames⟩ := line_name_inj hbehind
    exact ⟨String.toList_inj.mp hdetectors, String.toList_inj.mp hfiles,
      UInt32.toNat_inj.mp hlines, String.toList_inj.mp hnames⟩
  · rintro ⟨rfl, rfl, rfl, rfl⟩
    rfl

/-- Digits and line feeds with which a name begins are not taken for a part of the line. -/
theorem idText_inj_digits_in_name :
    '\n' ∉ "async-suffix".toList ∧ '\n' ∉ "a.cs".toList ∧
      idText "async-suffix" "a.cs" (1 : UInt32).toNat "1\n2\nRun" ≠
        idText "async-suffix" "a.cs" (11 : UInt32).toNat "\n2\nRun" := by
  have hdetector : '\n' ∉ "async-suffix".toList := by decide
  have hfile : '\n' ∉ "a.cs".toList := by decide
  refine ⟨hdetector, hfile, fun h => ?_⟩
  obtain ⟨-, -, hline, -⟩ := (idText_inj hdetector hdetector hfile hfile).mp h
  exact absurd hline (by decide)

/-- The identifier that is made from a text. -/
def idFrom (text : List Char) : String :=
  String.ofList (Sha256.hex ((Sha256.digest (String.ofList text).toUTF8.toList).take 8))

end Finding

/-! ## Declarations and the texts of their identifiers -/

namespace Declaration

variable {d e : Declaration}

/-- The path that counts in an identifier: an absent one counts as empty. -/
def countedFile (d : Declaration) : Path :=
  d.file.getD ⟨""⟩

/-- The line that counts in an identifier: an absent one counts as zero. -/
def countedLine (d : Declaration) : UInt32 :=
  d.line.getD 0

/-- The text from which the identifier of a declaration's finding is made. -/
def idText (d : Declaration) : List Char :=
  Finding.idText AsyncSuffix.name d.countedFile.text d.countedLine.toNat d.name

/-- Two declarations have one name, and their paths and lines count as one. -/
structure CountsAs (d e : Declaration) : Prop where
  file : d.countedFile = e.countedFile
  line : d.countedLine = e.countedLine
  name : d.name = e.name

/-- The path of the second declaration takes in path and line of the first, and the name of the
first line and name of the second. -/
def TakesIn (d e : Declaration) : Prop :=
  Finding.TakesIn d.countedFile.text.toList d.countedLine.toNat d.name.toList
    e.countedFile.text.toList e.countedLine.toNat e.name.toList

/-- No path has a line feed, or no name has one. -/
def HasNoNewline (d e : Declaration) : Prop :=
  ('\n' ∉ d.countedFile.text.toList ∧ '\n' ∉ e.countedFile.text.toList) ∨
    ('\n' ∉ d.name.toList ∧ '\n' ∉ e.name.toList)

theorem idText_eq_iff : d.idText = e.idText ↔ d.CountsAs e ∨ d.TakesIn e ∨ e.TakesIn d := by
  have hpath : d.countedFile.text = e.countedFile.text ↔ d.countedFile = e.countedFile := by
    cases d.countedFile
    cases e.countedFile
    simp
  unfold idText
  rw [Finding.idText_eq_append_joined, Finding.idText_eq_append_joined, List.append_cancel_left_eq,
    List.cons_inj_right, Finding.joined_eq_iff, String.toList_inj, String.toList_inj,
    UInt32.toNat_inj, hpath]
  refine or_congr_left ⟨fun ⟨hfile, hline, hname⟩ => ⟨hfile, hline, hname⟩, fun h => ?_⟩
  exact ⟨h.file, h.line, h.name⟩

theorem HasNoNewline.not_takesIn (h : HasNoNewline d e) : ¬d.TakesIn e := fun htakes =>
  h.elim (fun hfiles => hfiles.2 htakes.newline_mem.1) fun hnames => hnames.1 htakes.newline_mem.2

theorem HasNoNewline.symm (h : HasNoNewline d e) : HasNoNewline e d :=
  h.imp And.symm And.symm

end Declaration

namespace Linter

/-- The identifier of a finding is made from the text of its declaration. -/
theorem id_standardFinding (s : Settings) (d : Declaration) :
    (standardFinding s d).id = Finding.idFrom d.idText := by
  have hfile : (d.file.map Path.text).getD "" = d.countedFile.text := by
    rw [Declaration.countedFile]
    cases d.file <;> rfl
  have hline : (d.line.map UInt32.toNat).getD 0 = d.countedLine.toNat := by
    rw [Declaration.countedLine]
    cases d.line <;> rfl
  rw [standardFinding, Finding.ofDue, AsyncSuffix.finding, hfile, hline]
  rfl

/-- **What identifiers tell apart.** Two findings of a run have their identifiers from the texts of
their declarations. These are one text just if the names are one and the paths and lines count as
one, or if path and line of one declaration are taken in by the path of the other. The latter takes
line feeds in a path and in a name. -/
theorem idText_eq_iff_of_reported {s : Settings} {ds : List Declaration} {d e : Declaration}
    (hd : d ∈ ds) (he : e ∈ ds) (hdreports : s.reports d = true) (hereports : s.reports e = true) :
    let found := ((standard s).value.run ds).value
    (standardFinding s d ∈ found ∧ (standardFinding s d).id = Finding.idFrom d.idText) ∧
      (standardFinding s e ∈ found ∧ (standardFinding s e).id = Finding.idFrom e.idText) ∧
      (d.idText = e.idText ↔ d.CountsAs e ∨ d.TakesIn e ∨ e.TakesIn d) ∧
      (Declaration.HasNoNewline d e → (d.idText = e.idText ↔ d.CountsAs e)) := by
  intro found
  refine ⟨⟨?_, id_standardFinding s d⟩, ⟨?_, id_standardFinding s e⟩, Declaration.idText_eq_iff,
    fun hnone => ?_⟩
  · exact mem_run_standard.mpr ⟨d, hd, hdreports, rfl⟩
  · exact mem_run_standard.mpr ⟨e, he, hereports, rfl⟩
  · rw [Declaration.idText_eq_iff]
    exact or_iff_left (not_or_intro hnone.not_takesIn hnone.symm.not_takesIn)

/-- One name on two lines of a file whose path has a line feed. -/
theorem idText_eq_iff_of_reported_lines :
    let s : Settings := {}
    let d : Declaration := ⟨"Run", true, some ⟨"a\n1"⟩, some 1⟩
    let e : Declaration := ⟨"Run", true, some ⟨"a\n1"⟩, some 11⟩
    d ∈ [d, e] ∧ e ∈ [d, e] ∧ s.reports d = true ∧ s.reports e = true ∧
      (standardFinding s d).id = Finding.idFrom d.idText ∧
      (standardFinding s e).id = Finding.idFrom e.idText ∧ d.idText ≠ e.idText := by
  intro s d e
  have hd : d ∈ [d, e] := List.mem_cons_self
  have he : e ∈ [d, e] := List.mem_cons_of_mem d List.mem_cons_self
  have hreports : s.reports d = true ∧ s.reports e = true := by decide +kernel
  obtain ⟨⟨-, hdid⟩, ⟨-, heid⟩, -, hiff⟩ := idText_eq_iff_of_reported hd he hreports.1 hreports.2
  have hnone : Declaration.HasNoNewline d e := .inr (by decide)
  refine ⟨hd, he, hreports.1, hreports.2, hdid, heid, fun h => ?_⟩
  exact absurd ((hiff hnone).mp h).line (by decide)

/-- An absent line is not told from line zero, nor an absent path from an empty one, and with line
feeds in a name and in a path nothing of two declarations need be the same. -/
theorem idText_of_different_declarations :
    let s : Settings := {}
    let unplaced : Declaration := ⟨"Load", true, some ⟨"a.cs"⟩, none⟩
    let zeroth : Declaration := ⟨"Load", true, some ⟨"a.cs"⟩, some 0⟩
    let unfiled : Declaration := ⟨"Load", true, none, some 1⟩
    let emptied : Declaration := ⟨"Load", true, some ⟨""⟩, some 1⟩
    let named : Declaration := ⟨"Run\n2\nRun", true, some ⟨"a.cs"⟩, some 1⟩
    let filed : Declaration := ⟨"Run", true, some ⟨"a.cs\n1\nRun"⟩, some 2⟩
    (s.reports unplaced = true ∧ s.reports zeroth = true ∧ unplaced.line ≠ zeroth.line ∧
        unplaced.idText = zeroth.idText) ∧
      (s.reports unfiled = true ∧ s.reports emptied = true ∧ unfiled.file ≠ emptied.file ∧
        unfiled.idText = emptied.idText) ∧
      (s.reports named = true ∧ s.reports filed = true ∧ named.name ≠ filed.name ∧
        named.file ≠ filed.file ∧ named.line ≠ filed.line ∧ named.idText = filed.idText) := by
  decide +kernel

end Linter

end SuffixLint
