import SuffixLint.Proofs.Command.Scan
import SuffixLint.Proofs.Report.Plain
import SuffixLint.Proofs.Report.Table
import SuffixLint.Proofs.Text.Erase
/-!
# Reports that are shown without styles

A report that is written to a file, or shown without colors, is stripped of control sequences. Where
the findings have none of their own this takes out the styles and nothing else (`rendered_eq_bare`).
Names and paths may hold anything, though, and stripping passes over them once: what it leaves may
begin a control sequence all the same. Just when it does is told by what is shown of the
declarations, one name and one path at a time (`introducer_in_plain_text_iff`).
-/

namespace SuffixLint

open Terminal Report

/-! ## The cells of a declaration -/

namespace Verdict

/-- An escape character in a proposed name is one of the name. -/
theorem mem_of_mem_suggestedName? {v : Verdict} {name suggested : String} {c : Char}
    (h : v.suggestedName? name = some suggested) (hc : isEscape c = true)
    (hmem : c ∈ suggested.toList) : c ∈ name.toList := by
  have hstem : v.stem name.toList ⊆ name.toList := by
    cases v with
    | compliant => exact List.Subset.refl _
    | missingSuffix => exact List.Subset.refl _
    | misspelledSuffix =>
      unfold stem dropEnd
      dsimp only
      split
      · exact List.take_subset _ _
      · exact List.Subset.refl _
    | misplacedSuffix => exact (Text.eraseFrom_sublist 0 name.toList).subset
  unfold suggestedName? at h
  split at h
  · cases h
  · rw [← Option.some.inj h, String.toList_ofList, List.mem_append] at hmem
    refine hstem (hmem.resolve_right fun htoken => ?_)
    have hfree : HasNoEscape Convention.token.toList := by decide
    exact absurd (hasNoEscape_iff.mp hfree c htoken) (by simp [hc])

end Verdict

namespace Linter

variable {s : Settings} {d : Declaration} {cell : List Char} {c : Char}

theorem hasNoEscape_message (v : Verdict) : HasNoEscape (AsyncSuffix.message v).toList := by
  cases v <;> decide

/-- An escape character that is shown of a declaration is one of its name or of its path. -/
theorem mem_of_mem_cell (hcell : cell ∈ cells (standardFinding s d)) (hc : isEscape c = true)
    (h : c ∈ cell) : c ∈ d.name.toList ∨ ∃ p ∈ d.file, c ∈ p.text.toList := by
  rcases mem_cell_cases hcell hc h with ⟨p, hp, hmem⟩ | hmem | ⟨suggested, hsuggested, hmem⟩ | hmem
  · have hfile : (standardFinding s d).affectedFiles.head? = d.file := Option.head?_toList
    exact .inr ⟨p, hfile ▸ hp, hmem⟩
  · exact .inl hmem
  · exact .inl (Verdict.mem_of_mem_suggestedName? hsuggested hc hmem)
  · -- the message is one of three texts
    have hmessage : messageOf (standardFinding s d) = (AsyncSuffix.message d.verdict).toList :=
      messageOf_ofDue _
    rw [hmessage] at hmem
    exact absurd (hasNoEscape_iff.mp (hasNoEscape_message d.verdict) c hmem) (by simp [hc])

/-- What is shown of a declaration leaves no introducer when its name and its path have no escape
characters of the first kind. -/
theorem not_leavesIntroducer_of_mem_cells (hcell : cell ∈ cells (standardFinding s d))
    (hname : '\x1b' ∉ d.name.toList) (hfile : ∀ p ∈ d.file, '\x1b' ∉ p.text.toList) :
    ¬LeavesIntroducer cell := by
  intro hleaves
  rcases mem_of_mem_cell hcell (by decide) hleaves.mem with h | ⟨p, hp, h⟩
  · exact hname h
  · exact hfile p hp h

end Linter

namespace Command.Scan

/-! ## Exactly the styles are taken out -/

/-- What is written to a file, or shown without colors, is stripped. -/
theorem toList_rendered {s : Surroundings} {o : Order}
    (hplain : o.output.isSome ∨ s.colors = false) (r : Report) :
    (rendered s o .text r).toList = strip (colored r.styled) := by
  have hstripped : Format.text = .text ∧ (o.output.isSome ∨ !s.colors) :=
    ⟨rfl, by simpa using hplain⟩
  have htext : (r.render s.time .text).toList = colored r.styled := String.toList_ofList
  unfold rendered
  dsimp only
  rw [if_pos hstripped, String.toList_ofList, htext]

/-- **Exactly the styles are taken out.** A report is text with styles. Where no string of its
findings has an escape character, what is written of it to a file, or shown without colors, is that
text with nothing in the place of each style. -/
theorem rendered_eq_bare (r : Report)
    (h : ∀ f ∈ r.findings, ∀ t ∈ f.strings, HasNoEscape t.toList) :
    (∀ time, (r.render time .text).toList = colored r.styled) ∧
      strip (colored r.styled) = bare r.styled ∧
      ∀ (s : Surroundings) (o : Order), (o.output.isSome ∨ s.colors = false) →
        (rendered s o .text r).toList = bare r.styled := by
  refine ⟨fun _ => String.toList_ofList, strip_colored_eq_bare h, fun s o hplain => ?_⟩
  rw [toList_rendered hplain, strip_colored_eq_bare h]

/-- Digits, semicolons, brackets and letters of control sequences stand next to the styles, in a
path, in a name that is cut and in a name that is proposed. -/
theorem rendered_eq_bare_digits :
    let f : Finding :=
      { title := "[0m: 1;31m", name := "[31mLoadTheRecordsOf;1;31", affectedFiles := [⟨"1;31m[0m"⟩]
        line := some 31, suggestedName := some "[0m" }
    let r : Report := .ofFindings [f, f] []
    (∀ f ∈ r.findings, ∀ t ∈ f.strings, HasNoEscape t.toList) ∧
      (rendered {} { config := ⟨"."⟩, inputs := [] } .text r).toList = bare r.styled := by
  intro f r
  have hfree : ∀ f ∈ r.findings, ∀ t ∈ f.strings, HasNoEscape t.toList := by decide
  exact ⟨hfree, (rendered_eq_bare r hfree).2.2 {} _ (.inr rfl)⟩

/-! ## Introducers that are left -/

variable {c : Case} {failOn : Option Severity} {arguments : List String}

/-- An introducer is left in a report just where one is left in what is shown of a declaration. -/
theorem introducer_infix_text (htext : c.format = .text)
    (hplain : c.output.isSome ∨ c.surroundings.colors = false) :
    introducer <:+: c.text.toList ↔ ∃ d ∈ c.declarations, c.settings.reports d = true ∧
      ∃ cell ∈ cells (Linter.standardFinding c.settings d), LeavesIntroducer cell := by
  unfold Case.text
  rw [htext, toList_rendered hplain, introducer_infix_strip_colored]
  constructor
  · rintro ⟨f, hf, hleaves⟩
    obtain ⟨d, hd, hreports, rfl⟩ := Linter.mem_run_standard.mp hf
    exact ⟨d, hd, hreports, hleaves⟩
  · rintro ⟨d, hd, hreports, hleaves⟩
    exact ⟨_, Linter.mem_run_standard.mpr ⟨d, hd, hreports, rfl⟩, hleaves⟩

/-- **When a plain report keeps an introducer.** A scan that writes its report as text to a file, or
shows it without colors, leaves an introducer in it just where one is left in a cell of a declaration
that is reported: an escape character there begins no control sequence, and nothing but whole
sequences stands between it and a bracket. With names and paths that have no escape character there
is none. -/
theorem introducer_in_plain_text_iff (c : Case) (hasked : c.AskedBy failOn arguments)
    (htext : c.format = .text) (hplain : c.output.isSome ∨ c.surroundings.colors = false) :
    ∃ text, c.reported (c.outcome arguments) = .ok text ∧
      (introducer <:+: text.toList ↔ ∃ d ∈ c.declarations, c.settings.reports d = true ∧
        ∃ cell ∈ cells (Linter.standardFinding c.settings d), LeavesIntroducer cell) ∧
      ((∀ d ∈ c.declarations, '\x1b' ∉ d.name.toList ∧ ∀ p ∈ d.file, '\x1b' ∉ p.text.toList) →
        ¬introducer <:+: text.toList) := by
  have hiff := introducer_infix_text htext hplain
  refine ⟨c.text, Case.reported_outcome hasked, hiff, fun hfree => ?_⟩
  rw [hiff]
  rintro ⟨d, hd, -, cell, hcell, hleaves⟩
  obtain ⟨hname, hfile⟩ := hfree d hd
  exact Linter.not_leavesIntroducer_of_mem_cells hcell hname hfile hleaves

/-- The same scan, asked for a report that is text. -/
def Case.asText (c : Case) : Case :=
  { c with asked := some .text, format := .text, known := format_some _ _ }

/-- These arguments ask for the declarations that come as lines to be shown as text. -/
theorem askedBy_asText_ofLines (disk : Disk) (ds : List Declaration) :
    (Case.ofLines disk ds).asText.AskedBy none ["scan", "-", "-f", "text"] := by
  have hparse : (parseArguments ["scan", "-", "-f", "text"]).toOption =
      some (.run ⟨⟨"."⟩, .warn, .scan [Input.standard] (some .text) none none⟩) := by
    decide +kernel
  exact Case.askedBy_of_toOption hparse

/-- Names with whole sequences in them, one of them with a sequence of the other kind and one in a
path, leave nothing of the kind. -/
theorem introducer_in_plain_text_iff_colored_names :
    let ds : List Declaration := [⟨"\x1b[31mLoad\x1b[0m", true, some ⟨"\x1b[1ma.cs"⟩, some 3⟩,
      ⟨"\x9b1mSave", true, none, none⟩]
    let c := (Case.ofLines {} ds).asText
    c.AskedBy none ["scan", "-", "-f", "text"] ∧ c.format = .text ∧
      c.surroundings.colors = false ∧ ∃ text,
        c.reported (c.outcome ["scan", "-", "-f", "text"]) = .ok text ∧
          ¬introducer <:+: text.toList := by
  intro ds c
  have hasked : c.AskedBy none ["scan", "-", "-f", "text"] := askedBy_asText_ofLines _ _
  have hcells : ∀ d ∈ c.declarations, ∀ cell ∈ cells (Linter.standardFinding c.settings d),
      ¬introducer <:+: strip cell := by
    decide +kernel
  obtain ⟨text, hreported, hiff, -⟩ := introducer_in_plain_text_iff c hasked rfl (.inr rfl)
  refine ⟨hasked, rfl, rfl, text, hreported, ?_⟩
  rw [hiff]
  rintro ⟨d, hd, -, cell, hcell, hleaves⟩
  exact hcells d hd cell hcell (introducer_infix_strip_iff.mpr hleaves)

/-- Where one sequence stands inside another, taking it out leaves the other whole. -/
theorem plain_text_with_introducer :
    let c := (Case.ofLines {} [⟨"\x1b\x1b[31m[31mLoad", true, none, none⟩]).asText
    c.AskedBy none ["scan", "-", "-f", "text"] ∧ c.format = .text ∧
      c.surroundings.colors = false ∧ ∃ text,
        c.reported (c.outcome ["scan", "-", "-f", "text"]) = .ok text ∧
          introducer <:+: text.toList := by
  intro c
  have hasked : c.AskedBy none ["scan", "-", "-f", "text"] := askedBy_asText_ofLines _ _
  have hcell : ∃ d ∈ c.declarations, c.settings.reports d = true ∧
      ∃ cell ∈ cells (Linter.standardFinding c.settings d), introducer <:+: strip cell := by
    decide +kernel
  obtain ⟨d, hd, hreports, cell, hcell, hleft⟩ := hcell
  refine ⟨hasked, rfl, rfl, c.text, Case.reported_outcome hasked, ?_⟩
  rw [introducer_infix_text rfl (.inr rfl)]
  exact ⟨d, hd, hreports, cell, hcell, introducer_infix_strip_iff.mp hleft⟩

end Command.Scan

end SuffixLint
