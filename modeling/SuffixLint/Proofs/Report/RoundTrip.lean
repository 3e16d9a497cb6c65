import SuffixLint.Proofs.DeclarationFile
import SuffixLint.Proofs.Report.Summary
import SuffixLint.Report.Format
/-!
# Reports written and read back

A report that is written as a document is read back as it was. Nothing is asked of it but that its
counts fit 64 bits, as counts do: they need not be those of its findings.
-/

namespace SuffixLint

open Json

/-- Different severities have different words. -/
theorem Severity.name_injective {s t : Severity} (h : s.name = t.name) : s = t := by
  cases s <;> cases t <;> first | rfl | exact absurd h (by decide)

theorem Severity.restores_codec (s : Severity) : codec.Restores s := by
  apply Codec.restores_choice s.mem_all
  intro t _ hname
  exact name_injective hname

/-- A finding comes back. None of its fields is left out, so those without a value are written as
`null`. -/
theorem Finding.restores_codec (f : Finding) : codec.Restores f := by
  have hstring : ∀ s : String, Codec.string.Restores s := Codec.restores_stringAs "a string"
  have hnote : ∀ o : Option String, Codec.string.option.Restores o := fun o =>
    Codec.restores_option (fun s _ => hstring s) fun _ => nofun
  have hline : Codec.word32.option.Restores f.line :=
    Codec.restores_option (fun n _ => Codec.restores_word32 n) fun _ => nofun
  have hfiles : Declaration.pathCodec.list.Restores f.affectedFiles :=
    Codec.restores_list fun p _ => Declaration.restores_pathCodec p
  refine Codec.restores_imap (Codec.restores_record "Finding" ?_ (by decide)) rfl
  exact ⟨hstring _, hstring _, f.severity.restores_codec, hstring _, hstring _, hstring _,
    hstring _, hfiles, hline, hnote _, hnote _, hnote _, trivial⟩

/-- A finding is an object of strings, of a list of them, and of a number of 32 bits. -/
theorem Finding.readable_encode (depth : Nat) (f : Finding) :
    Readable (depth + 2) (codec.encode f) := by
  have hnote : ∀ o : Option String, Readable (depth + 1) (Codec.string.option.encode o) := by
    rintro (_ | s)
    · exact .null
    · exact .string s
  have hline : Readable (depth + 1) (Codec.word32.option.encode f.line) := by
    rcases f.line with _ | n
    · exact .null
    · exact .nat (Nat.lt_trans n.toNat_lt_size (by decide))
  have hfiles : ∀ v ∈ f.affectedFiles.map Declaration.pathCodec.encode, Readable depth v := by
    intro v hv
    obtain ⟨p, -, rfl⟩ := List.mem_map.mp hv
    exact .string p.text
  apply Codec.readable_record "Finding"
  exact ⟨fun _ => .string f.id, fun _ => .string f.detector, fun _ => .string f.severity.name,
    fun _ => .string f.title, fun _ => .string f.description, fun _ => .string f.name,
    fun _ => .string f.verdict, fun _ => .array hfiles, fun _ => hline,
    fun _ => hnote f.suggestedFix, fun _ => hnote f.suggestedName, fun _ => hnote f.category,
    trivial⟩

/-- The counts of a summary fit 64 bits. -/
structure Summary.Fits (s : Summary) : Prop where
  count : ∀ severity, s.count severity < UInt64.size
  total : s.total < UInt64.size

theorem Summary.restores_codec {s : Summary} (h : s.Fits) : codec.Restores s := by
  have hcount : ∀ severity, Codec.count.Restores (s.count severity) := fun severity =>
    Codec.restores_count (h.count severity)
  refine Codec.restores_imap (Codec.restores_record "FindingsSummary" ?_ (by decide)) rfl
  exact ⟨hcount .critical, hcount .high, hcount .medium, hcount .low, hcount .info,
    Codec.restores_count h.total, trivial⟩

theorem Summary.Fits.readable_encode {s : Summary} (h : s.Fits) (depth : Nat) :
    Readable (depth + 1) (codec.encode s) := by
  have hcount : ∀ severity, Readable depth (Codec.count.encode (s.count severity)) :=
    fun severity => .nat (h.count severity)
  apply Codec.readable_record "FindingsSummary"
  exact ⟨fun _ => hcount .critical, fun _ => hcount .high, fun _ => hcount .medium,
    fun _ => hcount .low, fun _ => hcount .info, fun _ => .nat h.total, trivial⟩

namespace Report

/-- All counts of a report fit 64 bits. -/
structure Fits (r : Report) : Prop where
  summary : r.summary.Fits
  declarations : r.declarations < UInt64.size
  asynchronous : r.asynchronous < UInt64.size
  compliant : r.compliant < UInt64.size

theorem restores_codec {r : Report} (h : r.Fits) : codec.Restores r := by
  have hfindings : Finding.codec.list.Restores r.findings :=
    Codec.restores_list fun f _ => f.restores_codec
  refine Codec.restores_imap (Codec.restores_record "ScanReport" ?_ (by decide)) rfl
  exact ⟨hfindings, Summary.restores_codec h.summary, Codec.restores_count h.declarations,
    Codec.restores_count h.asynchronous, Codec.restores_count h.compliant, trivial⟩

/-- A report is nested four levels deep, and its numbers are lines and counts. -/
theorem readable_encode {r : Report} (h : r.Fits) (depth : Nat) :
    Readable (depth + 4) (codec.encode r) := by
  have hfindings : ∀ v ∈ r.findings.map Finding.codec.encode, Readable (depth + 2) v := by
    intro v hv
    obtain ⟨f, -, rfl⟩ := List.mem_map.mp hv
    exact f.readable_encode depth
  apply Codec.readable_record "ScanReport"
  exact ⟨fun _ => .array hfindings, fun _ => h.summary.readable_encode (depth + 2),
    fun _ => .nat h.declarations, fun _ => .nat h.asynchronous, fun _ => .nat h.compliant, trivial⟩

/-- **A report that is written as a document is read back as it was**, with its findings in their
order. -/
theorem parse_render_json {r : Report} (h : r.Fits) (time : String) :
    codec.parse (r.render time .json).toList = .ok r := by
  have htext : (r.render time .json).toList = (codec.encode r).pretty 0 := String.toList_ofList
  rw [htext]
  exact (restores_codec h).parse_pretty 0

/-- A report whose counts are the greatest there are and not those of its findings. -/
theorem parse_render_json_inconsistent :
    let most := UInt64.size - 1
    let r : Report :=
      { findings :=
          [{ name := "a\"\\\n\u2028", affectedFiles := [⟨""⟩], line := some 4294967295 }, {}]
        summary := ⟨most, 0, most, 0, most, 1⟩
        declarations := most
        asynchronous := 0
        compliant := most }
    r.Fits ∧ codec.parse (r.render "" .json).toList = .ok r := by
  intro most r
  have hfits : r.Fits :=
    { summary := ⟨fun severity => by cases severity <;> decide, by decide⟩
      declarations := by decide
      asynchronous := by decide
      compliant := by decide }
  exact ⟨hfits, parse_render_json hfits ""⟩

end Report

end SuffixLint
