import SuffixLint.Proofs.Command.Scan
import SuffixLint.Proofs.Input
/-!
# What a scan leaves behind

A scan looks at everything that may refuse it before it writes anything: its format has to be known
and its inputs have to load. So a scan that is refused leaves the disk as it was and shows no report
(`value_run_of_refused`), and one that comes to its report lays it in one file, or in none
(`Case.deliver_none`, `Case.deliver_some`). The text in the file is the one that is shown without
styles when no file is asked for (`Case.text_shownIn`).
-/

namespace SuffixLint.Command.Scan

open Log

/-- The text that stands for the format of a report names none. The command line only takes formats
that are known, so this is a text of the settings, and one that the command line leaves to them. -/
def FormatUnknown (asked : Option Format) (s : Settings) : Prop :=
  asked = none ∧ ∃ word, s.defaults.format = some word ∧ ∀ f, Format.ofText word ≠ .ok f

/-- The format of a report is refused just if its text names none. -/
theorem format_eq_error_iff (asked : Option Format) (s : Settings) :
    (∃ e, Scan.format asked s = .error e) ↔ FormatUnknown asked s := by
  unfold FormatUnknown
  cases asked with
  | some f => simp [format_some]
  | none =>
    unfold Scan.format
    cases hword : s.defaults.format with
    | none => simp
    | some word =>
      cases hformat : Format.ofText word with
      | ok f => simp [hformat]
      | error e => simp [hformat]

/-- A scan is refused: its format is unknown, or one of its inputs is refused. -/
def Refused (s : Surroundings) (o : Order) : Prop :=
  FormatUnknown o.format (Settings.load s.disk o.config).value ∨
    ∃ p ∈ o.inputs, Input.Refused s.disk s.stdin p

/-- A failure shows nothing on the first text and leaves the disk as it was. -/
structure LeavesNothing (s : Surroundings) (done : Outcome) : Prop where
  exit : done.exit = 1
  stdout : done.stdout = ""
  disk : done.disk = s.disk

theorem leavesNothing_failed (s : Surroundings) (message : String) (causes : List String) :
    LeavesNothing s (.failed s message causes) :=
  ⟨rfl, rfl, rfl⟩

/-- **A scan that is refused fails before it has done anything.** -/
theorem value_run_of_refused {s : Surroundings} {o : Order} (h : Refused s o) :
    LeavesNothing s (Scan.run s o).value := by
  unfold Scan.run
  rw [Logged.value_bind]
  cases hformat : Scan.format o.format (Settings.load s.disk o.config).value with
  | error e => exact leavesNothing_failed s _ _
  | ok f =>
    have hknown : ¬FormatUnknown o.format (Settings.load s.disk o.config).value := by
      rw [← format_eq_error_iff, hformat]
      simp
    obtain ⟨e, he⟩ := Input.exists_load_eq_error_iff.mpr (h.resolve_left hknown)
    simp only [Logged.value_bind, he]
    exact leavesNothing_failed s _ _

/-! ## Scans that come to their reports -/

namespace Case

variable {c : Case} {s : Surroundings} {p : Path} {l : Location}

/-- Without a file to write, a report is shown and the disk stays as it is. -/
theorem deliver_none (h : c.output = none) :
    deliver c.surroundings c.output c.text = .answered c.surroundings c.text := by
  rw [h]
  rfl

/-- The report is laid where the path leads, and nothing is shown on the first text. -/
theorem deliver_some (h : c.output = some p) (hl : c.surroundings.disk.target p = .ok l) :
    (deliver c.surroundings c.output c.text).stdout = "" ∧
      (deliver c.surroundings c.output c.text).disk =
        c.surroundings.disk.put l (.file c.text.toUTF8) := by
  have hwrite : c.surroundings.disk.write p c.text =
      .ok (c.surroundings.disk.put l (.file c.text.toUTF8)) := by
    rw [Disk.write, hl]
    rfl
  simp only [h, deliver, hwrite, and_self]

/-- The same scan without a file to write, where the same lies on the disk and stands on standard
input. -/
def shownIn (c : Case) (s : Surroundings) (hdisk : s.disk = c.surroundings.disk)
    (hstdin : s.stdin = c.surroundings.stdin) : Case where
  surroundings := s
  config := c.config
  inputs := c.inputs
  asked := c.asked
  output := none
  format := c.format
  declarations := c.declarations
  known := by rw [hdisk, c.known]
  loaded := by rw [hdisk, hstdin, c.loaded]
  writable := fun _ hp => absurd hp (Option.not_mem_none _)

/-- **What is written to a file is what is shown without colors.** The time counts only in the format
that shows it. -/
theorem text_shownIn (houtput : c.output = some p) (hdisk : s.disk = c.surroundings.disk)
    (hstdin : s.stdin = c.surroundings.stdin) (hcolors : s.colors = false)
    (htime : c.format = .sarif → s.time = c.surroundings.time) :
    (c.shownIn s hdisk hstdin).text = c.text := by
  have hreport : (c.shownIn s hdisk hstdin).report = c.report := by
    unfold report settings shownIn
    simp only [hdisk]
  have hrender : c.report.render s.time c.format =
      c.report.render c.surroundings.time c.format := by
    cases hf : c.format with
    | text => rfl
    | json => rfl
    | sarif => rw [htime hf]
  -- both leave the styles out, the one for its file and the other for its terminal
  have hwritten : ((c.order none).output.isSome ∨ !c.surroundings.colors) = True := by
    simp [order, houtput]
  rw [text, hreport]
  unfold text rendered
  simp only [shownIn, hrender, hcolors, hwritten, Bool.not_false, or_true]

/-- What is shown where no file is written. -/
theorem stdout_shownIn {failOn : Option Severity} {arguments : List String}
    {hdisk : s.disk = c.surroundings.disk} {hstdin : s.stdin = c.surroundings.stdin}
    (h : (c.shownIn s hdisk hstdin).AskedBy failOn arguments) :
    (Command.run s arguments).value.stdout = (c.shownIn s hdisk hstdin).text := by
  have houtcome : (Command.run s arguments).value = _ := outcome_eq h
  rw [houtcome, stdout_conclude, deliver_none rfl]
  rfl

end Case

/-! ## A scan from its arguments -/

/-- The arguments of the program ask for a scan. -/
def Order.AskedBy (o : Order) (arguments : List String) : Prop :=
  ∃ level, parseArguments arguments =
    .ok (.run ⟨o.config, level, .scan o.inputs o.format o.output o.failOn⟩)

/-- The program leaves behind what the scan leaves behind that its arguments ask for. -/
theorem value_run_of_askedBy {o : Order} {arguments : List String} (h : o.AskedBy arguments)
    (s : Surroundings) : (Command.run s arguments).value = (Scan.run s o).value := by
  obtain ⟨level, hlevel⟩ := h
  unfold Command.run
  rw [hlevel]
  rfl

/-- A scan that is not refused comes to its report, if that can be written. -/
theorem exists_case {s : Surroundings} {o : Order} (h : ¬Refused s o)
    (hwritable : ∀ p ∈ o.output, ∃ l, s.disk.target p = .ok l) :
    ∃ (c : Case) (failOn : Option Severity), s = c.surroundings ∧ o = c.order failOn := by
  obtain ⟨hknown, hloads⟩ := not_or.mp h
  rw [← format_eq_error_iff] at hknown
  rw [← Input.exists_load_eq_error_iff] at hloads
  cases hformat : Scan.format o.format (Settings.load s.disk o.config).value with
  | error e => exact absurd ⟨e, hformat⟩ hknown
  | ok f =>
    cases hload : (Input.load s.disk s.stdin o.inputs).value with
    | error e => exact absurd ⟨e, hload⟩ hloads
    | ok ds =>
      exact ⟨⟨s, o.config, o.inputs, o.format, o.output, f, ds, hformat, hload, hwritable⟩,
        o.failOn, rfl, rfl⟩

/-- **All or nothing.** A scan whose format is unknown or of whose inputs one is refused fails, shows
nothing on the first text and leaves the disk as it was, whatever else its inputs hold. Any other
scan comes to its report. Without a file to write it leaves the disk as it was too; otherwise only
what the path of that file leads to is new, and it holds the text that the same scan shows without
the file on a terminal without colors, and nothing is shown on the first text. -/
theorem scan_all_or_nothing (s : Surroundings) {o : Order} {arguments : List String}
    (h : o.AskedBy arguments) :
    let done := (Command.run s arguments).value
    (Refused s o → done.exit = 1 ∧ done.stdout = "" ∧ done.disk = s.disk) ∧
    (¬Refused s o →
      (o.output = none → done.disk = s.disk) ∧
      ∀ p l, o.output = some p → s.disk.target p = .ok l →
        done.stdout = "" ∧ (∀ m, m ≠ l → done.disk.at? m = s.disk.at? m) ∧
        ∀ (s' : Surroundings) (arguments' : List String),
          Order.AskedBy { o with output := none } arguments' → s'.disk = s.disk →
          s'.stdin = s.stdin → s'.colors = false →
          (Scan.format o.format (Settings.load s.disk o.config).value = .ok .sarif →
            s'.time = s.time) →
            done.disk.find p = .ok (.file (Command.run s' arguments').value.stdout.toUTF8)) := by
  intro done
  have hdone : done = (Scan.run s o).value := value_run_of_askedBy h s
  refine ⟨?_, ?_⟩
  · intro hrefused
    have hnothing := value_run_of_refused hrefused
    rw [← hdone] at hnothing
    exact ⟨hnothing.exit, hnothing.stdout, hnothing.disk⟩
  intro hrefused
  refine ⟨?_, ?_⟩
  · intro houtput
    obtain ⟨c, failOn, rfl, rfl⟩ := exists_case hrefused (by simp [houtput])
    have houtcome : done = _ := Case.outcome_eq h
    rw [houtcome, disk_conclude, Case.deliver_none houtput]
    rfl
  · intro p l houtput hl
    obtain ⟨c, failOn, rfl, rfl⟩ := exists_case hrefused (by simpa [houtput] using ⟨l, hl⟩)
    have houtcome : done = _ := Case.outcome_eq h
    obtain ⟨hstdout, hdisk⟩ := Case.deliver_some houtput hl
    rw [houtcome, stdout_conclude, disk_conclude, hstdout, hdisk]
    have hlocate := (Disk.locate_of_target hl).1
    refine ⟨rfl, fun m hm => Disk.at?_put_of_ne (fun k => Disk.isAbove_of_locate hlocate) hm, ?_⟩
    intro s' arguments' hasked hsame hstdin hcolors htime
    have hshown : (Command.run s' arguments').value.stdout =
        (c.shownIn s' hsame hstdin).text := Case.stdout_shownIn hasked
    have hsarif : c.format = .sarif → s'.time = c.surroundings.time := by
      intro hf
      exact htime (hf ▸ c.known)
    rw [hshown, Case.text_shownIn houtput hsame hstdin hcolors hsarif]
    exact Disk.find_put hl _

/-- Of two inputs the first loads, from standard input. The second is missing, so nothing is
written; and without it the report is written to the file. -/
theorem scan_all_or_nothing_two_inputs :
    let s : Surroundings := { stdin := (DeclarationFile.linesText [⟨"Get", true, none, none⟩]).toUTF8 }
    let bad : Order := { config := ⟨"."⟩, inputs := [⟨"-"⟩, ⟨"no.json"⟩], output := some ⟨"r"⟩ }
    let good : Order := { config := ⟨"."⟩, inputs := [⟨"-"⟩], output := some ⟨"r"⟩ }
    bad.AskedBy ["scan", "-", "no.json", "-o", "r"] ∧ Refused s bad ∧
      (Command.run s ["scan", "-", "no.json", "-o", "r"]).value.disk = s.disk ∧
      good.AskedBy ["scan", "-", "-o", "r"] ∧ ¬Refused s good ∧
      Order.AskedBy { good with output := none } ["scan", "-"] ∧
      s.disk.target ⟨"r"⟩ = .ok ["r"] ∧
      (Command.run s ["scan", "-", "-o", "r"]).value.disk.find ⟨"r"⟩ =
        .ok (.file (Command.run s ["scan", "-"]).value.stdout.toUTF8) := by
  intro s bad good
  have hbad : bad.AskedBy ["scan", "-", "no.json", "-o", "r"] :=
    ⟨.warn, toOption_eq_some.mp (by decide +kernel)⟩
  have hgood : good.AskedBy ["scan", "-", "-o", "r"] :=
    ⟨.warn, toOption_eq_some.mp (by decide +kernel)⟩
  have hshown : Order.AskedBy { good with output := none } ["scan", "-"] :=
    ⟨.warn, toOption_eq_some.mp (by decide +kernel)⟩
  have hmissing : Input.Refused s.disk s.stdin ⟨"no.json"⟩ := by
    unfold Input.Refused
    rw [if_neg (by decide)]
    exact ⟨by decide +kernel, .unreadable ⟨"no.json"⟩ .missing, by decide +kernel⟩
  have hrefused : Refused s bad :=
    Or.inr ⟨⟨"no.json"⟩, List.mem_cons_of_mem _ List.mem_cons_self, hmissing⟩
  have hformat : (Settings.load s.disk good.config).value.defaults.format = none := by
    decide +kernel
  have hloads : ¬Refused s good := by
    rintro (⟨-, word, hword, -⟩ | hinput)
    · rw [hformat] at hword
      cases hword
    · obtain ⟨e, he⟩ := Input.exists_load_eq_error_iff.mpr hinput
      have hload : (Input.load s.disk s.stdin good.inputs).value =
          .ok [⟨"Get", true, none, none⟩] := Input.load_linesText s.disk _
      rw [hload] at he
      cases he
  have htarget : s.disk.target ⟨"r"⟩ = .ok ["r"] := by decide +kernel
  obtain ⟨hnothing, -⟩ := scan_all_or_nothing s hbad
  obtain ⟨-, hwritten⟩ := (scan_all_or_nothing s hgood).2 hloads
  obtain ⟨-, -, hfile⟩ := hwritten _ _ rfl htarget
  exact ⟨hbad, hrefused, (hnothing hrefused).2.2, hgood, hloads, hshown, htarget,
    hfile s _ hshown rfl rfl rfl fun _ => rfl⟩

end SuffixLint.Command.Scan
