import SuffixLint.Command
import SuffixLint.Proofs.DeclarationFile
import SuffixLint.Proofs.Linter.Run
import SuffixLint.Proofs.Report.Summary
/-!
# The exit code of a scan and its report

A scan that comes to its report (`Case`) still fails when its findings reach the threshold, if there
is one. All findings of a scan have the same severity, so they reach the threshold together, as soon
as there is one of them (`Settings.exists_finding_iff`). The threshold decides the exit code and
nothing else: the report is a text that is known before the threshold is looked at (`Case.text`).
-/

namespace SuffixLint

namespace Settings

/-! ## Settings and severities -/

/-- What is reported among declarations has a severity or a greater one: the rule is not switched
off, some declaration breaks the convention and is not left alone, and the severity that is set, or
else the least, is as great. -/
structure Reach (s : Settings) (ds : List Declaration) (t : Severity) : Prop where
  enabled : s.rule.enabled ≠ some false
  violation : ∃ d ∈ ds, d.isAsync = true ∧ d.verdict.isCompliant = false ∧ s.excludes d = false
  severity : t ≤ s.rule.severity.getD .info

/-- All findings of the standard linter have one severity, so they reach a threshold together. -/
theorem exists_finding_iff (s : Settings) (ds : List Declaration) (t : Severity) :
    (∃ f ∈ ((Linter.standard s).value.run ds).value, t ≤ f.severity) ↔ s.Reach ds t := by
  -- a finding and the declaration that it is made for lead to each other
  constructor
  · rintro ⟨f, hf, ht⟩
    obtain ⟨d, hd, hreports, rfl⟩ := Linter.mem_run_standard.mp hf
    obtain ⟨henabled, hflags⟩ := Linter.reports_eq_true_iff.mp hreports
    simp only [flags, Bool.and_eq_true, Bool.not_eq_true'] at hflags
    obtain ⟨⟨hasync, hbreaks⟩, hkept⟩ := hflags
    exact ⟨henabled, ⟨d, hd, hasync, hbreaks, hkept⟩, ht⟩
  · rintro ⟨henabled, ⟨d, hd, hasync, hbreaks, hkept⟩, ht⟩
    have hflags : s.flags d = true := by
      rw [flags, hasync, hbreaks, hkept]
      rfl
    have hreports : s.reports d = true := Linter.reports_eq_true_iff.mpr ⟨henabled, hflags⟩
    exact ⟨_, Linter.mem_run_standard.mpr ⟨d, hd, hreports, rfl⟩, ht⟩

/-! ## Settings with other defaults -/

/-- The settings with other defaults for a run. -/
def withDefaults (s : Settings) (defaults : RunDefaults) : Settings :=
  { s with defaults := defaults }

/-- The defaults have no part in the findings. -/
theorem run_withDefaults (s : Settings) (defaults : RunDefaults) (ds : List Declaration) :
    ((Linter.standard (s.withDefaults defaults)).value.run ds).value =
      ((Linter.standard s).value.run ds).value := by
  rw [Linter.value_run_standard, Linter.value_run_standard]
  rfl

theorem reach_withDefaults (s : Settings) (defaults : RunDefaults) (ds : List Declaration)
    (t : Severity) : (s.withDefaults defaults).Reach ds t ↔ s.Reach ds t :=
  ⟨fun h => ⟨h.enabled, h.violation, h.severity⟩, fun h => ⟨h.enabled, h.violation, h.severity⟩⟩

end Settings

namespace Command.Scan

open Log

/-- A scan that comes to its report, whatever its threshold: its format is known, its inputs load
and its report can be written. -/
structure Case where
  surroundings : Surroundings
  /-- The directory that holds the settings. -/
  config : Path
  inputs : List Path
  /-- The format that the command line asks for. -/
  asked : Option Format
  output : Option Path
  /-- The format of the report. -/
  format : Format
  declarations : List Declaration
  known : Scan.format asked (Settings.load surroundings.disk config).value = .ok format
  loaded : (Input.load surroundings.disk surroundings.stdin inputs).value = .ok declarations
  writable : ∀ p ∈ output, ∃ l, surroundings.disk.target p = .ok l

namespace Case

def settings (c : Case) : Settings :=
  (Settings.load c.surroundings.disk c.config).value

/-- The scan with a threshold on the command line, or with none. -/
def order (c : Case) (failOn : Option Severity) : Order :=
  ⟨c.config, c.inputs, c.asked, c.output, failOn⟩

/-- The arguments of the program ask for the scan with such a threshold. -/
def AskedBy (c : Case) (failOn : Option Severity) (arguments : List String) : Prop :=
  ∃ level, parseArguments arguments =
    .ok (.run ⟨c.config, level, .scan c.inputs c.asked c.output failOn⟩)

/-- What the program leaves behind when it is run with arguments. -/
def outcome (c : Case) (arguments : List String) : Outcome :=
  (Command.run c.surroundings arguments).value

/-- The report in what the program leaves behind: the text that it shows, or the text in the file
that it was to write. -/
def reported (c : Case) (done : Outcome) : Except Disk.Refusal String :=
  match c.output with
  | none => .ok done.stdout
  | some p => done.disk.readText p

/-- What it takes for the scan to fail: there is a threshold, on the command line or else in the
settings, and what is reported reaches it. -/
def Fails (c : Case) (failOn : Option Severity) : Prop :=
  ∃ t, failOn.or c.settings.defaults.failOn = some t ∧ c.settings.Reach c.declarations t

/-- The report of the scan. -/
def report (c : Case) : Report :=
  .ofFindings ((Linter.standard c.settings).value.run c.declarations).value c.declarations

/-- The text of the report, as it is shown or written. -/
def text (c : Case) : String :=
  rendered c.surroundings (c.order none) c.format c.report

end Case

/-! ## What the threshold does -/

/-- The format of the command line goes before that of the settings. -/
theorem format_some (f : Format) (s : Settings) : Scan.format (some f) s = .ok f := rfl

theorem stdout_conclude (limit : Option Severity) (r : Report) (o : Outcome) :
    (conclude limit r o).stdout = o.stdout := by
  unfold conclude
  split
  · rfl
  · split <;> rfl

theorem disk_conclude (limit : Option Severity) (r : Report) (o : Outcome) :
    (conclude limit r o).disk = o.disk := by
  unfold conclude
  split
  · rfl
  · split <;> rfl

/-- An outcome that is a success becomes a failure when the report reaches the threshold, and stays
a success otherwise. -/
theorem exit_conclude {limit : Option Severity} {r : Report} {o : Outcome} (ho : o.exit = 0) :
    (conclude limit r o).exit = if limit.any (reaches r) then 1 else 0 := by
  rcases limit with _ | t
  · exact ho
  · rw [Option.any_some]
    unfold conclude
    by_cases hr : reaches r t = true
    · simp only [ho, hr, and_self, if_true]
    · simp only [ho, hr, and_false, if_false, Bool.false_eq_true]

/-- A report reaches a threshold when one of its findings does. -/
theorem reaches_ofFindings (found : List Finding) (ds : List Declaration) (t : Severity) :
    reaches (.ofFindings found ds) t = true ↔ ∃ f ∈ found, t ≤ f.severity := by
  unfold reaches
  change decide (0 < (Summary.ofFindings found).atLeast t) = true ↔ _
  rw [decide_eq_true_eq, Summary.atLeast_ofFindings, List.countP_pos_iff]
  simp only [decide_eq_true_eq]

namespace Case

variable {c other : Case} {failOn : Option Severity} {arguments : List String}

theorem reaches_report (c : Case) (t : Severity) :
    reaches c.report t = true ↔ c.settings.Reach c.declarations t := by
  unfold report
  rw [reaches_ofFindings, Settings.exists_finding_iff]

/-! ## A run of the program -/

theorem askedBy_of_toOption {level : Level}
    (h : (parseArguments arguments).toOption =
      some (.run ⟨c.config, level, .scan c.inputs c.asked c.output failOn⟩)) :
    c.AskedBy failOn arguments := by
  refine ⟨level, ?_⟩
  cases hparse : parseArguments arguments with
  | error e =>
    rw [hparse] at h
    cases h
  | ok request =>
    rw [hparse] at h
    exact congrArg Except.ok (Option.some.inj h)

/-- A scan that comes to its report shows or writes its text, and then looks at the threshold. -/
theorem outcome_eq (h : c.AskedBy failOn arguments) :
    c.outcome arguments = conclude (threshold failOn c.settings) c.report
      (deliver c.surroundings c.output c.text) := by
  obtain ⟨level, hlevel⟩ := h
  have hrun : c.outcome arguments = (Scan.run c.surroundings (c.order failOn)).value := by
    unfold outcome Command.run
    rw [hlevel]
    rfl
  have hloaded := c.loaded
  have hknown := c.known
  rw [hrun]
  unfold Scan.run
  simp only [Logged.value_bind, order, hknown, hloaded]
  -- what is left differs in the threshold of the order, which rendering does not look at
  rfl

/-- Before the threshold is looked at the scan is a success, and its report is its text. -/
theorem deliver_text (c : Case) :
    (deliver c.surroundings c.output c.text).exit = 0 ∧
      c.reported (deliver c.surroundings c.output c.text) = .ok c.text := by
  unfold deliver reported
  cases houtput : c.output with
  | none => exact ⟨rfl, rfl⟩
  | some p =>
    obtain ⟨l, hl⟩ := c.writable p houtput
    have hwrite : c.surroundings.disk.write p c.text = .ok _ := congrArg (Except.map _) hl
    simp only [hwrite]
    exact ⟨trivial, Disk.readText_write hwrite⟩

/-- The report of a run is the text of its scan, whatever the threshold. -/
theorem reported_outcome (h : c.AskedBy failOn arguments) :
    c.reported (c.outcome arguments) = .ok c.text := by
  have hdeliver := c.deliver_text.2
  rw [outcome_eq h]
  unfold reported at hdeliver ⊢
  rw [stdout_conclude, disk_conclude]
  exact hdeliver

/-- The exit code tells whether the scan fails. -/
theorem exit_outcome (h : c.AskedBy failOn arguments) :
    (c.Fails failOn → (c.outcome arguments).exit = 1) ∧
      (¬c.Fails failOn → (c.outcome arguments).exit = 0) := by
  have hfails : c.Fails failOn ↔
      (threshold failOn c.settings).any (reaches c.report) = true := by
    unfold Fails threshold
    simp only [Option.any_eq_true, reaches_report]
  rw [outcome_eq h, exit_conclude c.deliver_text.1, hfails]
  exact ⟨fun hany => if_pos hany, fun hany => if_neg hany⟩

/-! ## Scans that differ in their thresholds -/

/-- Two scans find the same things around them and give their reports to the same place, and their
settings are the same but for the defaults. The time counts only in the format that shows it. -/
structure Alike (a b : Case) : Prop where
  colors : a.surroundings.colors = b.surroundings.colors
  time : a.format = .sarif → a.surroundings.time = b.surroundings.time
  output : a.output = b.output
  declarations : a.declarations = b.declarations
  rule : a.settings.rule = b.settings.rule
  exclude : a.settings.exclude = b.settings.exclude

/-- The settings of one scan are those of the other with defaults of its own. -/
theorem Alike.settings_eq (h : c.Alike other) :
    other.settings = c.settings.withDefaults other.settings.defaults := by
  unfold Settings.withDefaults
  rw [h.rule, h.exclude]

theorem Alike.report_eq (h : c.Alike other) : other.report = c.report := by
  unfold report
  rw [h.settings_eq, ← h.declarations, Settings.run_withDefaults]

/-- In the same format, scans that are alike have one text. -/
theorem Alike.text_eq (h : c.Alike other) (hformat : c.format = other.format) :
    other.text = c.text := by
  have hrender : c.report.render other.surroundings.time c.format =
      c.report.render c.surroundings.time c.format := by
    cases hf : c.format with
    | text => rfl
    | json => rfl
    | sarif => rw [h.time hf]
  have houtput : (other.order none).output = (c.order none).output := h.output.symm
  unfold text rendered
  rw [h.report_eq, ← hformat, hrender, houtput, h.colors]

/-- The threshold of the command line goes before that of the settings. -/
theorem fails_some (c : Case) (t : Severity) :
    c.Fails (some t) ↔ c.settings.Reach c.declarations t := by
  unfold Fails
  simp only [Option.some_or, Option.some.injEq, exists_eq_left']

/-- With a threshold on the command line, scans that are alike fail together. -/
theorem Alike.fails_iff (h : c.Alike other) (t : Severity) :
    other.Fails (some t) ↔ c.Fails (some t) := by
  rw [fails_some, fails_some, h.settings_eq, ← h.declarations, Settings.reach_withDefaults]

/-- In the same format, scans that are alike give one report, whatever their thresholds. -/
theorem Alike.reported_eq (h : c.Alike other) (hformat : c.format = other.format)
    {failOn' : Option Severity} {arguments' : List String} (hasked : c.AskedBy failOn arguments)
    (hasked' : other.AskedBy failOn' arguments') :
    ∃ text, c.reported (c.outcome arguments) = .ok text ∧
      other.reported (other.outcome arguments') = .ok text := by
  have hother := reported_outcome hasked'
  rw [h.text_eq hformat] at hother
  exact ⟨c.text, reported_outcome hasked, hother⟩

/-- With a threshold on the command line, scans that are alike have one exit code. -/
theorem Alike.exit_eq (h : c.Alike other) {t : Severity} {arguments' : List String}
    (hasked : c.AskedBy (some t) arguments) (hasked' : other.AskedBy (some t) arguments') :
    (c.outcome arguments).exit = (other.outcome arguments').exit := by
  by_cases hfails : c.Fails (some t)
  · rw [(exit_outcome hasked).1 hfails, (exit_outcome hasked').1 ((h.fails_iff t).mpr hfails)]
  · rw [(exit_outcome hasked).2 hfails, (exit_outcome hasked').2 (hfails ∘ (h.fails_iff t).mp)]

theorem format_of_asked {format : Format} (h : c.asked = some format) : c.format = format := by
  have hknown := c.known
  rw [h, format_some] at hknown
  exact (Except.ok.inj hknown).symm

end Case

/-- **The exit code is 1 when findings reach the threshold and 0 otherwise, and the report does not
hang on the threshold.** What counts at or above a threshold are the findings of its severity or a
greater one. With format and threshold on the command line, the defaults of the settings change
neither the exit code nor the report. -/
theorem threshold_decides_exit_only (c : Case) :
    (∀ failOn arguments, c.AskedBy failOn arguments →
      (c.Fails failOn → (c.outcome arguments).exit = 1) ∧
        (¬c.Fails failOn → (c.outcome arguments).exit = 0)) ∧
    (∀ found t, (Summary.ofFindings found).atLeast t = found.countP fun f => t ≤ f.severity) ∧
    (∀ other : Case, c.Alike other → c.format = other.format →
      ∀ failOn failOn' arguments arguments', c.AskedBy failOn arguments →
        other.AskedBy failOn' arguments' →
        ∃ text, c.reported (c.outcome arguments) = .ok text ∧
          other.reported (other.outcome arguments') = .ok text) ∧
    (∀ other : Case, c.Alike other → ∀ format, c.asked = some format → other.asked = some format →
      ∀ t arguments arguments', c.AskedBy (some t) arguments → other.AskedBy (some t) arguments' →
        (c.outcome arguments).exit = (other.outcome arguments').exit ∧
        ∃ text, c.reported (c.outcome arguments) = .ok text ∧
          other.reported (other.outcome arguments') = .ok text) := by
  refine ⟨?_, Summary.atLeast_ofFindings, ?_, ?_⟩
  · intro failOn arguments hasked
    exact Case.exit_outcome hasked
  · intro other halike hformat failOn failOn' arguments arguments' hasked hasked'
    exact halike.reported_eq hformat hasked hasked'
  · intro other halike format hc hother t arguments arguments' hasked hasked'
    have hformat : c.format = other.format := by
      rw [Case.format_of_asked hc, Case.format_of_asked hother]
    exact ⟨halike.exit_eq hasked hasked', halike.reported_eq hformat hasked hasked'⟩

namespace Case

/-- A scan of declarations that come as lines on standard input, with its report shown as a
document. On the disk it looks for settings only. -/
def ofLines (disk : Disk) (ds : List Declaration) : Case where
  surroundings := { disk := disk, stdin := (DeclarationFile.linesText ds).toUTF8 }
  config := ⟨"."⟩
  inputs := [Input.standard]
  asked := some .json
  output := none
  format := .json
  declarations := ds
  known := format_some _ _
  loaded := Input.load_linesText disk ds
  writable := nofun

end Case

/-- Settings whose defaults ask for `critical` let a scan with findings of the least severity pass,
unless the command line asks for less. The report is the same, also without settings. -/
theorem threshold_decides_exit_only_defaults :
    ∃ a b : Case, a.settings.defaults ≠ b.settings.defaults ∧
      (a.outcome ["scan", "-", "-f", "json"]).exit = 0 ∧
      (a.outcome ["scan", "-", "-f", "json", "--fail-on", "info"]).exit = 1 ∧
      (b.outcome ["scan", "-", "-f", "json", "--fail-on", "info"]).exit = 1 ∧
      ∃ text, a.reported (a.outcome ["scan", "-", "-f", "json"]) = .ok text ∧
        b.reported (b.outcome ["scan", "-", "-f", "json", "--fail-on", "info"]) = .ok text := by
  let settings := "\x7b\"defaults\":\x7b\"fail_on\":\"critical\"\x7d\x7d"
  let ds : List Declaration := [⟨"Get", true, none, none⟩]
  let a := Case.ofLines { entries := [([".async-naming.json"], .file settings.toUTF8)] } ds
  let b := Case.ofLines {} ds
  -- the settings are found on the disk of the one scan, and nowhere on that of the other
  have ha : a.settings = { defaults := ⟨none, some .critical⟩ } := by decide +kernel
  have hb : b.settings = {} := by decide +kernel
  have hparse : (parseArguments ["scan", "-", "-f", "json"]).toOption =
      some (.run ⟨⟨"."⟩, .warn, .scan [Input.standard] (some .json) none none⟩) := by decide +kernel
  have hparse' : (parseArguments ["scan", "-", "-f", "json", "--fail-on", "info"]).toOption =
      some (.run ⟨⟨"."⟩, .warn, .scan [Input.standard] (some .json) none (some .info)⟩) := by
    decide +kernel
  have hnone : a.AskedBy none _ := Case.askedBy_of_toOption hparse
  have hinfo : ∀ disk, (Case.ofLines disk ds).AskedBy (some .info) _ := fun _ =>
    Case.askedBy_of_toOption hparse'
  -- without a threshold on the command line the defaults ask for more than findings have
  have hpasses : ¬a.Fails none := by
    rintro ⟨t, ht, hreach⟩
    have hseverity := hreach.severity
    rw [ha] at ht hseverity
    cases ht
    exact absurd hseverity (by decide)
  have hfails : a.Fails (some .info) := by
    rw [Case.fails_some]
    refine ⟨?_, ⟨⟨"Get", true, none, none⟩, List.mem_singleton_self _, rfl, ?_, ?_⟩, ?_⟩
    · rw [ha]
      decide
    · decide +kernel
    · rw [ha]
      rfl
    · rw [ha]
      decide
  have halike : a.Alike b :=
    { colors := rfl
      time := fun _ => rfl
      output := rfl
      declarations := rfl
      rule := by rw [ha, hb]
      exclude := by rw [ha, hb] }
  obtain ⟨hexit, -, hreport, hboth⟩ := threshold_decides_exit_only a
  have hone := (hexit _ _ (hinfo _)).1 hfails
  have hsame := (hboth b halike .json rfl rfl .info _ _ (hinfo _) (hinfo _)).1
  refine ⟨a, b, ?_, (hexit _ _ hnone).2 hpasses, hone, hsame ▸ hone, ?_⟩
  · rw [ha, hb]
    decide
  · exact hreport b halike rfl none (some .info) _ _ hnone (hinfo _)

end Command.Scan

end SuffixLint
