import SuffixLint.Proofs.Report.Sarif
/-!
# Regions of a SARIF log

The format counts lines from one. A log has a region for each file of a finding with a line, and the
region starts at that line as it was given (`holds_region_log`). Nothing between the records and the
log looks at the number, so the regions of a log start at its first line or behind it just if no
record that is reported with a file gives line zero (`startLine_pos_iff`).
-/

namespace SuffixLint

namespace Json

/-! ## What stands under a key, however deep -/

/-- A value stands under a key somewhere in a document. -/
inductive Holds (key : String) (w : Json) : Json → Prop
  | here {members : List (String × Json)} (h : (key, w) ∈ members) : Holds key w (.object members)
  | member {members : List (String × Json)} {m : String × Json} (hm : m ∈ members)
    (h : Holds key w m.2) : Holds key w (.object members)
  | item {items : List Json} {v : Json} (hv : v ∈ items) (h : Holds key w v) :
    Holds key w (.array items)

/-- A value stands under a key among members, or in one of them. -/
def HeldIn (key : String) (w : Json) (members : List (String × Json)) : Prop :=
  (key, w) ∈ members ∨ ∃ m ∈ members, Holds key w m.2

variable {key k : String} {v w : Json} {members rest : List (String × Json)} {items : List Json}

@[simp] theorem not_holds_string (s : String) : ¬Holds key w (.string s) := by
  rintro ⟨⟩

@[simp] theorem not_holds_bool (b : Bool) : ¬Holds key w (.bool b) := by
  rintro ⟨⟩

@[simp] theorem not_holds_nat (n : Nat) : ¬Holds key w (.nat n) := by
  rintro ⟨⟩

@[simp] theorem holds_array : Holds key w (.array items) ↔ ∃ v ∈ items, Holds key w v := by
  constructor
  · intro h
    cases h with
    | item hv h => exact ⟨_, hv, h⟩
  · rintro ⟨v, hv, h⟩
    exact .item hv h

@[simp] theorem holds_object : Holds key w (.object members) ↔ HeldIn key w members := by
  constructor
  · intro h
    cases h with
    | here h => exact .inl h
    | member hm h => exact .inr ⟨_, hm, h⟩
  · rintro (h | ⟨m, hm, h⟩)
    · exact .here h
    · exact .member hm h

@[simp] theorem heldIn_nil : ¬HeldIn key w [] := by
  simp [HeldIn]

@[simp] theorem heldIn_cons : HeldIn key w ((k, v) :: members) ↔
    (key = k ∧ w = v) ∨ Holds key w v ∨ HeldIn key w members := by
  simp only [HeldIn, List.mem_cons, Prod.mk.injEq, exists_eq_or_imp]
  rw [or_assoc, or_left_comm (b := Holds key w v)]

@[simp] theorem heldIn_append :
    HeldIn key w (members ++ rest) ↔ HeldIn key w members ∨ HeldIn key w rest := by
  simp only [HeldIn, List.mem_append, or_and_right, exists_or]
  exact or_or_or_comm

end Json

namespace Report.Sarif

open Json

variable {w : Json}

/-! ## The regions of a log -/

/-- The region that starts at a line. -/
def regionAt (line : UInt32) : Json :=
  .object [("startLine", .nat line.toNat)]

/-- The line at which a region starts. -/
def startLine? (region : Json) : Option Nat :=
  (region.member? "startLine").bind nat?

/-- A list that may be left out holds what its items hold, under another key than its own. -/
theorem heldIn_unlessEmpty {key : String} (hkey : "region" ≠ key) (items : List Json) :
    HeldIn "region" w (unlessEmpty key items) ↔ ∃ v ∈ items, Holds "region" w v := by
  unfold unlessEmpty
  cases items with
  | nil => simp
  | cons v vs => simp [hkey]

theorem holds_region_location (line : Option UInt32) (p : Path) :
    Holds "region" w (location line p) ↔
      ∃ n ∈ line, w = regionAt n := by
  cases line with
  | none => simp [location, region]
  | some n => simp [location, region, regionAt]

theorem not_holds_region_rule (v : Verdict) : ¬Holds "region" w (rule v) := by
  simp [rule, message]

theorem not_holds_region_properties (f : Finding) : ¬Holds "region" w (properties f) := by
  cases hsuggested : f.suggestedName <;> simp [properties, hsuggested]

theorem holds_region_result (f : Finding) : Holds "region" w (result f) ↔
    f.affectedFiles ≠ [] ∧ ∃ n ∈ f.line, w = regionAt n := by
  have hlocations : HeldIn "region" w
      (unlessEmpty "locations" (f.affectedFiles.map (location f.line))) ↔
        f.affectedFiles ≠ [] ∧ ∃ n ∈ f.line, w = regionAt n := by
    rw [heldIn_unlessEmpty (by decide)]
    constructor
    · rintro ⟨v, hv, hw⟩
      obtain ⟨p, hp, rfl⟩ := List.mem_map.mp hv
      exact ⟨List.ne_nil_of_mem hp, (holds_region_location f.line p).mp hw⟩
    · rintro ⟨hfiles, hw⟩
      obtain ⟨p, hp⟩ := List.exists_mem_of_ne_nil _ hfiles
      exact ⟨_, List.mem_map_of_mem hp, (holds_region_location f.line p).mpr hw⟩
  have hfixes : ¬HeldIn "region" w (unlessEmpty "fixes" (fixes f)) := by
    rw [heldIn_unlessEmpty (by decide)]
    simp [fixes, message]
  simp [result, message, hlocations, hfixes, not_holds_region_properties]

/-- The regions of a log are those of its findings with a file and a line. -/
theorem holds_region_log (time : String) (fs : List Finding) : Holds "region" w (log time fs) ↔
    ∃ f ∈ fs, f.affectedFiles ≠ [] ∧ ∃ n ∈ f.line, w = regionAt n := by
  simp [log, not_holds_region_rule, holds_region_result]

/-- The regions in the log of the standard linter are those of the records that are reported with a
file and a line. -/
theorem holds_region_run (s : Settings) (ds : List Declaration) (time : String) :
    Holds "region" w (log time ((Linter.standard s).value.run ds).value) ↔
      ∃ d ∈ ds, s.reports d = true ∧ d.file ≠ none ∧ ∃ n ∈ d.line, w = regionAt n := by
  have hfile : ∀ d, (Linter.standardFinding s d).affectedFiles ≠ [] ↔ d.file ≠ none := fun d =>
    not_congr Option.toList_eq_nil_iff
  rw [holds_region_log]
  constructor
  · rintro ⟨f, hf, hfiles, hline⟩
    obtain ⟨d, hd, hreports, rfl⟩ := Linter.mem_run_standard.mp hf
    exact ⟨d, hd, hreports, (hfile d).mp hfiles, hline⟩
  · rintro ⟨d, hd, hreports, hfiles, hline⟩
    exact ⟨_, Linter.mem_run_standard.mpr ⟨d, hd, hreports, rfl⟩, (hfile d).mpr hfiles, hline⟩

/-- **The regions of a log start at the format's first line or behind it** just if no record that is
reported with a file gives line zero. In the log of the standard linter the regions are those of the
records that are reported with a file and a line, and start where these say. -/
theorem startLine_pos_iff (s : Settings) (ds : List Declaration) (time : String) :
    let found := ((Linter.standard s).value.run ds).value
    ∃ v, Json.ofText ((Report.ofFindings found ds).render time .sarif).toList = .ok v ∧
      (∀ region, Holds "region" region v ↔
        ∃ d ∈ ds, s.reports d = true ∧ d.file ≠ none ∧ ∃ n ∈ d.line, region = regionAt n) ∧
      ((∀ region, Holds "region" region v → ∃ n, startLine? region = some n ∧ 1 ≤ n) ↔
        ∀ d ∈ ds, s.reports d = true → d.file ≠ none → d.line ≠ some 0) := by
  intro found
  refine ⟨_, ofText_render_sarif (Report.ofFindings found ds) time,
    fun region => holds_region_run s ds time, ?_, ?_⟩
  · -- a record with line zero would have a region that starts there
    intro h d hd hreports hfile hline
    obtain ⟨n, hn, hpos⟩ := h (regionAt 0)
      ((holds_region_run s ds time).mpr ⟨d, hd, hreports, hfile, 0, hline, rfl⟩)
    obtain rfl : 0 = n := Option.some.inj hn
    exact absurd hpos (by decide)
  · intro h region hregion
    obtain ⟨d, hd, hreports, hfile, n, hline, rfl⟩ := (holds_region_run s ds time).mp hregion
    refine ⟨n.toNat, rfl, Nat.one_le_iff_ne_zero.mpr fun hzero => h d hd hreports hfile ?_⟩
    have hn : n = 0 := UInt32.toNat_inj.mp hzero
    exact hn ▸ hline

/-- A record may give line zero, and its region starts there. -/
theorem startLine_zero :
    let d : Declaration := ⟨"Load", true, some ⟨"a.cs"⟩, some 0⟩
    let found := ((Linter.standard {}).value.run [d]).value
    ∃ v region, Json.ofText ((Report.ofFindings found [d]).render "" .sarif).toList = .ok v ∧
      Holds "region" region v ∧ startLine? region = some 0 := by
  intro d found
  have hreports : ({} : Settings).reports d = true := by decide +kernel
  have hfile : d.file ≠ none := Option.some_ne_none _
  refine ⟨_, regionAt 0, ofText_render_sarif (Report.ofFindings found [d]) "", ?_, rfl⟩
  exact (holds_region_run {} [d] "").mpr
    ⟨d, List.mem_singleton_self d, hreports, hfile, 0, rfl, rfl⟩

end Report.Sarif

end SuffixLint
