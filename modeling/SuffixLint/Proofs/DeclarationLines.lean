import SuffixLint.Input
import SuffixLint.Proofs.DeclarationMembers
import SuffixLint.Proofs.Text.Lines
/-!
# Declarations on lines

What lines give is told by what each line gives on its own (`ofLine`): nothing, one declaration, or a
refusal, of which only the number of the line is kept (`outcome`). A carriage return at the end of a
line changes nothing in that, and neither does an empty line at the end of a text. So the lines of a
text may be taken for its pieces between newlines (`outcome_linesOfPieces`), and a newline between two
texts keeps these apart: what they give is put together, with the numbers of the lines of the second
text moved on (`located_append`). Texts of white space, put before, behind or between, only move
numbers (`parse_lines_append`), and carriage returns before newlines do not even do that
(`parse_lines_withReturns`).
-/

namespace SuffixLint

open Json Text

namespace Declaration

/-- A declaration is read from documents only. -/
theorem takesDocuments_codec : codec.TakesDocuments :=
  Codec.takesDocuments_imap
    (Codec.takesDocuments_record "Declaration" scalars_fields (by decide)) _ _

end Declaration

namespace DeclarationFile

/-! ## One line -/

/-- What a line gives: no declaration when it is blank, one when it can be parsed. -/
def ofLine (l : List Char) : Option (List Declaration) :=
  if allBlank l then some [] else (Declaration.codec.parse l).toOption.map fun d => [d]

theorem ofLine_of_allBlank {l : List Char} (h : allBlank l = true) : ofLine l = some [] :=
  if_pos h

/-- A carriage return at the end of a line changes nothing. -/
theorem ofLine_of_isLineOf {l piece : List Char} (h : IsLineOf l piece) :
    ofLine piece = ofLine l := by
  rcases h with rfl | rfl
  · rfl
  · -- to white space the return belongs as well as to the spaces behind a document
    have hblank : allBlank (l ++ ['\r']) = allBlank l := by
      have hreturn : allBlank ['\r'] = true := by decide
      rw [allBlank, List.all_append]
      change (allBlank l && allBlank ['\r']) = allBlank l
      rw [hreturn, Bool.and_true]
    rw [ofLine, ofLine, hblank,
      Declaration.takesDocuments_codec.toOption_parse_append_space (by decide) l]

/-! ## Lines -/

/-- What lines give of which the first has a given number: their declarations, or the number of the
first line that is refused. -/
def outcome (number : Nat) (ls : List (List Char)) : Except Nat (List Declaration) :=
  (readLines number ls).mapError LineError.line

theorem outcome_cons (number : Nat) (l : List Char) (ls : List (List Char)) :
    outcome number (l :: ls) = match ofLine l with
      | none => .error number
      | some ds => (outcome (number + 1) ls).map (ds ++ ·) := by
  rw [outcome, outcome, readLines, ofLine]
  by_cases hblank : allBlank l = true
  · rw [if_pos hblank, if_pos hblank]
    cases readLines (number + 1) ls <;> rfl
  · rw [if_neg hblank, if_neg hblank]
    cases Declaration.codec.parse l with
    | error e => rfl
    | ok d => cases readLines (number + 1) ls <;> rfl

/-- Lines that give the same one by one give the same together. -/
theorem outcome_congr {ls ls' : List (List Char)}
    (h : List.Forall₂ (fun l l' => ofLine l = ofLine l') ls ls') (number : Nat) :
    outcome number ls = outcome number ls' := by
  induction h generalizing number with
  | nil => rfl
  | cons hline _ ih => rw [outcome_cons, outcome_cons, hline, ih]

/-- Lines behind others are numbered on. -/
theorem outcome_append (number : Nat) (ls more : List (List Char)) :
    outcome number (ls ++ more) = (outcome number ls).bind fun ds =>
      (outcome (number + ls.length) more).map (ds ++ ·) := by
  induction ls generalizing number with
  | nil =>
    change outcome number more = (outcome number more).map id
    cases outcome number more <;> rfl
  | cons l ls ih =>
    rw [List.cons_append, outcome_cons, outcome_cons]
    cases ofLine l with
    | none => rfl
    | some ds =>
      simp only [ih]
      have hnumber : number + (l :: ls).length = number + 1 + ls.length := by
        rw [List.length_cons]
        omega
      rw [hnumber]
      cases outcome (number + 1) ls with
      | error i => rfl
      | ok ds' =>
        change ((outcome (number + 1 + ls.length) more).map (ds' ++ ·)).map (ds ++ ·) =
          (outcome (number + 1 + ls.length) more).map (ds ++ ds' ++ ·)
        cases outcome (number + 1 + ls.length) more with
        | error i => rfl
        | ok ds'' => exact congrArg Except.ok (List.append_assoc ds ds' ds'').symm

/-- The number of the first line moves the number of a line that is refused. -/
theorem outcome_add (k number : Nat) (ls : List (List Char)) :
    outcome (k + number) ls = (outcome number ls).mapError (k + ·) := by
  induction ls generalizing number with
  | nil => rfl
  | cons l ls ih =>
    rw [outcome_cons, outcome_cons, Nat.add_assoc, ih]
    cases ofLine l with
    | none => rfl
    | some ds => cases outcome (number + 1) ls <;> rfl

/-- A line that is refused is one of the lines. -/
theorem bounds_of_outcome {number i : Nat} {ls : List (List Char)}
    (h : outcome number ls = .error i) : number ≤ i ∧ i < number + ls.length := by
  induction ls generalizing number with
  | nil => cases h
  | cons l ls ih =>
    rw [outcome_cons] at h
    rw [List.length_cons]
    cases hline : ofLine l with
    | none =>
      rw [hline] at h
      obtain rfl := Except.error.inj h
      omega
    | some ds =>
      rw [hline] at h
      cases hothers : outcome (number + 1) ls with
      | ok ds' =>
        simp only [hothers] at h
        cases h
      | error j =>
        simp only [hothers] at h
        obtain rfl := Except.error.inj h
        have := ih hothers
        omega

theorem outcome_of_allBlank {ls : List (List Char)} (h : ∀ l ∈ ls, allBlank l = true)
    (number : Nat) : outcome number ls = .ok [] := by
  induction ls generalizing number with
  | nil => rfl
  | cons l ls ih =>
    rw [outcome_cons, ofLine_of_allBlank (h l List.mem_cons_self),
      ih fun m hm => h m (List.mem_cons_of_mem l hm)]
    rfl

/-- The lines of a text give what its pieces between newlines give. -/
theorem outcome_linesOfPieces (number : Nat) (pieces : List (List Char)) :
    outcome number (linesOfPieces pieces) = outcome number pieces := by
  induction pieces generalizing number with
  | nil => rfl
  | cons piece pieces ih =>
    cases pieces with
    | nil =>
      -- the piece behind the last newline is no line when it is empty, and a blank one gives nothing
      rw [linesOfPieces]
      split
      · rename_i hempty
        rw [List.isEmpty_iff.mp hempty]
        rfl
      · rfl
    | cons next pieces =>
      rw [linesOfPieces, outcome_cons, outcome_cons, ih,
        ofLine_of_isLineOf (isLineOf_dropReturn piece)]
      exact List.cons_ne_nil next pieces

/-! ## Texts -/

/-- What a text of lines gives: its declarations, or the number of the first line that is refused. -/
def located (text : List Char) : Except Nat (List Declaration) :=
  (ofLines text).mapError LineError.line

theorem located_eq (text : List Char) : located text = outcome 1 (splitNewlines text) :=
  outcome_linesOfPieces 1 (splitNewlines text)

/-- A text without newlines gives what it gives as a line. -/
theorem located_of_not_mem {text : List Char} (h : '\n' ∉ text) {ds : List Declaration} :
    located text = .ok ds ↔ ofLine text = some ds := by
  rw [located_eq, splitNewlines_of_not_mem h, outcome_cons]
  cases ofLine text with
  | none =>
    change Except.error 1 = .ok ds ↔ _
    simp
  | some ds' =>
    change Except.ok (ds' ++ []) = .ok ds ↔ _
    rw [List.append_nil, Except.ok.injEq, Option.some.injEq]

/-- **A newline keeps two texts apart**: they give what each of them gives, and the first line that
is refused keeps its number in its text, which in the second text is counted on from the first. -/
theorem located_append (a b : List Char) : located (a ++ '\n' :: b) =
    (located a).bind fun ds =>
      ((located b).mapError (a.count '\n' + 1 + ·)).map (ds ++ ·) := by
  rw [located_eq, located_eq, located_eq, splitNewlines_append_newline, outcome_append,
    length_splitNewlines, Nat.add_comm 1, outcome_add]

theorem located_of_allBlank {text : List Char} (h : allBlank text = true) :
    located text = .ok [] := by
  rw [located_eq]
  apply outcome_of_allBlank
  intro piece hpiece
  rw [allBlank, List.all_eq_true] at h ⊢
  intro c hc
  exact h c (mem_of_mem_splitNewlines hpiece hc)

/-- A line that is refused is one of those that the newlines of the text divide it into. -/
theorem bounds_of_located {text : List Char} {i : Nat} (h : located text = .error i) :
    1 ≤ i ∧ i ≤ text.count '\n' + 1 := by
  rw [located_eq] at h
  have hbounds := bounds_of_outcome h
  rw [length_splitNewlines] at hbounds
  omega

/-- **Carriage returns before newlines make no difference.** -/
theorem located_withReturns (text : List Char) : located (withReturns text) = located text := by
  rw [located_eq, located_eq]
  apply outcome_congr
  apply (forall₂_splitNewlines_withReturns text).flip.imp
  intro piece l hline
  exact ofLine_of_isLineOf hline

end DeclarationFile

namespace Input

open DeclarationFile

/-- A text of lines is refused for the line of this number. -/
def FailsAt (p : Path) (text : String) (line : Nat) : Prop :=
  ∃ cause, parseLines p text = .error (.badLine p line cause)

/-- How often a text goes on to another line. -/
def newlines (text : String) : Nat :=
  text.toList.count '\n'

/-- Another text gives the same declarations as a text, and is refused when it is, for the line that
the refused one has moved to. -/
structure GivesSame (p : Path) (move : Nat → Nat) (text other : String) : Prop where
  declarations : ∀ ds, parseLines p other = .ok ds ↔ parseLines p text = .ok ds
  line : ∀ i, FailsAt p other i ↔ ∃ j, FailsAt p text j ∧ i = move j

section Located

variable {p : Path} {text : String}

theorem parseLines_eq_ok_iff {ds : List Declaration} :
    parseLines p text = .ok ds ↔ located text.toList = .ok ds := by
  rw [parseLines, located, mapError_eq_ok, mapError_eq_ok]

theorem failsAt_iff {i : Nat} : FailsAt p text i ↔ located text.toList = .error i := by
  simp only [FailsAt, parseLines, located, mapError_eq_error]
  constructor
  · rintro ⟨cause, e, he, heq⟩
    obtain ⟨-, rfl, -⟩ := InputError.badLine.inj heq
    exact ⟨e, he, rfl⟩
  · rintro ⟨e, he, rfl⟩
    exact ⟨e.cause, e, he, rfl⟩

theorem givesSame_of_located {move : Nat → Nat} {other : String}
    (h : located other.toList = (located text.toList).mapError move) :
    GivesSame p move text other where
  declarations ds := by
    rw [parseLines_eq_ok_iff, parseLines_eq_ok_iff, h, mapError_eq_ok]
  line i := by
    rw [failsAt_iff, h, mapError_eq_error]
    simp only [failsAt_iff]
    constructor
    · rintro ⟨j, hj, rfl⟩
      exact ⟨j, hj, rfl⟩
    · rintro ⟨j, hj, rfl⟩
      exact ⟨j, hj, rfl⟩

end Located

theorem toList_append_newline (a b : String) :
    (a ++ "\n" ++ b).toList = a.toList ++ '\n' :: b.toList := by
  rw [String.toList_append, String.toList_append, List.append_assoc]
  rfl

theorem located_append_newline (a b : String) : located (a ++ "\n" ++ b).toList =
    (located a.toList).bind fun ds =>
      ((located b.toList).mapError (newlines a + 1 + ·)).map (ds ++ ·) := by
  rw [toList_append_newline, located_append]
  rfl

theorem newlines_append_newline (a b : String) :
    newlines (a ++ "\n" ++ b) = newlines a + 1 + newlines b := by
  rw [newlines, toList_append_newline, List.count_append, List.count_cons_self, newlines, newlines]
  omega

/-! ## White space -/

section Blank

variable (p : Path) {w : String} (hw : allBlank w.toList = true) (a b : String)
include hw

theorem givesSame_blank_before : GivesSame p (newlines w + 1 + ·) b (w ++ "\n" ++ b) := by
  apply givesSame_of_located
  rw [located_append_newline, located_of_allBlank hw]
  cases located b.toList <;> rfl

theorem givesSame_blank_behind : GivesSame p id a (a ++ "\n" ++ w) := by
  apply givesSame_of_located
  rw [located_append_newline, located_of_allBlank hw, mapError_id]
  cases located a.toList with
  | error i => rfl
  | ok ds => exact congrArg Except.ok (List.append_nil ds)

/-- What stands behind the white space is moved, and what stands before it is not. -/
theorem givesSame_blank_between :
    GivesSame p (fun i => if i ≤ newlines a + 1 then i else newlines w + 1 + i)
      (a ++ "\n" ++ b) (a ++ "\n" ++ w ++ "\n" ++ b) := by
  apply givesSame_of_located
  rw [located_append_newline, located_append_newline a w, located_append_newline a b,
    located_of_allBlank hw]
  -- a line of `a` stands before the white space and a line of `b` behind it, by their numbers
  cases ha : located a.toList with
  | error i =>
    have hbounds := bounds_of_located ha
    exact congrArg Except.error (if_pos hbounds.2).symm
  | ok ds =>
    cases hb : located b.toList with
    | ok ds' => exact congrArg Except.ok (congrArg (· ++ ds') (List.append_nil ds))
    | error j =>
      have hbounds := bounds_of_located hb
      apply congrArg Except.error
      change newlines (a ++ "\n" ++ w) + 1 + j =
        if newlines a + 1 + j ≤ newlines a + 1 then newlines a + 1 + j
        else newlines w + 1 + (newlines a + 1 + j)
      rw [if_neg (by omega), newlines_append_newline]
      omega

end Blank

/-- **Lines put together.** Two texts with a newline between them are parsed just if each of them is,
and give the declarations of both. Otherwise the whole is refused for the line for which the first
text is refused, or if that one is parsed, for the line for which the second one is, counted on from
the lines of the first. So all comes down to single lines: a text is parsed or refused for one of
its lines, and is parsed as what it gives as a line if it has only one. White space of any length, put
before, behind or between texts on lines of its own, changes no declarations and only moves the line
for which what stands behind it is refused. -/
theorem parseLines_append (p : Path) (a b : String) :
    (∀ ds, parseLines p (a ++ "\n" ++ b) = .ok ds ↔
      ∃ ds₁ ds₂, parseLines p a = .ok ds₁ ∧ parseLines p b = .ok ds₂ ∧ ds = ds₁ ++ ds₂) ∧
    (∀ i, FailsAt p (a ++ "\n" ++ b) i ↔ FailsAt p a i ∨
      ∃ ds j, parseLines p a = .ok ds ∧ FailsAt p b j ∧ i = newlines a + 1 + j) ∧
    (∀ text, (∃ ds, parseLines p text = .ok ds) ∨
      ∃ i, FailsAt p text i ∧ 1 ≤ i ∧ i ≤ newlines text + 1) ∧
    (∀ line, newlines line = 0 → ∀ ds, parseLines p line = .ok ds ↔ ofLine line.toList = some ds) ∧
    ∀ w : String, allBlank w.toList = true →
      GivesSame p (newlines w + 1 + ·) b (w ++ "\n" ++ b) ∧
      GivesSame p id a (a ++ "\n" ++ w) ∧
      GivesSame p (fun i => if i ≤ newlines a + 1 then i else newlines w + 1 + i)
        (a ++ "\n" ++ b) (a ++ "\n" ++ w ++ "\n" ++ b) := by
  refine ⟨?_, ?_, ?_, ?_, ?_⟩
  · intro ds
    simp only [parseLines_eq_ok_iff, located_append_newline, bind_eq_ok, map_eq_ok, mapError_eq_ok]
    constructor
    · rintro ⟨ds₁, ha, ds₂, hb, rfl⟩
      exact ⟨ds₁, ds₂, ha, hb, rfl⟩
    · rintro ⟨ds₁, ds₂, ha, hb, rfl⟩
      exact ⟨ds₁, ha, ds₂, hb, rfl⟩
  · intro i
    simp only [parseLines_eq_ok_iff, failsAt_iff, located_append_newline, bind_eq_error,
      map_eq_error, mapError_eq_error]
    constructor
    · rintro (ha | ⟨ds, ha, j, hb, rfl⟩)
      · exact Or.inl ha
      · exact Or.inr ⟨ds, j, ha, hb, rfl⟩
    · rintro (ha | ⟨ds, j, ha, hb, rfl⟩)
      · exact Or.inl ha
      · exact Or.inr ⟨ds, ha, j, hb, rfl⟩
  · intro text
    simp only [failsAt_iff, parseLines_eq_ok_iff]
    cases hlocated : located text.toList with
    | ok ds => exact Or.inl ⟨ds, rfl⟩
    | error i => exact Or.inr ⟨i, rfl, bounds_of_located hlocated⟩
  · intro line hline ds
    rw [parseLines_eq_ok_iff, located_of_not_mem (List.count_eq_zero.mp hline)]
  · intro w hw
    exact ⟨givesSame_blank_before p hw b, givesSame_blank_behind p hw a,
      givesSame_blank_between p hw a b⟩

/-- Two lines of white space, an ideographic space and a no-break one, before a line that is refused
and moves from the second place to the fourth. -/
theorem parseLines_append_spaces :
    let p : Path := ⟨"d.jsonl"⟩
    let a := "\x7b\"name\":\"B\",\"async\":true\x7d"
    let w := "\u3000\n\u00a0"
    allBlank w.toList = true ∧ FailsAt p (a ++ "\n" ++ "\x7b") 2 ∧
      FailsAt p (a ++ "\n" ++ w ++ "\n" ++ "\x7b") 4 := by
  intro p a w
  have hblank : allBlank w.toList = true := by decide
  obtain ⟨-, hfails, htext, hline, hwhite⟩ := parseLines_append p a "\x7b"
  have ha : parseLines p a = .ok [⟨"B", true, none, none⟩] :=
    (hline a (by decide) _).mpr (by decide +kernel)
  have hb : FailsAt p "\x7b" 1 := by
    have hnewlines : newlines "\x7b" = 0 := by decide
    rcases htext "\x7b" with ⟨ds, hds⟩ | ⟨i, hi, hfirst, hlast⟩
    · have hnone : ofLine "\x7b".toList = none := by decide +kernel
      rw [hline _ hnewlines, hnone] at hds
      cases hds
    · obtain rfl : i = 1 := by omega
      exact hi
  have htwo : FailsAt p (a ++ "\n" ++ "\x7b") 2 :=
    (hfails 2).mpr (Or.inr ⟨_, 1, ha, hb, by decide⟩)
  exact ⟨hblank, htwo, ((hwhite w hblank).2.2.line 4).mpr ⟨2, htwo, by decide⟩⟩

/-- **Line endings do not matter**: with a carriage return before each newline a text gives the same
declarations, or is refused for the same line. -/
theorem parseLines_withReturns (p : Path) (text : String) :
    GivesSame p id text (String.ofList (withReturns text.toList)) := by
  apply givesSame_of_located
  rw [String.toList_ofList, located_withReturns, mapError_id]

end Input

end SuffixLint
