import SuffixLint.Command
import SuffixLint.Proofs.Json.Record
import SuffixLint.Proofs.Linter.Run
/-!
# One name and one declaration

A name is judged on its own by the command that checks it, and with its declaration by a linter. The
answer of the command is a text; what it says is read from that text here by a record of its own
(`Answer.codec`), which knows the keys of an answer and not how the command puts one together. Then
both judgements can be laid side by side (`Answer.AgreesWith`): on the one declaration of the name,
wherever it stands, the standard linter finds what the command answers.
-/

namespace SuffixLint.Command.Name

/-- What is answered of a name. -/
structure Answer where
  name : String
  isAsync : Bool
  verdict : Verdict
  message : Option String
  fix : Option String
  suggestedName : Option String
  deriving DecidableEq, Repr

namespace Answer

/-- The fields of an answer: what there is to say only of a name that breaks the convention may be
left out. -/
def fields :=
  Fields.cons ⟨"name", [], Codec.string, none, fun _ => false⟩ <|
  .cons ⟨"is_async", [], Codec.bool, none, fun _ => false⟩ <|
  .cons ⟨"verdict", [], Verdict.codec, none, fun _ => false⟩ <|
  .cons (.maybe "message" Codec.string) <|
  .cons (.maybe "fix" Codec.string) <|
  .cons (.maybe "suggested_name" Codec.string) .nil

/-- Answers as records. -/
def codec : Codec Answer :=
  (Codec.record "Answer" fields).imap
    (fun (name, isAsync, verdict, message, fix, suggestedName, _) =>
      ⟨name, isAsync, verdict, message, fix, suggestedName⟩)
    (fun a => (a.name, a.isAsync, a.verdict, a.message, a.fix, a.suggestedName, ()))

/-- The answer that is due for a name and a flag. -/
def due (name : String) (isAsync : Bool) : Answer :=
  let v := Verdict.classify isAsync name
  ⟨name, isAsync, v, v.message?, v.fixTitle?, v.suggestedName? name⟩

/-- Findings say of a name what an answer says of it: nothing just if the answer finds it compliant,
and otherwise one thing, with the same verdict and the same words. -/
structure AgreesWith (a : Answer) (found : List Finding) : Prop where
  none_iff : found = [] ↔ a.verdict = .compliant
  one : a.verdict ≠ .compliant → ∃ f message fix suggested, found = [f] ∧
    a.message = some message ∧ a.fix = some fix ∧ a.suggestedName = some suggested ∧
      f.verdict = a.verdict.code ∧ f.suggestedName = some suggested ∧
        f.title = message ++ ": " ++ a.name ∧
          f.suggestedFix = some (fix ++ ": rename to `" ++ suggested ++ "`")

/-! ## The answer read back -/

/-- The document that is shown of a name is the answer that is due, as a record. -/
theorem document_eq (name : String) (isAsync : Bool) :
    document name isAsync = codec.encode (due name isAsync) := by
  unfold document due
  -- the members that may be left out are there together or not at all, as the verdict says
  cases Verdict.classify isAsync name <;> rfl

theorem restores_verdict (v : Verdict) : Verdict.codec.Restores v := by
  have hcode : ∀ w : Verdict, w.code = v.code → w = v := by
    cases v <;> intro w <;> cases w <;> decide
  refine Codec.restores_choice ?_ fun w _ => hcode w
  cases v <;> decide

theorem restores_codec (a : Answer) : codec.Restores a := by
  have hstring : ∀ s : String, Codec.string.Restores s := Codec.restores_stringAs "a string"
  have hnote : ∀ o : Option String, Codec.string.option.Restores o := fun o =>
    Codec.restores_option (fun s _ => hstring s) fun _ => nofun
  refine Codec.restores_imap (Codec.restores_record "Answer" ?_ (by decide)) rfl
  exact ⟨hstring a.name, Codec.restores_bool a.isAsync, restores_verdict a.verdict,
    Fields.restore_maybe (hnote a.message), Fields.restore_maybe (hnote a.fix),
    Fields.restore_maybe (hnote a.suggestedName), trivial⟩

/-! ## What the linter finds -/

/-- Without settings a declaration is reported just if it breaks the convention. -/
theorem reports_default (d : Declaration) :
    Settings.reports {} d = !d.verdict.isCompliant := by
  have hkept : Settings.excludes {} d = false := by
    unfold Settings.excludes Settings.excludesNamed Settings.excludesPath
    cases d.file <;> rfl
  have hon : ({} : Settings).rule.enabled ≠ some false := by decide
  rw [Linter.reports_eq_flags hon, Linter.flags_eq, hkept, Bool.not_false, Bool.and_true]

/-- On one declaration the standard linter finds one thing or nothing. -/
theorem run_one (d : Declaration) :
    ((Linter.standard {}).value.run [d]).value =
      if d.verdict.isCompliant then [] else [Linter.standardFinding {} d] := by
  rw [Linter.value_run_standard, List.filter_cons, reports_default, List.filter_nil]
  cases d.verdict.isCompliant with
  | true => exact List.mergeSort_nil
  | false => exact List.mergeSort_singleton _

/-- Of a name that breaks the convention there is everything to say. -/
theorem exists_words {v : Verdict} (h : v.isCompliant = false) (name : String) :
    ∃ message fix suggested, v.message? = some message ∧ v.fixTitle? = some fix ∧
      v.suggestedName? name = some suggested := by
  cases v with
  | compliant => cases h
  | missingSuffix => exact ⟨_, _, _, rfl, rfl, rfl⟩
  | misspelledSuffix => exact ⟨_, _, _, rfl, rfl, rfl⟩
  | misplacedSuffix => exact ⟨_, _, _, rfl, rfl, rfl⟩

/-- The answer that is due for a name agrees with what is found on its declaration. -/
theorem due_agreesWith (name : String) (isAsync : Bool) (file : Option Path)
    (line : Option UInt32) :
    (due name isAsync).AgreesWith
      ((Linter.standard {}).value.run [⟨name, isAsync, file, line⟩]).value := by
  let d : Declaration := ⟨name, isAsync, file, line⟩
  have hverdict : (due name isAsync).verdict = d.verdict := rfl
  rw [run_one]
  by_cases hcompliant : d.verdict.isCompliant = true
  · have hv : d.verdict = .compliant := of_decide_eq_true hcompliant
    rw [if_pos hcompliant]
    exact ⟨iff_of_true rfl (hverdict.trans hv), fun hbreaks => absurd (hverdict.trans hv) hbreaks⟩
  · have hv : d.verdict ≠ .compliant := fun hv => hcompliant (decide_eq_true hv)
    rw [if_neg hcompliant]
    refine ⟨iff_of_false (List.cons_ne_nil _ _) (hverdict ▸ hv), fun _ => ?_⟩
    obtain ⟨message, fix, suggested, hmessage, hfix, hsuggested⟩ :=
      exists_words (Bool.eq_false_iff.mpr hcompliant) name
    have htitle : AsyncSuffix.message d.verdict = message := by
      rw [AsyncSuffix.message, hmessage]
      rfl
    have hproposed : AsyncSuffix.suggestedFix? d.verdict name =
        some (fix ++ ": rename to `" ++ suggested ++ "`") := by
      rw [AsyncSuffix.suggestedFix?, hfix, hsuggested]
      rfl
    refine ⟨_, message, fix, suggested, rfl, hmessage, hfix, hsuggested, rfl, hsuggested, ?_,
      hproposed⟩
    rw [← htitle]
    rfl

end Answer

/-! ## The command and the linter -/

/-- Arguments ask for the answer on a name as a document. -/
def Asks (arguments : List String) (name : String) (isAsync : Bool) : Prop :=
  ∃ config level, parseArguments arguments = .ok (.run ⟨config, level, .check name isAsync .json⟩)

/-- Any name may be asked for, behind the two hyphens that end the options. -/
theorem exists_asks (name : String) (isAsync : Bool) :
    ∃ arguments, Asks arguments name isAsync := by
  cases isAsync with
  | true =>
    refine ⟨["check", "--format", "json", "--", name], ⟨"."⟩, .warn, ?_⟩
    with_unfolding_all rfl
  | false =>
    refine ⟨["check", "--sync", "--format", "json", "--", name], ⟨"."⟩, .warn, ?_⟩
    with_unfolding_all rfl

/-- The program shows the document and nothing else. -/
theorem stdout_of_asks {arguments : List String} {name : String} {isAsync : Bool}
    (h : Asks arguments name isAsync) (s : Surroundings) :
    (Command.run s arguments).value = .answered s ((document name isAsync).prettyText ++ "\n") := by
  obtain ⟨config, level, hparse⟩ := h
  rw [Command.run, hparse]
  rfl

/-- What the program shows is read as the answer that is due. -/
theorem parse_stdout {arguments : List String} {name : String} {isAsync : Bool}
    (h : Asks arguments name isAsync) (s : Surroundings) :
    Answer.codec.parse (Command.run s arguments).value.stdout.toList =
      .ok (.due name isAsync) := by
  have hspaces : Json.Lexeme.Spaces ['\n'] := by
    intro c hc
    rw [List.mem_singleton.mp hc]
    rfl
  have htext : (Command.run s arguments).value.stdout.toList =
      Json.Layout.lines.render 0 (Answer.codec.encode (.due name isAsync)) ++ ['\n'] := by
    have hnewline : "\n".toList = ['\n'] := by decide
    rw [stdout_of_asks h s, Outcome.answered, String.toList_append, Json.prettyText,
      String.toList_ofList, Json.pretty_eq_render, Answer.document_eq, hnewline]
  rw [htext]
  exact (Answer.restores_codec _).parse_render_spaces .lines 0 hspaces

/-- **A name is judged alike on its own and with its declaration.** Any name and flag can be asked
for, and the document that is then shown is read back as an answer on that name and flag. On the
declaration with that name and flag, wherever it stands, the standard linter without settings finds
nothing just if the answer finds the name compliant, and else one thing in the words of the
answer. -/
theorem answer_agrees_with_run (name : String) (isAsync : Bool) :
    (∃ arguments, Asks arguments name isAsync) ∧
      ∀ (s : Surroundings) (arguments : List String), Asks arguments name isAsync →
        ∃ a, Answer.codec.parse (Command.run s arguments).value.stdout.toList = .ok a ∧
          a.name = name ∧ a.isAsync = isAsync ∧
            ∀ (file : Option Path) (line : Option UInt32), a.AgreesWith
              ((Linter.standard {}).value.run [⟨name, isAsync, file, line⟩]).value := by
  refine ⟨exists_asks name isAsync, fun s arguments h => ?_⟩
  exact ⟨_, parse_stdout h s, rfl, rfl, Answer.due_agreesWith name isAsync⟩

end SuffixLint.Command.Name
