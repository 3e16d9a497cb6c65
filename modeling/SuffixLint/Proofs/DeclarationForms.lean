import SuffixLint.Input
import SuffixLint.Proofs.Json.Agreement
import SuffixLint.Proofs.Json.Settled
import SuffixLint.Proofs.Json.Skipped
import SuffixLint.Proofs.Text.Lines
/-!
# The two forms of declaration files

Declarations may be listed as the items of one document or as documents on lines of their own. The
same texts are put between brackets and commas in the first form, and between newlines in the second
(`document_iff_lines`). The first form asks for one thing more: a document is read into memory as a
whole, with the values of members that no declaration knows, so a number in them that is too large,
half a surrogate pair or too many brackets refuse it.

Both sides are brought down to the values of the texts. A document gives the list of these values,
each of which is decoded (`toOption_ofDocument`). A line is read in one pass, which comes to the same
where the line can be read as a document (`Declaration.agrees_codec`, `toOption_readLines`).
-/

namespace SuffixLint

open Json Lexeme Text

namespace Declaration

/-- A declaration is read as it is decoded: no key means two of its fields. -/
theorem agrees_codec : codec.Agrees := by
  apply Codec.agrees_imap
  refine Codec.agrees_record "Declaration" ⟨?_, ?_, ?_, ?_, trivial⟩ (by decide)
  · exact Codec.agrees_stringAs _
  · exact Codec.agrees_bool
  · exact Codec.agrees_option (Codec.agrees_imap (Codec.agrees_stringAs _) _ _)
  · exact Codec.agrees_option (Codec.agrees_imap (Codec.agrees_natBelow _ _) _ _)

end Declaration

namespace DeclarationFile

variable {ts : List (List Char)}

/-! ## One document -/

/-- Texts as the items of one document. -/
def arrayText (ts : List (List Char)) : List Char :=
  '[' :: ([','].intercalate ts ++ [']'])

/-- Texts inside the brackets of a document are read with one bracket less to come. -/
theorem plain_read_arrayText (hts : ∀ t ∈ ts, IsDocument t) (depth : Nat) :
    plain (read (depth + 1) (arrayText ts)) =
      (ts.mapM (valueOf (read depth))).map fun vs => (.array vs, []) := by
  apply plain_read_array hts
  intro t ht
  obtain ⟨o, ho⟩ := settles_read (hts t ht) depth
  exact ho.valueOf

/-- The document is read if each of the texts in it has a value. -/
theorem read_arrayText (hts : ∀ t ∈ ts, IsDocument t) :
    (ts.mapM (valueOf (read 126)) = none ∧ ∃ e, read depthLimit (arrayText ts) = .error e) ∨
      ∃ vs r, ts.mapM (valueOf (read 126)) = some vs ∧
        read depthLimit (arrayText ts) = .ok (.array vs, r) ∧ r.val = [] := by
  have hread := plain_read_arrayText hts 126
  cases hvs : ts.mapM (valueOf (read 126)) with
  | none =>
    rw [hvs, Option.map_none, plain_eq_none] at hread
    exact Or.inl ⟨rfl, hread⟩
  | some vs =>
    rw [hvs, Option.map_some, plain_eq_some] at hread
    obtain ⟨r, hr, hrest⟩ := hread
    exact Or.inr ⟨vs, r, rfl, hr, hrest⟩

theorem toOption_ofText (hts : ∀ t ∈ ts, IsDocument t) :
    (ofText (arrayText ts)).toOption = (ts.mapM (valueOf (read 126))).map Json.array := by
  rw [ofText]
  rcases read_arrayText hts with ⟨hnone, e, he⟩ | ⟨vs, r, hvs, hr, hrest⟩
  · rw [hnone, he]
    rfl
  · rw [hvs, hr]
    simp only [hrest]
    rfl

/-- What is listed in the document is what each of the values is decoded as. -/
theorem toOption_ofDocument (hts : ∀ t ∈ ts, IsDocument t) :
    (ofDocument (arrayText ts)).toOption = (ts.mapM (valueOf (read 126))).bind fun vs =>
      vs.mapM (Declaration.codec.decode .refused) := by
  rw [ofDocument]
  rcases read_arrayText hts with ⟨hnone, e, he⟩ | ⟨vs, r, hvs, hr, hrest⟩
  · rw [hnone, he]
    rfl
  · have hlisted : declarations? (.array vs) = vs.mapM (Declaration.codec.decode .refused) := rfl
    rw [hvs, hr]
    simp only [hrest, hlisted, Option.bind_some]
    cases vs.mapM (Declaration.codec.decode .refused) with
    | none => rfl
    | some ds => rfl

/-! ## Lines -/

/-- What is left of a document on its line is a document of the same value. -/
theorem isDocument_of_isLineOf {l t : List Char} (h : IsLineOf l t) (ht : IsDocument t)
    (depth : Nat) : IsDocument l ∧ valueOf (read depth) l = valueOf (read depth) t := by
  rcases h with rfl | rfl
  · exact ⟨ht, rfl⟩
  · have hl : IsDocument l := ht.of_append_space (by decide)
    exact ⟨hl, (valueOf_append_space hl (by decide) depth).symm⟩

/-- The line of a document that has a value is parsed as what the value is decoded as. -/
theorem toOption_parse_line {l t : List Char} (h : IsLineOf l t) (ht : IsDocument t) {depth : Nat}
    {v : Json} (hv : valueOf (read depth) t = some v) :
    (Declaration.codec.parse l).toOption = Declaration.codec.decode .refused v := by
  obtain ⟨hl, hvalue⟩ := isDocument_of_isLineOf h ht depth
  obtain ⟨r, hr, hend⟩ := read_of_valueOf hl (hvalue.trans hv)
  exact Codec.toOption_parse Declaration.agrees_codec hr hend

/-- Lines of documents list what the value of each is decoded as. -/
theorem toOption_readLines {ls : List (List Char)} (hlines : List.Forall₂ IsLineOf ls ts)
    (hts : ∀ t ∈ ts, IsDocument t) {depth : Nat} {vs : List Json}
    (hvs : ts.mapM (valueOf (read depth)) = some vs) (number : Nat) :
    (readLines number ls).toOption = vs.mapM (Declaration.codec.decode .refused) := by
  -- lines and documents go side by side, and the values follow from the documents
  induction hlines generalizing vs number with
  | nil =>
    obtain rfl := Option.some.inj hvs
    rfl
  | @cons l t ls ts hline _ ih =>
    rw [List.mapM_cons] at hvs
    obtain ⟨v, hv, hvs⟩ := Option.bind_eq_some_iff.mp hvs
    obtain ⟨vs', hvs', hvs⟩ := Option.bind_eq_some_iff.mp hvs
    obtain rfl := Option.some.inj hvs
    have ht := hts t List.mem_cons_self
    have hblank : allBlank l = false := (isDocument_of_isLineOf hline ht depth).1.not_allBlank
    have hothers := ih (fun u hu => hts u (List.mem_cons_of_mem t hu)) hvs' (number + 1)
    -- no document is blank, so no line is passed over
    rw [readLines, hblank, if_neg Bool.false_ne_true, List.mapM_cons,
      ← toOption_parse_line hline ht hv, ← hothers]
    cases Declaration.codec.parse l with
    | error e => rfl
    | ok d => cases readLines (number + 1) ls <;> rfl

/-- **The items of a document list what they list on lines of their own**, if the document can be
read into memory. -/
theorem ofDocument_iff_ofLines (hts : ∀ t ∈ ts, IsDocument t ∧ '\n' ∉ t) (ds : List Declaration) :
    ofDocument (arrayText ts) = .ok ds ↔
      (∃ v, ofText (arrayText ts) = .ok v) ∧ ofLines (['\n'].intercalate ts) = .ok ds := by
  have hdocuments : ∀ t ∈ ts, IsDocument t := fun t ht => (hts t ht).1
  have hlines := forall₂_lines_intercalate fun t ht => ⟨(hts t ht).1.ne_nil, (hts t ht).2⟩
  simp only [← toOption_eq_some, toOption_ofDocument hdocuments, toOption_ofText hdocuments]
  -- where one text has no value neither side holds, and otherwise both decode the same values
  cases hvs : ts.mapM (valueOf (read 126)) with
  | none => simp
  | some vs =>
    rw [ofLines, toOption_readLines hlines hdocuments hvs 1]
    simp

end DeclarationFile

namespace Input

open DeclarationFile

/-- **The two forms agree**: documents that are put together as the items of one are parsed as the
declarations `ds` if and only if the whole can be read into memory and they are parsed as `ds` when
each of them stands on a line of its own. -/
theorem document_iff_lines (p q : Path) {rs : List String}
    (h : ∀ r ∈ rs, IsDocument r.toList ∧ '\n' ∉ r.toList) (ds : List Declaration) :
    parseDocument p ("[" ++ String.intercalate "," rs ++ "]") = .ok ds ↔
      (∃ v, ofText ("[" ++ String.intercalate "," rs ++ "]").toList = .ok v) ∧
        parseLines q (String.intercalate "\n" rs) = .ok ds := by
  have hdocument : ("[" ++ String.intercalate "," rs ++ "]").toList =
      arrayText (rs.map String.toList) := by
    rw [String.toList_append, String.toList_append, String.toList_intercalate, List.append_assoc]
    rfl
  have hlines : (String.intercalate "\n" rs).toList =
      ['\n'].intercalate (rs.map String.toList) := String.toList_intercalate ..
  rw [parseDocument, parseLines, mapError_eq_ok, mapError_eq_ok, hdocument, hlines]
  apply ofDocument_iff_ofLines
  intro t ht
  obtain ⟨r, hr, rfl⟩ := List.mem_map.mp ht
  exact h r hr

/-- A declaration as an object, with a member that no declaration knows and a carriage return behind
it, and one as an array. -/
theorem document_iff_lines_mixed :
    let rs := ["\x7b\"async\":true,\"x\":[1],\"name\":\"B\"\x7d\r", "[\"A\",false]"]
    (∀ r ∈ rs, IsDocument r.toList ∧ '\n' ∉ r.toList) ∧
      parseDocument ⟨"a.json"⟩ ("[" ++ String.intercalate "," rs ++ "]") =
        .ok [⟨"B", true, none, none⟩, ⟨"A", false, none, none⟩] := by
  intro rs
  -- a text that is read is a document, so the grammar need not be gone through by hand
  have hread : ∀ r ∈ rs, (ofText r.toList).isOk = true := by decide +kernel
  have hnewline : ∀ r ∈ rs, '\n' ∉ r.toList := by decide +kernel
  have hdocuments : ∀ r ∈ rs, IsDocument r.toList ∧ '\n' ∉ r.toList := by
    intro r hr
    obtain ⟨v, hv⟩ := isOk_iff.mp (hread r hr)
    exact ⟨isDocument_of_ofText hv, hnewline r hr⟩
  -- only the lines are parsed here; the theorem says what the document then gives
  have hwhole : (ofText ("[" ++ String.intercalate "," rs ++ "]").toList).isOk = true := by
    decide +kernel
  have hlines : parseLines ⟨"a.jsonl"⟩ (String.intercalate "\n" rs) =
      .ok [⟨"B", true, none, none⟩, ⟨"A", false, none, none⟩] := by
    decide +kernel
  refine ⟨hdocuments, ?_⟩
  exact (document_iff_lines ⟨"a.json"⟩ ⟨"a.jsonl"⟩ hdocuments _).mpr ⟨isOk_iff.mp hwhole, hlines⟩

/-- Half a surrogate pair is passed over in a member that no declaration knows, but not read. -/
example : let r := "\x7b\"name\":\"A\",\"async\":true,\"x\":\"\\uDC00\"\x7d"
    parseLines ⟨"a.jsonl"⟩ r = .ok [⟨"A", true, none, none⟩] ∧
      parseDocument ⟨"a.json"⟩ ("[" ++ r ++ "]") =
        .error (.badDocument ⟨"a.json"⟩ .loneSurrogate) := by
  decide +kernel

end Input

end SuffixLint
