import SuffixLint.Proofs.Toml.Lexeme
import SuffixLint.Proofs.Toml.Table
/-!
# Texts of tables read back

A text of the grammar is read line by line as the statements that it writes
(`statements_of_isText`), and so as the tables that these statements make (`ofText?_of_isText`). An
array is read item by item, each between filler, and an array inside it has one level of nesting
less, so the induction is on the levels that are left.
-/

namespace SuffixLint.Toml

open Text

/-! ## Words -/

theorem word_append (w rest : List Char) : Leaves (word w (w ++ rest)) rest := by
  induction w with
  | nil => exact ⟨unread rest, rfl, rfl⟩
  | cons c w ih =>
    obtain ⟨t, ht, hval⟩ := ih
    rw [List.cons_append]
    refine ⟨t.past.toTail, ?_, hval⟩
    rw [word, if_pos rfl, ht, Option.map_some]

/-! ## Values -/

/-- A text goes on with no quote. -/
abbrev NoQuote (rest : List Char) : Prop :=
  Ends (· = '"') rest

/-- The characters with which a value may begin. -/
def startsValue : List Char :=
  ['"', 't', 'f', '[']

/-- Texts of values tell what they are by their first characters, and a step of reading reads them
back. -/
structure ReadsValues (read : Read Json) (isValue : Json → List Char → Prop) : Prop where
  start : ∀ v t, isValue v t → ∃ c r, t = c :: r ∧ c ∈ startsValue
  reads : ∀ v t rest, isValue v t → NoQuote rest → Reads read (t ++ rest) v rest

theorem IsValueText.exists_cons {depth : Nat} {v : Json} {t : List Char}
    (h : IsValueText depth v t) : ∃ c r, t = c :: r ∧ c ∈ startsValue := by
  cases depth with
  | zero | succ depth =>
    cases h with
    | string h =>
      obtain ⟨-⟩ := h
      exact ⟨_, _, rfl, by decide⟩
    | true | false | array => exact ⟨_, _, rfl, by decide⟩

theorem ends_of_startsValue {p : Char → Bool} {t : List Char}
    (h : ∃ c r, t = c :: r ∧ c ∈ startsValue) (hp : startsValue.any p = false)
    (rest : List Char) : Ends p (t ++ rest) := by
  obtain ⟨c, r, rfl, hc⟩ := h
  exact ends_cons (Bool.eq_false_iff.mpr (List.any_eq_false.mp hp c hc)) _

section Items

variable {read : Read Json} {isValue : Json → List Char → Prop}

/-- An item is met behind filler and read, and the character behind it and more filler settles
whether it is the last. -/
theorem arrayItems_item (h : ReadsValues read isValue) {v : Json} {f t f' : List Char}
    (hf : IsFiller f) (hv : isValue v t) (hf' : IsFiller f') {d : Char} (hd : d = ']' ∨ d = ',')
    (rest : List Char) :
    ∃ r : Rest (f ++ (t ++ (f' ++ d :: rest))), r.val = rest ∧
      arrayItems read (f ++ (t ++ (f' ++ d :: rest))) =
        if d = ']' then some ([v], r)
        else (arrayItems read r.val).map fun found => (v :: found.1, r.rest found.2) := by
  have hfiller : Ends beginsFiller (d :: rest) := by
    rcases hd with rfl | rfl <;> exact ends_cons (by decide) rest
  have hquote : NoQuote (f' ++ d :: rest) := by
    apply ends_filler hf' (by decide)
    rcases hd with rfl | rfl <;> exact ends_cons (by decide) rest
  have hskip : (skipFiller (f ++ (t ++ (f' ++ d :: rest)))).val = t ++ (f' ++ d :: rest) :=
    skipFiller_append hf (ends_of_startsValue (h.start v t hv) (by decide) _)
  have hvalue := h.reads v t _ hv hquote
  obtain ⟨c, cs, rfl, hc⟩ := h.start v t hv
  obtain ⟨q, hq, -⟩ := next?_of_val hskip
  rw [← hskip] at hvalue
  obtain ⟨r₁, hr₁, hval⟩ := hvalue
  have hbehind : (skipFiller r₁.val).val = d :: rest := by
    rw [hval]
    exact skipFiller_append hf' hfiller
  obtain ⟨r₂, hr₂, hval₂⟩ := next?_of_val hbehind
  refine ⟨((skipFiller _).rest r₁).rest r₂, hval₂, ?_⟩
  rw [arrayItems]
  -- a bracket in the place of an item would close the array, and no value begins with one
  simp only [startsValue, List.mem_cons, List.not_mem_nil, or_false] at hc
  rcases hc with rfl | rfl | rfl | rfl <;> rcases hd with rfl | rfl
  all_goals
    simp only [hq, hr₁, hr₂]
    rfl

theorem reads_arrayItems (h : ReadsValues read isValue) {vs : List Json} {u : List Char}
    (hvs : IsItemsText isValue vs u) (rest : List Char) :
    Reads (arrayItems read) (u ++ rest) vs rest := by
  induction hvs with
  | @done f hf =>
    rw [List.append_assoc]
    have hskip : (skipFiller (f ++ ([']'] ++ rest))).val = ']' :: rest :=
      skipFiller_append hf (ends_cons (by decide) rest)
    obtain ⟨q, hq, hval⟩ := next?_of_val hskip
    refine ⟨q, ?_, hval⟩
    rw [arrayItems]
    simp only [hq]
  | last hf hv hf' =>
    simp only [List.append_assoc, List.singleton_append]
    obtain ⟨r, hval, hitem⟩ := arrayItems_item h hf hv hf' (Or.inl rfl) rest
    refine ⟨r, ?_, hval⟩
    rw [hitem, if_pos rfl]
  | @more v vs f t f' u hf hv hf' hvs ih =>
    simp only [List.append_assoc, List.cons_append]
    obtain ⟨r, hval, hitem⟩ := arrayItems_item h hf hv hf' (Or.inr rfl) (u ++ rest)
    rw [← hval] at ih
    obtain ⟨r', hr', hval'⟩ := ih
    refine ⟨r.rest r', ?_, hval'⟩
    rw [hitem, if_neg (by decide), hr', Option.map_some]

end Items

/-- A value is read when arrays are. -/
theorem reads_value_of_arrays {depth : Nat} {isItems : List Json → List Char → Prop} {v : Json}
    {t rest : List Char} (h : IsValueOf isItems v t) (hrest : NoQuote rest)
    (harray : ∀ vs u, isItems vs u → Reads (value depth) ('[' :: (u ++ rest)) (.array vs) rest) :
    Reads (value depth) (t ++ rest) v rest := by
  cases h with
  | string h =>
    obtain ⟨r, hr, hval⟩ := reads_string h hrest
    obtain ⟨hbody⟩ := h
    refine ⟨r, ?_, hval⟩
    change value depth ('"' :: (_ ++ rest)) = _
    rw [value.eq_def]
    exact (if_pos (Or.inl rfl)).trans (congrArg (Option.map _) hr)
  | true =>
    obtain ⟨r, hr, hval⟩ := word_append "rue".toList rest
    refine ⟨r.past, ?_, hval⟩
    change value depth ('t' :: ("rue".toList ++ rest)) = _
    rw [value.eq_def]
    dsimp only
    rw [if_neg (by decide), if_neg (by decide), if_neg (by decide), if_pos rfl, hr, Option.map_some]
  | false =>
    obtain ⟨r, hr, hval⟩ := word_append "alse".toList rest
    refine ⟨r.past, ?_, hval⟩
    change value depth ('f' :: ("alse".toList ++ rest)) = _
    rw [value.eq_def]
    dsimp only
    rw [if_neg (by decide), if_neg (by decide), if_neg (by decide), if_neg (by decide), if_pos rfl,
      hr, Option.map_some]
  | array h => exact harray _ _ h

/-- A value is read, with no quote behind it. -/
theorem reads_value {depth : Nat} {v : Json} {t rest : List Char} (h : IsValueText depth v t)
    (hrest : NoQuote rest) : Reads (value depth) (t ++ rest) v rest := by
  induction depth generalizing v t rest with
  | zero => exact reads_value_of_arrays h hrest fun _ _ => False.elim
  | succ depth ih =>
    refine reads_value_of_arrays h hrest fun vs u hu => ?_
    have hitems : ReadsValues (value depth) (IsValueText depth) :=
      ⟨fun _ _ => IsValueText.exists_cons, fun _ _ _ => ih⟩
    obtain ⟨r, hr, hval⟩ := reads_arrayItems hitems hu rest
    refine ⟨r.past, ?_, hval⟩
    rw [value, if_neg (by decide), if_pos rfl]
    simp only [hr, Option.map_some]

/-! ## Statements -/

theorem isBare_of_eq {d : Char} (hd : isBare d = false) (c : Char) (hc : decide (c = d) = true) :
    isBare c = false := by
  rwa [of_decide_eq_true hc]

theorem reads_header {k : String} {before t behind : List Char} (hbefore : Blanks before)
    (hk : IsKeyText k t) (hbehind : Blanks behind) (rest : List Char) :
    Reads statement ('[' :: (before ++ (t ++ (behind ++ ']' :: rest)))) (.openTable ([], k))
      rest := by
  obtain ⟨r, hr, hval⟩ := reads_key hbefore hk hbehind (Or.inl rfl) rest
  have hbracket : Ends (· = '[') (before ++ (t ++ (behind ++ ']' :: rest))) :=
    ends_blanks hbefore (by decide) (by decide) (hk.ends (isBare_of_eq (by decide)) (by decide) _)
  have hword := word_append [']'] rest
  rw [List.singleton_append, ← hval] at hword
  obtain ⟨q, hq, hval'⟩ := hword
  refine ⟨(r.tail q).past, ?_, hval'⟩
  rw [statement.eq_2 _ (ne_of_ends hbracket (by decide)), header, hr, Option.bind_some, hq]
  rfl

theorem reads_pair {k : String} {v : Json} {t before behind u rest : List Char} (hk : IsKeyText k t)
    (hbefore : Blanks before) (hbehind : Blanks behind) (hv : IsValueText depthLimit v u)
    (hrest : NoQuote rest) :
    Reads statement (t ++ (before ++ '=' :: (behind ++ (u ++ rest)))) (.pair ([], k) v) rest := by
  have hbracket : Ends (· = '[') (t ++ (before ++ '=' :: (behind ++ (u ++ rest)))) :=
    hk.ends (isBare_of_eq (by decide)) (by decide) _
  have hkey := reads_key blanks_nil hk hbefore (Or.inr rfl) (behind ++ (u ++ rest))
  rw [List.nil_append] at hkey
  obtain ⟨r, hr, hkey⟩ := hkey
  obtain ⟨q, hq, hequals⟩ := next?_of_val (t := r.toTail) hkey
  have hblanks : (skipBlanks q.val).val = u ++ rest := by
    rw [hequals]
    exact skipBlanks_append hbehind (ends_of_startsValue hv.exists_cons (by decide) rest)
  have hvalue := reads_value hv hrest
  rw [← hblanks] at hvalue
  obtain ⟨r', hr', hval⟩ := hvalue
  refine ⟨(q.tail (skipBlanks q.val)).rest r', ?_, hval⟩
  have hopen := ne_of_ends hbracket (c := '[') (by decide)
  rw [statement.eq_3 _ (fun _ => hopen _) hopen, pair, hr]
  simp only [hq, hr', Option.map_some]

theorem reads_statement {s : Statement} {t rest : List Char} (h : IsStatementText s t)
    (hrest : NoQuote rest) : Reads statement (t ++ rest) s rest := by
  cases h with
  | openTable hbefore hk hbehind =>
    simp only [List.cons_append, List.append_assoc]
    exact reads_header hbefore hk hbehind rest
  | pair hk hbefore hbehind hv =>
    simp only [List.cons_append, List.append_assoc]
    exact reads_pair hk hbefore hbehind hv hrest

/-- A statement begins with a bracket or with its key. -/
theorem IsStatementText.ends {s : Statement} {t : List Char} (h : IsStatementText s t)
    {p : Char → Bool} (hp : ∀ c, p c = true → isBare c = false) (hbracket : p '[' = false)
    (hquote : p '"' = false) (rest : List Char) : Ends p (t ++ rest) := by
  cases h with
  | openTable => exact ends_cons hbracket _
  | pair hk =>
    rw [List.append_assoc]
    exact hk.ends hp hquote _

theorem IsStatementText.ends_filler {s : Statement} {t : List Char} (h : IsStatementText s t)
    (rest : List Char) : Ends beginsFiller (t ++ rest) :=
  h.ends (fun _ => isBare_of_beginsFiller) (by decide) (by decide) rest

/-! ## Lines -/

theorem statements_of_end {cs : List Char} (h : (skipBlanks cs).val = []) :
    statements cs = some [] := by
  rw [statements]
  simp only [next?_of_nil h]

theorem statements_of_newline {cs nl rest : List Char} (hnl : IsNewline nl)
    (h : (skipBlanks cs).val = nl ++ rest) : statements cs = statements rest := by
  rw [statements]
  generalize skipBlanks cs = start at h
  obtain ⟨val, hle⟩ := start
  subst h
  cases hnl with
  | feed | returnAndFeed => rfl

theorem statements_of_mark {cs r rest : List Char} (h : (skipBlanks cs).val = '#' :: r)
    (hcomment : Leaves (commentEnd r) rest) : statements cs = statements rest := by
  obtain ⟨q, hq, rfl⟩ := next?_of_val h
  have hnewline : newline (skipBlanks cs).val = none := by
    rw [h]
    rfl
  obtain ⟨t, ht, rfl⟩ := hcomment
  rw [statements]
  simp only [hq, hnewline, if_true, ht]

/-- A statement is read with the rest of its line, and then the lines behind it are. -/
theorem statements_of_statement {cs t after rest : List Char} {s : Statement}
    (hs : IsStatementText s t) (hafter : NoQuote after) (h : (skipBlanks cs).val = t ++ after)
    (hline : Leaves (lineEnd after) rest) : statements cs = (statements rest).map (s :: ·) := by
  have hends := hs.ends_filler after
  have hread := reads_statement hs hafter
  rw [← h] at hends hread
  obtain ⟨r, hr, rfl⟩ := hread
  obtain ⟨l, hl, rfl⟩ := hline
  have hnewline := newline_of_ends hends
  have hne : (skipBlanks cs).val ≠ [] := List.ne_nil_of_length_pos (Nat.zero_lt_of_lt r.property)
  obtain ⟨c, r', hval⟩ := List.exists_cons_of_ne_nil hne
  obtain ⟨q, hq, -⟩ := next?_of_val hval
  have hmark : c ≠ '#' := by
    rintro rfl
    exact ne_of_ends hends (by decide) _ hval
  rw [statements]
  simp only [hq, hnewline, hmark, if_false, hr, hl]

theorem statements_nil : statements [] = some [] :=
  statements_of_end rfl

/-- **A text is read as the statements that it writes.** -/
theorem statements_of_isText {ss : List Statement} {cs : List Char} (h : IsText ss cs) :
    statements cs = some ss := by
  induction h with
  | @done sp comment hsp hcomment =>
    have hblanks := skipBlanks_lastLine hsp hcomment
    cases hcomment with
    | absent => exact statements_of_end hblanks
    | mark h => rw [statements_of_mark hblanks (commentEnd_all h), statements_nil]
  | @last s before t sp comment hbefore hs hsp hcomment =>
    have hquote : NoQuote (sp ++ comment) := by
      have hends := ends_comment hcomment (by decide) (ends_nil (· = '"'))
      rw [List.append_nil] at hends
      exact ends_blanks hsp (by decide) (by decide) hends
    have hblanks := skipBlanks_append hbefore
      ((hs.ends_filler (sp ++ comment)).mono fun _ => beginsFiller_of_isBlank)
    rw [statements_of_statement hs hquote hblanks (lineEnd_all hsp hcomment), statements_nil,
      Option.map_some]
  | @line ss line cs hline h ih =>
    obtain ⟨hsp, hcomment, hnl⟩ := hline
    rw [List.append_assoc, List.append_assoc]
    have hblanks := skipBlanks_line hsp hcomment hnl cs
    rw [← ih]
    cases hcomment with
    | absent => exact statements_of_newline hnl hblanks
    | mark h => exact statements_of_mark hblanks (commentEnd_append h hnl cs)
  | @statement s ss before t line cs hbefore hs hline h ih =>
    have hblanks := skipBlanks_append hbefore
      ((hs.ends_filler (line ++ cs)).mono fun _ => beginsFiller_of_isBlank)
    rw [statements_of_statement hs (ends_lineEnd hline (by decide) cs) hblanks
      (lineEnd_append hline cs), ih, Option.map_some]

/-- There is no byte order mark before a text of the grammar. -/
theorem dropOrderMark_of_isText {ss : List Statement} {cs : List Char} (h : IsText ss cs) :
    dropOrderMark cs = cs := by
  have hbare := isBare_of_eq (d := '\ufeff') (by decide)
  have hends : Ends (· = '\ufeff') cs := by
    cases h with
    | @done sp comment hsp hcomment =>
      rw [← List.append_nil comment]
      exact ends_blanks hsp (by decide) (by decide) (ends_comment hcomment (by decide) (ends_nil _))
    | line hline => exact ends_lineEnd hline (by decide) _
    | last hbefore hs | statement hbefore hs =>
      exact ends_blanks hbefore (by decide) (by decide) (hs.ends hbare (by decide) (by decide) _)
  exact dropOrderMark.eq_2 cs (ne_of_ends hends (by decide))

/-- **A text of tables is read as those tables**, however it is laid out and its strings are
escaped. -/
theorem ofText?_of_isText {tables : List (String × List (String × Json))} {cs : List Char}
    (hnames : (tables.map Prod.fst).Nodup) (hkeys : ∀ t ∈ tables, (t.2.map Prod.fst).Nodup)
    (h : IsText (statementsOf tables) cs) :
    ofText? cs = some (.object (tables.map fun t => (t.1, .object t.2))) := by
  rw [ofText?, dropOrderMark_of_isText h, statements_of_isText h, Option.bind_some,
    documentOf_statementsOf hnames hkeys]

end SuffixLint.Toml
