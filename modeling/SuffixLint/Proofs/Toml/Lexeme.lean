import SuffixLint.Proofs.Toml.Grammar
/-!
# Tokens of a TOML text read back

What is written for a token is read as that token and nothing more. Blanks, comments and keys go on
as long as they can, so they end only before a character that is none of theirs. Of strings the
empty one is the exception: with a quote behind it, it would be the opening of a string of several
lines.
-/

namespace SuffixLint.Toml

open Text

/-- A step of reading gives a value and leaves a rest. -/
def Reads {α : Type} (read : Read α) (cs : List Char) (x : α) (rest : List Char) : Prop :=
  ∃ r : Rest cs, read cs = some (x, r) ∧ r.val = rest

/-- A step of passing over leaves a rest. -/
def Leaves {cs : List Char} (t : Option (Tail cs)) (rest : List Char) : Prop :=
  ∃ r : Tail cs, t = some r ∧ r.val = rest

/-- A text goes on with no character of a kind. -/
def Ends (p : Char → Bool) (rest : List Char) : Prop :=
  ∀ c r, rest = c :: r → p c = false

/-! ## What a text goes on with -/

/-- The characters with which blanks, comments and ends of lines begin. -/
def fillerChars : List Char :=
  [' ', '\t', '#', '\n', '\r']

/-- Whether filler may go on with a character. -/
def beginsFiller (c : Char) : Bool :=
  fillerChars.contains c

section Ends

variable {p : Char → Bool} {rest : List Char}

theorem ends_nil (p : Char → Bool) : Ends p [] := by
  intro c r h
  cases h

theorem ends_cons {c : Char} (h : p c = false) (r : List Char) : Ends p (c :: r) := by
  intro d r' hd
  cases hd
  exact h

theorem ne_of_ends (h : Ends p rest) {c : Char} (hc : p c = true) (r : List Char) :
    rest ≠ c :: r := by
  intro heq
  rw [h c r heq] at hc
  cases hc

/-- A text goes on with no character of a smaller kind either. -/
theorem Ends.mono (h : Ends p rest) {q : Char → Bool} (hq : ∀ c, q c = true → p c = true) :
    Ends q rest := by
  intro c r hc
  refine Bool.eq_false_iff.mpr fun hqc => ?_
  exact ne_of_ends h (hq c hqc) r hc

theorem ends_blanks {sp : List Char} (hsp : Blanks sp) (hspace : p ' ' = false)
    (htab : p '\t' = false) (hrest : Ends p rest) : Ends p (sp ++ rest) := by
  cases sp with
  | nil => exact hrest
  | cons c cs =>
    refine ends_cons ?_ _
    have hblank := hsp c List.mem_cons_self
    simp only [isBlank, Bool.or_eq_true, decide_eq_true_eq] at hblank
    rcases hblank with rfl | rfl
    · exact hspace
    · exact htab

theorem ends_comment {comment : List Char} (h : IsComment comment) (hmark : p '#' = false)
    (hrest : Ends p rest) : Ends p (comment ++ rest) := by
  cases h with
  | absent => exact hrest
  | mark h => exact ends_cons hmark _

theorem ends_newline {nl : List Char} (h : IsNewline nl) (hfeed : p '\n' = false)
    (hreturn : p '\r' = false) (rest : List Char) : Ends p (nl ++ rest) := by
  cases h with
  | feed => exact ends_cons hfeed rest
  | returnAndFeed => exact ends_cons hreturn _

theorem ends_lineEnd {line : List Char} (h : IsLineEnd line) (hp : fillerChars.any p = false)
    (rest : List Char) : Ends p (line ++ rest) := by
  obtain ⟨hsp, hcomment, hnl⟩ := h
  simp only [fillerChars, List.any_cons, Bool.or_eq_false_iff] at hp
  obtain ⟨hspace, htab, hmark, hfeed, hreturn, -⟩ := hp
  rw [List.append_assoc, List.append_assoc]
  exact ends_blanks hsp hspace htab
    (ends_comment hcomment hmark (ends_newline hnl hfeed hreturn rest))

theorem ends_filler {f : List Char} (h : IsFiller f) (hp : fillerChars.any p = false)
    (hrest : Ends p rest) : Ends p (f ++ rest) := by
  cases h with
  | blanks h =>
    simp only [fillerChars, List.any_cons, Bool.or_eq_false_iff] at hp
    exact ends_blanks h hp.1 hp.2.1 hrest
  | line hline h =>
    rw [List.append_assoc]
    exact ends_lineEnd hline hp _

end Ends

/-! ## The next character -/

theorem next?_of_val {cs : List Char} {t : Tail cs} {c : Char} {r : List Char}
    (h : t.val = c :: r) : ∃ r' : Rest cs, t.next? = some (c, r') ∧ r'.val = r := by
  obtain ⟨val, hle⟩ := t
  subst h
  exact ⟨_, rfl, rfl⟩

theorem next?_of_nil {cs : List Char} {t : Tail cs} (h : t.val = []) : t.next? = none := by
  obtain ⟨val, hle⟩ := t
  subst h
  rfl

/-! ## Blanks, comments and ends of lines -/

/-- Characters of a kind are passed over up to the first that is of another. -/
theorem skipWhile_append {p : Char → Bool} {cs rest : List Char} (h : ∀ c ∈ cs, p c = true)
    (hrest : Ends p rest) : (skipWhile p (cs ++ rest)).val = rest := by
  induction cs with
  | nil =>
    cases rest with
    | nil => rfl
    | cons c r =>
      rw [List.nil_append, skipWhile, if_neg (Bool.eq_false_iff.mp (hrest c r rfl))]
      rfl
  | cons c cs ih =>
    rw [List.cons_append, skipWhile, if_pos (h c List.mem_cons_self)]
    exact ih fun d hd => h d (List.mem_cons_of_mem c hd)

theorem skipBlanks_append {sp rest : List Char} (h : Blanks sp) (hrest : Ends isBlank rest) :
    (skipBlanks (sp ++ rest)).val = rest :=
  skipWhile_append h hrest

theorem skipBlanks_line {sp comment nl : List Char} (hsp : Blanks sp) (hcomment : IsComment comment)
    (hnl : IsNewline nl) (rest : List Char) :
    (skipBlanks (sp ++ (comment ++ (nl ++ rest)))).val = comment ++ (nl ++ rest) :=
  skipBlanks_append hsp
    (ends_comment hcomment (by decide) (ends_newline hnl (by decide) (by decide) rest))

theorem skipBlanks_lastLine {sp comment : List Char} (hsp : Blanks sp)
    (hcomment : IsComment comment) : (skipBlanks (sp ++ comment)).val = comment := by
  have hends := ends_comment hcomment (by decide) (ends_nil isBlank)
  rw [List.append_nil] at hends
  exact skipBlanks_append hsp hends

/-- A comment is passed over with the end of its line. -/
theorem commentEnd_append {cs nl : List Char} (h : ∀ c ∈ cs, isPlain c = true)
    (hnl : IsNewline nl) (rest : List Char) : Leaves (commentEnd (cs ++ (nl ++ rest))) rest := by
  have hskip := skipWhile_append h (ends_newline hnl (by decide) (by decide) rest)
  unfold commentEnd
  generalize skipWhile isPlain _ = comment at hskip
  obtain ⟨val, hle⟩ := comment
  subst hskip
  cases hnl with
  | feed | returnAndFeed => exact ⟨_, rfl, rfl⟩

/-- A comment is passed over up to the end of the text. -/
theorem commentEnd_all {cs : List Char} (h : ∀ c ∈ cs, isPlain c = true) :
    Leaves (commentEnd cs) [] := by
  have hskip := skipWhile_append h (ends_nil isPlain)
  rw [List.append_nil] at hskip
  unfold commentEnd
  generalize skipWhile isPlain _ = comment at hskip
  obtain ⟨val, hle⟩ := comment
  subst hskip
  exact ⟨_, rfl, rfl⟩

theorem lineEnd_of_mark {cs r rest : List Char} (h : (skipBlanks cs).val = '#' :: r)
    (hcomment : Leaves (commentEnd r) rest) : Leaves (lineEnd cs) rest := by
  obtain ⟨q, hq, rfl⟩ := next?_of_val h
  obtain ⟨t, ht, hval⟩ := hcomment
  refine ⟨(q.tail t).toTail, ?_, hval⟩
  unfold lineEnd
  simp only [hq, ht, Option.map_some]

/-- The end of a line is passed over. -/
theorem lineEnd_append {line : List Char} (h : IsLineEnd line) (rest : List Char) :
    Leaves (lineEnd (line ++ rest)) rest := by
  obtain ⟨hsp, hcomment, hnl⟩ := h
  have hblanks := skipBlanks_line hsp hcomment hnl rest
  rw [List.append_assoc, List.append_assoc]
  cases hcomment with
  | mark h => exact lineEnd_of_mark hblanks (commentEnd_append h hnl rest)
  | absent =>
    unfold lineEnd
    generalize skipBlanks _ = blanks at hblanks
    obtain ⟨val, hle⟩ := blanks
    subst hblanks
    cases hnl with
    | feed | returnAndFeed => exact ⟨_, rfl, rfl⟩

/-- The last line need not be ended. -/
theorem lineEnd_all {sp comment : List Char} (hsp : Blanks sp) (hcomment : IsComment comment) :
    Leaves (lineEnd (sp ++ comment)) [] := by
  have hblanks := skipBlanks_lastLine hsp hcomment
  cases hcomment with
  | mark h => exact lineEnd_of_mark hblanks (commentEnd_all h)
  | absent =>
    unfold lineEnd
    generalize skipBlanks _ = blanks at hblanks
    obtain ⟨val, hle⟩ := blanks
    subst hblanks
    exact ⟨_, rfl, rfl⟩

/-! ## Filler -/

theorem beginsFiller_of_isBlank {c : Char} (h : isBlank c = true) : beginsFiller c = true := by
  simp only [isBlank, Bool.or_eq_true, decide_eq_true_eq] at h
  rcases h with rfl | rfl <;> decide

theorem newline_of_ends {rest : List Char} (h : Ends beginsFiller rest) : newline rest = none :=
  newline.eq_3 rest (ne_of_ends h (by decide)) fun _ => ne_of_ends h (by decide) _

theorem fillerLine_of_ends {rest : List Char} (h : Ends beginsFiller rest) :
    fillerLine rest = none := by
  rw [fillerLine.eq_2 rest (ne_of_ends h (by decide)), newline_of_ends h]

theorem fillerLine_append {comment nl : List Char} (hcomment : IsComment comment)
    (hnl : IsNewline nl) (rest : List Char) :
    ∃ r : Rest (comment ++ (nl ++ rest)),
      fillerLine (comment ++ (nl ++ rest)) = some r ∧ r.val = rest := by
  cases hcomment with
  | absent =>
    cases hnl with
    | feed | returnAndFeed => exact ⟨_, rfl, rfl⟩
  | mark h =>
    have hskip := skipWhile_append h (ends_newline hnl (by decide) (by decide) rest)
    rw [List.cons_append]
    unfold fillerLine
    simp only
    generalize skipWhile isPlain _ = comment at hskip
    obtain ⟨val, hle⟩ := comment
    subst hskip
    cases hnl with
    | feed | returnAndFeed => exact ⟨_, rfl, rfl⟩

/-- Filler is passed over up to the first character that is none. -/
theorem skipFiller_append {f rest : List Char} (h : IsFiller f) (hrest : Ends beginsFiller rest) :
    (skipFiller (f ++ rest)).val = rest := by
  induction h with
  | blanks h =>
    have hblanks := skipBlanks_append h (hrest.mono fun _ => beginsFiller_of_isBlank)
    have hnone := fillerLine_of_ends hrest
    rw [← hblanks] at hnone
    rw [skipFiller]
    simp only [hnone, hblanks]
  | @line line cs hline h ih =>
    obtain ⟨hsp, hcomment, hnl⟩ := hline
    rw [List.append_assoc, List.append_assoc, List.append_assoc]
    have hblanks := skipBlanks_line hsp hcomment hnl (cs ++ rest)
    have hline := fillerLine_append hcomment hnl (cs ++ rest)
    rw [← hblanks] at hline
    obtain ⟨r, hr, hval⟩ := hline
    rw [skipFiller]
    simp only [hr]
    rw [← hval] at ih
    exact ih

/-! ## Strings -/

/-- A character may be escaped by its letter. -/
theorem reads_escape_short {e c : Char} (h : (e, c) ∈ shortEscapes) (rest : List Char) :
    Reads escape (e :: rest) c rest := by
  simp only [shortEscapes, List.mem_cons, Prod.mk.injEq, List.not_mem_nil, or_false] at h
  rcases h with ⟨rfl, rfl⟩ | ⟨rfl, rfl⟩ | ⟨rfl, rfl⟩ | ⟨rfl, rfl⟩ | ⟨rfl, rfl⟩ | ⟨rfl, rfl⟩ |
    ⟨rfl, rfl⟩ <;> exact ⟨behind rest, rfl, rfl⟩

theorem scalar?_toNat (c : Char) : scalar? c.toNat = some c := by
  have hvalid : c.toNat.isValidChar := c.valid
  rw [scalar?, if_pos hvalid, Char.ofNat_toNat]

/-- A character may be escaped by its number, in four or eight digits. -/
theorem reads_escape_number {e c : Char} {n : Nat} {ds : List Char}
    (he : (e, n) ∈ [('u', 4), ('U', 8)]) (hlength : ds.length = n)
    (h : hexNumber? ds = some c.toNat) (rest : List Char) :
    Reads escape (e :: (ds ++ rest)) c rest := by
  have htake : (ds ++ rest).take n = ds := List.take_left' hlength
  have hlong : ∃ r : Rest (e :: (ds ++ rest)), escape (e :: (ds ++ rest)) = some (c, r) ∧
      r.val = (ds ++ rest).drop n := by
    simp only [List.mem_cons, Prod.mk.injEq, List.not_mem_nil, or_false] at he
    rcases he with ⟨rfl, rfl⟩ | ⟨rfl, rfl⟩
    all_goals
      refine ⟨(dropped _ _).past, ?_, rfl⟩
      rw [escape]
      simp only [htake, hlength, if_true, h, Option.bind_some, scalar?_toNat, Option.map_some]
  rwa [List.drop_left' hlength] at hlong

theorem reads_basicString_escape {e cs s rest : List Char} {c : Char}
    (he : Reads escape (e ++ cs) c cs) (h : Reads basicString cs s rest) :
    Reads basicString ('\\' :: (e ++ cs)) (c :: s) rest := by
  obtain ⟨r, hr, hval⟩ := he
  rw [← hval] at h
  obtain ⟨r', hr', hval'⟩ := h
  refine ⟨(r.rest r').past, ?_, hval'⟩
  rw [basicString]
  simp only [show ¬ ('\\' = '"') by decide, if_false, if_true, hr, hr', Option.map_some]

/-- The characters of a basic string are read up to the closing quote. -/
theorem reads_basicString {s u : List Char} (h : IsBody s u) (rest : List Char) :
    Reads basicString (u ++ '"' :: rest) s rest := by
  induction h with
  | nil =>
    refine ⟨behind rest, ?_, rfl⟩
    unfold basicString
    rfl
  | @cons c s t u hchar h ih =>
    rw [List.append_assoc]
    cases hchar with
    | plain hplain hquote hslash =>
      obtain ⟨r, hr, hval⟩ := ih
      rw [List.singleton_append]
      refine ⟨r.past, ?_, hval⟩
      rw [basicString]
      simp only [hquote, hslash, hplain, if_false, if_true, hr, Option.map_some]
    | short h => exact reads_basicString_escape (e := [_]) (reads_escape_short h _) ih
    | four hlength h =>
      exact reads_basicString_escape (reads_escape_number (by decide) hlength h _) ih
    | eight hlength h =>
      exact reads_basicString_escape (reads_escape_number (by decide) hlength h _) ih

theorem reads_lineString {s : String} {t : List Char} (h : IsStringText s t) (rest : List Char) :
    Reads lineString (t ++ rest) s rest := by
  obtain ⟨hbody⟩ := h
  rw [List.cons_append, List.append_assoc, List.singleton_append]
  obtain ⟨r, hr, hval⟩ := reads_basicString hbody rest
  refine ⟨r.past, ?_, hval⟩
  rw [lineString, hr, Option.map_some, String.ofList_toList]

/-- A string is read, with no quote behind it. -/
theorem reads_string {s : String} {t : List Char} (h : IsStringText s t) {rest : List Char}
    (hrest : Ends (· = '"') rest) : Reads string (t ++ rest) s rest := by
  have hthird : ∀ r, t ++ rest ≠ '"' :: '"' :: '"' :: r := by
    intro r heq
    obtain ⟨hbody⟩ := h
    rw [List.cons_append, List.append_assoc, List.singleton_append] at heq
    have hbehind := (List.cons.inj heq).2
    generalize s.toList = cs at hbody
    cases hbody with
    -- of the empty string the third quote could only be the one behind it
    | nil => exact absurd (hrest _ _ (List.cons.inj hbehind).2) (by decide)
    | cons hchar _ =>
      cases hchar with
      | plain _ hquote _ => exact hquote (List.cons.inj hbehind).1
      | short | four | eight => exact absurd (List.cons.inj hbehind).1 (by decide)
  have hother : ∀ r, t ++ rest ≠ '\'' :: '\'' :: '\'' :: r := by
    intro r heq
    obtain ⟨-⟩ := h
    exact absurd (List.cons.inj heq).1 (by decide)
  obtain ⟨r, hr, hval⟩ := reads_lineString h rest
  exact ⟨r, by rw [string.eq_3 _ hthird hother, hr], hval⟩

/-! ## Keys -/

theorem bareRun_append {cs rest : List Char} (h : ∀ c ∈ cs, isBare c = true)
    (hrest : Ends isBare rest) :
    (bareRun (cs ++ rest)).1 = cs ∧ (bareRun (cs ++ rest)).2.val = rest := by
  induction cs with
  | nil =>
    cases rest with
    | nil => exact ⟨rfl, rfl⟩
    | cons c r =>
      rw [List.nil_append, bareRun, if_neg (Bool.eq_false_iff.mp (hrest c r rfl))]
      exact ⟨rfl, rfl⟩
  | cons c cs ih =>
    obtain ⟨hrun, hleft⟩ := ih fun d hd => h d (List.mem_cons_of_mem c hd)
    rw [List.cons_append, bareRun, if_pos (h c List.mem_cons_self)]
    exact ⟨congrArg (c :: ·) hrun, hleft⟩

theorem reads_keyPart {k : String} {t : List Char} (h : IsKeyText k t) {rest : List Char}
    (hrest : Ends isBare rest) : Reads keyPart (t ++ rest) k rest := by
  cases h with
  | bare hne h =>
    obtain ⟨c, cs, hk⟩ := List.exists_cons_of_ne_nil hne
    rw [hk] at h ⊢
    obtain ⟨hc, hcs⟩ := List.forall_mem_cons.mp h
    obtain ⟨hrun, hleft⟩ := bareRun_append hcs hrest
    rw [List.cons_append]
    refine ⟨(bareRun (cs ++ rest)).2.past, ?_, hleft⟩
    rw [keyPart, if_pos hc]
    simp only [hrun, ← hk, String.ofList_toList]
  | quoted h =>
    obtain ⟨r, hr, hval⟩ := reads_lineString h rest
    obtain ⟨hbody⟩ := h
    refine ⟨r, ?_, hval⟩
    rw [← hr]
    rfl

/-- A key begins with a character that may stand in a key, or with a quote. -/
theorem IsKeyText.ends {k : String} {t : List Char} (h : IsKeyText k t) {p : Char → Bool}
    (hp : ∀ c, p c = true → isBare c = false) (hquote : p '"' = false) (rest : List Char) :
    Ends p (t ++ rest) := by
  cases h with
  | bare hne h =>
    obtain ⟨c, cs, hk⟩ := List.exists_cons_of_ne_nil hne
    rw [hk] at h ⊢
    refine ends_cons (Bool.eq_false_iff.mpr fun hc => ?_) _
    exact absurd (h c List.mem_cons_self) (Bool.eq_false_iff.mp (hp c hc))
  | quoted h =>
    obtain ⟨-⟩ := h
    exact ends_cons hquote _

theorem isBare_of_beginsFiller {c : Char} (h : beginsFiller c = true) : isBare c = false := by
  have hnone : fillerChars.any isBare = false := by decide
  exact Bool.eq_false_iff.mpr (List.any_eq_false.mp hnone c (List.contains_iff_mem.mp h))

theorem isBare_of_isBlank {c : Char} (h : isBlank c = true) : isBare c = false :=
  isBare_of_beginsFiller (beginsFiller_of_isBlank h)

/-- A key of one part is read with the blanks around it, where it ends as in a header or a pair. -/
theorem reads_key {k : String} {before t behind : List Char} {c : Char}
    (hbefore : Blanks before) (hk : IsKeyText k t) (hbehind : Blanks behind)
    (hc : c = ']' ∨ c = '=') (rest : List Char) :
    Reads key (before ++ (t ++ (behind ++ c :: rest))) ([], k) (c :: rest) := by
  have hends : ∀ p : Char → Bool, p ']' = false → p '=' = false → Ends p (c :: rest) := by
    intro p hbracket hequals
    rcases hc with rfl | rfl
    · exact ends_cons hbracket rest
    · exact ends_cons hequals rest
  have hpart : Ends isBare (behind ++ c :: rest) :=
    ends_blanks hbehind (by decide) (by decide) (hends isBare (by decide) (by decide))
  have hblanks := skipBlanks_append hbefore
    (hk.ends (fun _ => isBare_of_isBlank) (by decide) (behind ++ c :: rest))
  have hread := reads_keyPart hk hpart
  rw [← hblanks] at hread
  obtain ⟨r, hr, hval⟩ := hread
  have hafter : (skipBlanks r.val).val = c :: rest := by
    rw [hval]
    exact skipBlanks_append hbehind (hends isBlank (by decide) (by decide))
  generalize hcs : before ++ (t ++ (behind ++ c :: rest)) = cs at *
  let after := ((skipBlanks cs).rest r).tail (skipBlanks r.val)
  obtain ⟨q, hq, -⟩ := next?_of_val (t := after.toTail) hafter
  have hparts : keyParts cs = some ([k], after) := by
    rw [keyParts]
    simp only [hr]
    rcases hc with rfl | rfl
    all_goals
      rw [hq]
      rfl
  refine ⟨after, ?_, hafter⟩
  rw [key, hparts]
  rfl

end SuffixLint.Toml
