import SuffixLint.Toml.Document
/-!
# Texts of tables

How tables of strings, truth values and arrays may be written, as predicates that tie what is
written to its text, apart from any reader. A header opens each table, and the pairs of the table
follow, one to a line. Blanks, empty lines and comments may stand wherever the syntax allows them, a
line may end in either way, a character of a string may be escaped in any way that there is for it,
and an array may run over several lines.

There is a text for every string (`exists_isStringText`), and so for all tables whose values can be
written (`exists_isText_statementsOf`).
-/

namespace SuffixLint.Toml

open Text

/-! ## Blanks, comments and ends of lines -/

/-- Nothing but blanks. -/
def Blanks (cs : List Char) : Prop :=
  ∀ c ∈ cs, isBlank c = true

/-- A comment up to the end of its line, or none. -/
inductive IsComment : List Char → Prop
  | absent : IsComment []
  | mark {cs : List Char} (h : ∀ c ∈ cs, isPlain c = true) : IsComment ('#' :: cs)

/-- An end of line. -/
inductive IsNewline : List Char → Prop
  | feed : IsNewline ['\n']
  | returnAndFeed : IsNewline ['\r', '\n']

/-- The end of a line behind all that matters in it. -/
inductive IsLineEnd : List Char → Prop
  | intro {sp comment newline : List Char} (hsp : Blanks sp) (hcomment : IsComment comment)
    (hnewline : IsNewline newline) : IsLineEnd (sp ++ (comment ++ newline))

/-- What may stand around the items of an array. -/
inductive IsFiller : List Char → Prop
  | blanks {sp : List Char} (h : Blanks sp) : IsFiller sp
  | line {line cs : List Char} (hline : IsLineEnd line) (h : IsFiller cs) : IsFiller (line ++ cs)

/-! ## Strings and keys -/

/-- The letters behind the backslash of an escape, and the characters they stand for. -/
def shortEscapes : List (Char × Char) :=
  [('b', '\x08'), ('t', '\t'), ('n', '\n'), ('f', '\x0c'), ('r', '\r'), ('"', '"'), ('\\', '\\')]

/-- A character in a basic string. -/
inductive IsCharText (c : Char) : List Char → Prop
  | plain (hplain : isPlain c = true) (hquote : c ≠ '"') (hslash : c ≠ '\\') : IsCharText c [c]
  | short {e : Char} (h : (e, c) ∈ shortEscapes) : IsCharText c ['\\', e]
  | four {ds : List Char} (hlength : ds.length = 4) (h : hexNumber? ds = some c.toNat) :
    IsCharText c ('\\' :: 'u' :: ds)
  | eight {ds : List Char} (hlength : ds.length = 8) (h : hexNumber? ds = some c.toNat) :
    IsCharText c ('\\' :: 'U' :: ds)

/-- The characters of a basic string. -/
inductive IsBody : List Char → List Char → Prop
  | nil : IsBody [] []
  | cons {c : Char} {s t u : List Char} (hchar : IsCharText c t) (h : IsBody s u) :
    IsBody (c :: s) (t ++ u)

/-- A basic string. -/
inductive IsStringText (s : String) : List Char → Prop
  | quoted {u : List Char} (h : IsBody s.toList u) : IsStringText s ('"' :: (u ++ ['"']))

/-- A key of one part, without quotes or between them. -/
inductive IsKeyText (k : String) : List Char → Prop
  | bare (hne : k.toList ≠ []) (h : ∀ c ∈ k.toList, isBare c = true) : IsKeyText k k.toList
  | quoted {t : List Char} (h : IsStringText k t) : IsKeyText k t

/-! ## Values -/

/-- The items of an array up to its closing bracket. A comma may stand behind the last. -/
inductive IsItemsText (isValue : Json → List Char → Prop) : List Json → List Char → Prop
  | done {f : List Char} (hf : IsFiller f) : IsItemsText isValue [] (f ++ [']'])
  | last {v : Json} {f t f' : List Char} (hf : IsFiller f) (hv : isValue v t) (hf' : IsFiller f') :
    IsItemsText isValue [v] (f ++ (t ++ (f' ++ [']'])))
  | more {v : Json} {vs : List Json} {f t f' u : List Char} (hf : IsFiller f) (hv : isValue v t)
    (hf' : IsFiller f') (h : IsItemsText isValue vs u) :
    IsItemsText isValue (v :: vs) (f ++ (t ++ (f' ++ ',' :: u)))

/-- A value whose arrays are written behind their opening brackets as `isItems` says. -/
inductive IsValueOf (isItems : List Json → List Char → Prop) : Json → List Char → Prop
  | string {s : String} {t : List Char} (h : IsStringText s t) : IsValueOf isItems (.string s) t
  | true : IsValueOf isItems (.bool true) ['t', 'r', 'u', 'e']
  | false : IsValueOf isItems (.bool false) ['f', 'a', 'l', 's', 'e']
  | array {vs : List Json} {u : List Char} (h : isItems vs u) :
    IsValueOf isItems (.array vs) ('[' :: u)

/-- A value in which at most `depth` arrays are open at one place. -/
def IsValueText : (depth : Nat) → Json → List Char → Prop
  | 0 => IsValueOf fun _ _ => False
  | depth + 1 => IsValueOf (IsItemsText (IsValueText depth))

/-! ## Statements -/

/-- A statement with a key of one part. -/
inductive IsStatementText : Statement → List Char → Prop
  | openTable {k : String} {before t behind : List Char} (hbefore : Blanks before)
    (hk : IsKeyText k t) (hbehind : Blanks behind) :
    IsStatementText (.openTable ([], k)) ('[' :: (before ++ (t ++ (behind ++ [']']))))
  | pair {k : String} {v : Json} {t before behind u : List Char} (hk : IsKeyText k t)
    (hbefore : Blanks before) (hbehind : Blanks behind) (hv : IsValueText depthLimit v u) :
    IsStatementText (.pair ([], k) v) (t ++ (before ++ '=' :: (behind ++ u)))

/-- Statements, each on a line of its own. The last line need not be ended. -/
inductive IsText : List Statement → List Char → Prop
  | done {sp comment : List Char} (hsp : Blanks sp) (hcomment : IsComment comment) :
    IsText [] (sp ++ comment)
  | last {s : Statement} {before t sp comment : List Char} (hbefore : Blanks before)
    (hs : IsStatementText s t) (hsp : Blanks sp) (hcomment : IsComment comment) :
    IsText [s] (before ++ (t ++ (sp ++ comment)))
  | line {ss : List Statement} {line cs : List Char} (hline : IsLineEnd line) (h : IsText ss cs) :
    IsText ss (line ++ cs)
  | statement {s : Statement} {ss : List Statement} {before t line cs : List Char}
    (hbefore : Blanks before) (hs : IsStatementText s t) (hline : IsLineEnd line)
    (h : IsText ss cs) : IsText (s :: ss) (before ++ (t ++ (line ++ cs)))

/-- The statements for tables with names: a header for each, and behind it a pair for each of its
members. -/
def statementsOf (tables : List (String × List (String × Json))) : List Statement :=
  tables.flatMap fun t => .openTable ([], t.1) :: t.2.map fun m => .pair ([], m.1) m.2

/-! ## There is a text -/

theorem blanks_nil : Blanks [] := by
  intro c hc
  cases hc

theorem isLineEnd_feed : IsLineEnd ['\n'] :=
  .intro blanks_nil .absent .feed

/-- Each character can be written: the quote, the backslash and the controls are escaped, and the
others stand for themselves. -/
theorem exists_isCharText (c : Char) : ∃ t, IsCharText c t := by
  by_cases hescaped : c = '"' ∨ c = '\\'
  · refine ⟨_, .short (e := c) ?_⟩
    rcases hescaped with rfl | rfl <;> decide
  · obtain ⟨hquote, hslash⟩ := not_or.mp hescaped
    by_cases hplain : isPlain c = true
    · exact ⟨_, .plain hplain hquote hslash⟩
    · have hascii : c.toNat < 128 := by
        simp only [isPlain, Bool.or_eq_true, Bool.and_eq_true, decide_eq_true_eq, not_or,
          not_and, Classical.not_not] at hplain
        omega
      have hnumber : ∀ n < 128,
          hexNumber? ['0', '0', hexLetter (n / 16), hexLetter (n % 16)] = some n := by
        decide +kernel
      exact ⟨_, .four rfl (hnumber _ hascii)⟩

theorem exists_isBody (s : List Char) : ∃ u, IsBody s u := by
  induction s with
  | nil => exact ⟨_, .nil⟩
  | cons c s ih =>
    obtain ⟨t, ht⟩ := exists_isCharText c
    obtain ⟨u, hu⟩ := ih
    exact ⟨_, .cons ht hu⟩

/-- Every string can be written. -/
theorem exists_isStringText (s : String) : ∃ t, IsStringText s t := by
  obtain ⟨u, hu⟩ := exists_isBody s.toList
  exact ⟨_, .quoted hu⟩

/-- There is a text for a value. -/
def IsWritable (depth : Nat) (v : Json) : Prop :=
  ∃ t, IsValueText depth v t

theorem isWritable_string (depth : Nat) (s : String) : IsWritable depth (.string s) := by
  obtain ⟨t, ht⟩ := exists_isStringText s
  cases depth with
  | zero | succ depth => exact ⟨t, .string ht⟩

theorem isWritable_bool (depth : Nat) (b : Bool) : IsWritable depth (.bool b) := by
  cases depth with
  | zero | succ depth =>
    cases b with
    | true => exact ⟨_, .true⟩
    | false => exact ⟨_, .false⟩

theorem exists_isItemsText {isValue : Json → List Char → Prop} {vs : List Json}
    (h : ∀ v ∈ vs, ∃ t, isValue v t) : ∃ u, IsItemsText isValue vs u := by
  induction vs with
  | nil => exact ⟨_, .done (.blanks blanks_nil)⟩
  | cons v vs ih =>
    obtain ⟨t, ht⟩ := h v List.mem_cons_self
    obtain ⟨u, hu⟩ := ih fun w hw => h w (List.mem_cons_of_mem v hw)
    exact ⟨_, .more (.blanks blanks_nil) ht (.blanks blanks_nil) hu⟩

/-- An array can be written when its items can, with one level of nesting less. -/
theorem isWritable_array {depth : Nat} {vs : List Json} (h : ∀ v ∈ vs, IsWritable depth v) :
    IsWritable (depth + 1) (.array vs) := by
  obtain ⟨u, hu⟩ := exists_isItemsText h
  exact ⟨_, .array hu⟩

theorem exists_isText {ss : List Statement} (h : ∀ s ∈ ss, ∃ t, IsStatementText s t) :
    ∃ cs, IsText ss cs := by
  induction ss with
  | nil => exact ⟨_, .done blanks_nil .absent⟩
  | cons s ss ih =>
    obtain ⟨t, ht⟩ := h s List.mem_cons_self
    obtain ⟨cs, hcs⟩ := ih fun s' hs' => h s' (List.mem_cons_of_mem s hs')
    exact ⟨_, .statement blanks_nil ht isLineEnd_feed hcs⟩

/-- Tables can be written when their values can. -/
theorem exists_isText_statementsOf {tables : List (String × List (String × Json))}
    (h : ∀ t ∈ tables, ∀ m ∈ t.2, IsWritable depthLimit m.2) :
    ∃ cs, IsText (statementsOf tables) cs := by
  refine exists_isText fun s hs => ?_
  obtain ⟨t, ht, hs⟩ := List.mem_flatMap.mp hs
  rcases List.mem_cons.mp hs with rfl | hs
  · obtain ⟨k, hk⟩ := exists_isStringText t.1
    exact ⟨_, .openTable blanks_nil (.quoted hk) blanks_nil⟩
  · obtain ⟨m, hm, rfl⟩ := List.mem_map.mp hs
    obtain ⟨k, hk⟩ := exists_isStringText m.1
    obtain ⟨u, hu⟩ := h t ht m hm
    exact ⟨_, .pair (.quoted hk) blanks_nil blanks_nil hu⟩

end SuffixLint.Toml
