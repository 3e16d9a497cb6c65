import SuffixLint.Proofs.Text.Search
/-!
# What erasing a token leaves

Here a token has a first character that stands nowhere else in it, so that no two places of it in a
text overlap: a token that lies across the seam of two texts cannot begin the second one
(`prefix_of_prefix_append`). A text is then read from the left as tokens and other characters
(`scan_induction`), and erasing keeps the other characters, on each side of a token on its own.

What is kept is joined, and a token may form at a seam. It does so just where a token of the text is
interrupted: its characters stand in the text in their order, and between them stand whole tokens
and nothing else (`infix_eraseAll_iff`).
-/

namespace SuffixLint.Text

variable {head c : Char} {tail token word text rest : List Char} {i : Nat}

/-! ## Places of a token -/

/-- The token stands in the text behind its first `i` characters. -/
def StandsAt (token text : List Char) (i : Nat) : Prop :=
  token <+: text.drop i

instance (token text : List Char) (i : Nat) : Decidable (StandsAt token text i) :=
  inferInstanceAs (Decidable (_ <+: _))

/-- The token stands in the text once, and that at its end. -/
def OnlyAtEnd (token text : List Char) : Prop :=
  ∀ i, StandsAt token text i ↔ i + token.length = text.length

/-- A token stands somewhere in a text just if it is a stretch of it. -/
theorem infix_iff_exists_standsAt : token <:+: text ↔ ∃ i, StandsAt token text i := by
  rw [List.infix_iff_prefix_suffix]
  constructor
  · rintro ⟨behind, hbegins, hsuffix⟩
    exact ⟨_, List.suffix_iff_eq_drop.mp hsuffix ▸ hbegins⟩
  · rintro ⟨i, h⟩
    exact ⟨_, h, List.drop_suffix i text⟩

/-- A token that begins in a text does not reach into a token behind it. -/
theorem prefix_of_prefix_append (hhead : head ∉ tail) (hne : text ≠ [])
    (h : head :: tail <+: text ++ head :: rest) : head :: tail <+: text := by
  refine (List.prefix_or_prefix_of_prefix h (List.prefix_append text _)).elim id fun hshort => ?_
  obtain ⟨d, text, rfl⟩ := List.exists_cons_of_ne_nil hne
  obtain ⟨rfl, more, rfl⟩ := List.cons_prefix_cons.mp hshort
  cases more with
  | nil => exact (List.append_nil text).symm ▸ List.prefix_refl _
  | cons e more =>
    -- the token would go on with its own first character
    have he : e = d := by
      rw [← List.cons_append, List.prefix_append_right_inj, List.cons_prefix_cons] at h
      exact h.1
    exact absurd (List.mem_append_right text (he ▸ List.mem_cons_self)) hhead

/-- A token at the end adds one place. -/
theorem standsAt_append (hhead : head ∉ tail) :
    StandsAt (head :: tail) (text ++ head :: tail) i ↔
      StandsAt (head :: tail) text i ∨ i = text.length := by
  rw [StandsAt, StandsAt, List.drop_append]
  rcases Nat.lt_trichotomy i text.length with hlt | rfl | hgt
  · have hne : text.drop i ≠ [] := fun hnil => by
      rw [List.drop_eq_nil_iff] at hnil
      omega
    rw [Nat.sub_eq_zero_of_le hlt.le, List.drop_zero]
    constructor
    · exact fun h => Or.inl (prefix_of_prefix_append hhead hne h)
    · rintro (h | rfl)
      · exact h.trans (List.prefix_append _ _)
      · exact absurd hlt (Nat.lt_irrefl _)
  · rw [Nat.sub_self, List.drop_zero, List.drop_length, List.nil_append]
    exact iff_of_true (List.prefix_refl _) (Or.inr rfl)
  · rw [List.drop_eq_nil_iff.mpr hgt.le, List.nil_append]
    refine iff_of_false (fun h => ?_) (fun h => ?_)
    · have hlength := h.length_le
      rw [List.length_drop, List.length_cons] at hlength
      omega
    · rcases h with h | rfl
      · exact absurd (List.prefix_nil.mp h) (List.cons_ne_nil _ _)
      · exact absurd hgt (Nat.lt_irrefl _)

/-- A token that is put at the end of a text stands there only, just if the text has none. -/
theorem onlyAtEnd_append_iff (hhead : head ∉ tail) :
    OnlyAtEnd (head :: tail) (text ++ head :: tail) ↔ ¬ head :: tail <:+: text := by
  rw [infix_iff_exists_standsAt]
  constructor
  · rintro h ⟨i, hi⟩
    have hlength := (h i).mp ((standsAt_append hhead).mpr (Or.inl hi))
    rw [List.length_append] at hlength
    rw [StandsAt, List.drop_eq_nil_iff.mpr (by omega)] at hi
    exact absurd (List.prefix_nil.mp hi) (List.cons_ne_nil _ _)
  · intro h i
    rw [standsAt_append hhead, List.length_append, Nat.add_right_cancel_iff]
    exact or_iff_right fun hi => h ⟨i, hi⟩

/-! ## Scanning -/

/-- Every text is scanned from the left: a token is passed as a whole where one stands, and else one
character. -/
@[elab_as_elim]
theorem scan_induction {motive : List Char → Prop} (token : List Char) (hne : token ≠ [])
    (nil : motive []) (token_append : ∀ rest, motive rest → motive (token ++ rest))
    (cons : ∀ c rest, ¬ token <+: c :: rest → motive rest → motive (c :: rest))
    (text : List Char) : motive text := by
  induction hlength : text.length using Nat.strongRecOn generalizing text with
  | ind n ih =>
    cases text with
    | nil => exact nil
    | cons c r =>
      by_cases hfront : token <+: c :: r
      · obtain ⟨rest, hrest⟩ := hfront
        have hshorter : rest.length < n := by
          have hpos := List.length_pos_iff.mpr hne
          rw [← hlength, ← hrest, List.length_append]
          omega
        rw [← hrest]
        exact token_append rest (ih _ hshorter rest rfl)
      · have hshorter : r.length < n := by
          rw [← hlength, List.length_cons]
          omega
        exact cons c r hfront (ih _ hshorter r rfl)

theorem eraseFrom_length_append (skipped text : List Char) :
    eraseFrom token skipped.length (skipped ++ text) = eraseFrom token 0 text := by
  induction skipped with
  | nil => rfl
  | cons c skipped ih => exact ih

/-- Erasing only takes characters out. -/
theorem eraseFrom_sublist (n : Nat) (text : List Char) : (eraseFrom token n text).Sublist text := by
  induction text generalizing n with
  | nil => cases n <;> exact List.Sublist.slnil
  | cons c text ih =>
    cases n with
    | zero =>
      rw [eraseFrom]
      split
      · exact (ih _).cons c
      · exact (ih 0).cons_cons c
    | succ n => exact (ih n).cons c

/-- A token at the front is erased. -/
theorem eraseAll_token_append (hne : token ≠ []) (text : List Char) :
    eraseAll token (token ++ text) = eraseAll token text := by
  obtain ⟨head, tail, rfl⟩ := List.exists_cons_of_ne_nil hne
  have hfront : (head :: tail).isPrefixOf (head :: (tail ++ text)) = true :=
    List.isPrefixOf_iff_prefix.mpr (List.prefix_append (head :: tail) text)
  rw [eraseAll, List.cons_append, eraseFrom, if_pos hfront]
  exact eraseFrom_length_append tail text

/-- A character at which no token stands is kept. -/
theorem eraseAll_cons (h : ¬ token <+: c :: text) :
    eraseAll token (c :: text) = c :: eraseAll token text := by
  rw [eraseAll, eraseFrom, if_neg fun hfront => h (List.isPrefixOf_iff_prefix.mp hfront)]
  rfl

/-- Nothing is erased from a text that has no token. -/
theorem eraseAll_eq_self (h : ¬ token <:+: text) : eraseAll token text = text := by
  induction text with
  | nil => rfl
  | cons c text ih =>
    rw [List.infix_cons_iff, not_or] at h
    rw [eraseAll_cons h.1, ih h.2]

/-- What stands before the first character of a token is erased on its own. -/
theorem eraseAll_append_cons (hhead : head ∉ tail) (text rest : List Char) :
    eraseAll (head :: tail) (text ++ head :: rest) =
      eraseAll (head :: tail) text ++ eraseAll (head :: tail) (head :: rest) := by
  induction text using scan_induction (head :: tail) (List.cons_ne_nil head tail) with
  | nil => rfl
  | token_append text ih =>
    rw [List.append_assoc, eraseAll_token_append (List.cons_ne_nil _ _), ih,
      eraseAll_token_append (List.cons_ne_nil _ _)]
  | cons c text hfront ih =>
    have hseam : ¬ head :: tail <+: c :: (text ++ head :: rest) := fun h =>
      hfront (prefix_of_prefix_append hhead (List.cons_ne_nil c text) h)
    rw [List.cons_append, eraseAll_cons hseam, ih, eraseAll_cons hfront, List.cons_append]

/-! ## Tokens that form -/

/-- A text is a word with whole tokens between its characters or before them. -/
inductive Interrupted (token : List Char) : List Char → List Char → Prop
  | done : Interrupted token [] []
  | char {c : Char} {word text : List Char} (h : Interrupted token word text) :
    Interrupted token (c :: word) (c :: text)
  | token {word text : List Char} (hword : word ≠ []) (h : Interrupted token word text) :
    Interrupted token word (token ++ text)

/-- A token stands in the text interrupted by others: behind its first character its other ones
stand in their order, with whole tokens between them. -/
def HoldsInterrupted (token text : List Char) : Prop :=
  ∃ stretch, Interrupted token token.tail stretch ∧ stretch ≠ token.tail ∧
    token.take 1 ++ stretch <:+: text

theorem holdsInterrupted_cons : HoldsInterrupted (head :: tail) text ↔
    ∃ stretch, Interrupted (head :: tail) tail stretch ∧ stretch ≠ tail ∧
      head :: stretch <:+: text :=
  Iff.rfl

/-- What a text begins with when its tokens are erased, it begins with as an interrupted word. -/
theorem exists_interrupted (hne : token ≠ []) (h : word <+: eraseAll token text) :
    ∃ stretch, Interrupted token word stretch ∧ stretch <+: text := by
  induction text using scan_induction token hne generalizing word with
  | nil =>
    rw [List.prefix_nil.mp h]
    exact ⟨[], .done, List.nil_prefix⟩
  | token_append text ih =>
    rw [eraseAll_token_append hne] at h
    by_cases hword : word = []
    · exact ⟨[], by rw [hword]; exact .done, List.nil_prefix⟩
    · obtain ⟨stretch, hstretch, hbegins⟩ := ih h
      exact ⟨token ++ stretch, .token hword hstretch,
        (List.prefix_append_right_inj token).mpr hbegins⟩
  | cons c text hfront ih =>
    rw [eraseAll_cons hfront] at h
    cases word with
    | nil => exact ⟨[], .done, List.nil_prefix⟩
    | cons d word =>
      obtain ⟨rfl, hword⟩ := List.cons_prefix_cons.mp h
      obtain ⟨stretch, hstretch, hbegins⟩ := ih hword
      exact ⟨d :: stretch, .char hstretch, List.cons_prefix_cons.mpr ⟨rfl, hbegins⟩⟩

/-- A word without the first character of a token is what erasing leaves of it when it is
interrupted. -/
theorem eraseAll_interrupted (h : Interrupted (head :: tail) word text) (hhead : head ∉ word)
    (rest : List Char) :
    eraseAll (head :: tail) (text ++ rest) = word ++ eraseAll (head :: tail) rest := by
  induction h with
  | done => rfl
  | @char c word text h ih =>
    have hfront : ¬ head :: tail <+: c :: (text ++ rest) := fun hbegins =>
      hhead ((List.cons_prefix_cons.mp hbegins).1 ▸ List.mem_cons_self)
    rw [List.cons_append, eraseAll_cons hfront, ih fun hmem => hhead (List.mem_cons_of_mem c hmem),
      List.cons_append]
  | token hword h ih =>
    rw [List.append_assoc, eraseAll_token_append (List.cons_ne_nil _ _), ih hhead]

/-- A word without the first character of a token stands at the front of an interrupted word only if
it is not interrupted. -/
theorem eq_of_interrupted (h : Interrupted (head :: tail) word text)
    (hhead : head ∉ word) (hbegins : word <+: text ++ rest) : text = word := by
  induction h with
  | done => rfl
  | char h ih =>
    rw [List.cons_append, List.cons_prefix_cons] at hbegins
    rw [ih (fun hmem => hhead (List.mem_cons_of_mem _ hmem)) hbegins.2]
  | @token word text hword h ih =>
    obtain ⟨d, word, rfl⟩ := List.exists_cons_of_ne_nil hword
    exact absurd ((List.cons_prefix_cons.mp hbegins).1 ▸ List.mem_cons_self) hhead

/-- **A token forms when tokens are erased** just where one stands interrupted. -/
theorem infix_eraseAll_iff (hhead : head ∉ tail) :
    head :: tail <:+: eraseAll (head :: tail) text ↔ HoldsInterrupted (head :: tail) text := by
  have hne : head :: tail ≠ [] := List.cons_ne_nil head tail
  rw [holdsInterrupted_cons]
  constructor
  · intro h
    induction text using scan_induction (head :: tail) hne with
    | nil => exact absurd (List.infix_nil.mp h) hne
    | token_append text ih =>
      rw [eraseAll_token_append hne] at h
      obtain ⟨stretch, hstretch, hbroken, hinside⟩ := ih h
      exact ⟨stretch, hstretch, hbroken, hinside.trans (List.suffix_append _ _).isInfix⟩
    | cons c text hfront ih =>
      rw [eraseAll_cons hfront, List.infix_cons_iff] at h
      rcases h with h | h
      · -- the token begins with this character, and would not be interrupted if it stood here
        obtain ⟨rfl, htail⟩ := List.cons_prefix_cons.mp h
        obtain ⟨stretch, hstretch, hbegins⟩ := exists_interrupted hne htail
        have hstands : head :: stretch <+: head :: text := List.cons_prefix_cons.mpr ⟨rfl, hbegins⟩
        exact ⟨stretch, hstretch, fun heq => hfront (heq ▸ hstands), hstands.isInfix⟩
      · obtain ⟨stretch, hstretch, hbroken, hinside⟩ := ih h
        exact ⟨stretch, hstretch, hbroken, hinside.trans (List.suffix_cons c text).isInfix⟩
  · rintro ⟨stretch, hstretch, hbroken, front, back, rfl⟩
    have hfront : ¬ head :: tail <+: head :: (stretch ++ back) := fun h =>
      hbroken (eq_of_interrupted hstretch hhead (List.cons_prefix_cons.mp h).2)
    refine ⟨eraseAll (head :: tail) front, eraseAll (head :: tail) back, ?_⟩
    rw [List.append_assoc front, List.cons_append, eraseAll_append_cons hhead,
      eraseAll_cons hfront, eraseAll_interrupted hstretch hhead, List.append_assoc,
      List.cons_append]

end SuffixLint.Text
