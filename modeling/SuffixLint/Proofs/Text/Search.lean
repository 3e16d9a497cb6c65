import Mathlib.Data.List.DropRight
import SuffixLint.Text.Search
/-!
# What searching finds

The searches of a text said as relations between texts. A token is found just if it is a stretch of
the text (`occurs_iff`), a text is cut where the first character of the token stands first
(`cut_append`), and what is left of a text that has been trimmed is an end of it
(`trimFront_isSuffix`, `trimBack_isPrefix`). A text is trimmed token by token, and not at all where
it does not begin or end in one.
-/

namespace SuffixLint.Text

variable {token text before after : List Char} {c : Char}

/-- A token is found just if it is a stretch of the text. -/
theorem occurs_iff : occurs token text = true ↔ token <:+: text := by
  induction text with
  | nil => rw [occurs, List.isEmpty_iff, List.infix_nil]
  | cons c r ih =>
    rw [occurs, Bool.or_eq_true, List.isPrefixOf_iff_prefix, ih, List.infix_cons_iff]

/-- Nothing is cut where the token does not stand. -/
theorem cut_eq_none (h : ¬ token <:+: text) : cut token text = none := by
  induction text with
  | nil =>
    have hne : token.isEmpty = false := by
      rw [Bool.eq_false_iff, ne_eq, List.isEmpty_iff]
      exact fun hnil => h (List.infix_nil.mpr hnil)
    rw [cut, hne, if_neg Bool.false_ne_true]
  | cons c r ih =>
    rw [List.infix_cons_iff, not_or, ← List.isPrefixOf_iff_prefix] at h
    rw [cut, if_neg h.1, ih h.2]
    rfl

/-- A text is cut at a token if the first character of the token does not stand before it. -/
theorem cut_append (h : c ∉ before) (after : List Char) :
    cut (c :: token) (before ++ (c :: token ++ after)) = some (before, after) := by
  induction before with
  | nil =>
    have hfront : (c :: token).isPrefixOf (c :: token ++ after) = true :=
      List.isPrefixOf_iff_prefix.mpr (List.prefix_append _ _)
    rw [List.nil_append, List.cons_append, cut, ← List.cons_append, if_pos hfront, List.drop_left]
  | cons d before ih =>
    have hd : ¬ (c :: token).isPrefixOf (d :: (before ++ (c :: token ++ after))) = true := by
      rw [List.isPrefixOf_iff_prefix, List.cons_prefix_cons]
      rintro ⟨rfl, -⟩
      exact h List.mem_cons_self
    rw [List.cons_append, cut, if_neg hd, ih fun hc => h (List.mem_cons_of_mem d hc)]
    rfl

/-- A text that holds the token is cut, and what follows the text then stands at the end of the part
behind the cut. -/
theorem exists_cut_append (h : token <:+: text) (rest : List Char) :
    ∃ before after, cut token (text ++ rest) = some (before, after ++ rest) := by
  induction text with
  | nil =>
    obtain rfl := List.infix_nil.mp h
    cases rest with
    | nil => exact ⟨[], [], rfl⟩
    | cons d rest => exact ⟨[], [], rfl⟩
  | cons c r ih =>
    rw [List.cons_append, cut, ← List.cons_append]
    by_cases hfront : token.isPrefixOf (c :: r ++ rest) = true
    · rw [if_pos hfront, List.drop_append_of_le_length h.length_le]
      exact ⟨[], _, rfl⟩
    · have hr : token <:+: r := by
        refine (List.infix_cons_iff.mp h).resolve_left fun hc => hfront ?_
        exact List.isPrefixOf_iff_prefix.mpr (hc.trans (List.prefix_append _ _))
      obtain ⟨before, after, hcut⟩ := ih hr
      rw [if_neg hfront, hcut]
      exact ⟨c :: before, after, rfl⟩

/-! ## Trimming by a token -/

/-- A token at the front is trimmed. -/
theorem trimFront_token_append (h : token ≠ []) (text : List Char) :
    trimFront token (token ++ text) = trimFront token text := by
  have hfront : token.isPrefixOf (token ++ text) = true :=
    List.isPrefixOf_iff_prefix.mpr (List.prefix_append _ _)
  rw [trimFront, dif_pos ⟨h, hfront⟩, List.drop_left]

/-- A text that does not begin in the token stays as it is. -/
theorem trimFront_eq_self (h : ¬ token <+: text) : trimFront token text = text := by
  rw [trimFront, dif_neg fun hfront => h (List.isPrefixOf_iff_prefix.mp hfront.2)]

/-- A token at the back is trimmed. -/
theorem trimBack_append_token (h : token ≠ []) (text : List Char) :
    trimBack token (text ++ token) = trimBack token text := by
  have hne : token.reverse ≠ [] := fun hnil => h (List.reverse_eq_nil_iff.mp hnil)
  rw [trimBack, List.reverse_append, trimFront_token_append hne, trimBack]

/-- A text that does not end in the token stays as it is. -/
theorem trimBack_eq_self (h : ¬ token <:+ text) : trimBack token text = text := by
  rw [trimBack, trimFront_eq_self fun hfront => h (List.reverse_prefix.mp hfront),
    List.reverse_reverse]

/-- If anything is trimmed at the front, the last of it is the token. -/
theorem trimFront_eq_or (token text : List Char) :
    trimFront token text = text ∨ ∃ front, text = front ++ token ++ trimFront token text := by
  fun_induction trimFront token text with
  | case1 text h ih =>
    have htext : token ++ text.drop token.length = text :=
      List.prefix_iff_eq_append.mp (List.isPrefixOf_iff_prefix.mp h.2)
    refine Or.inr ?_
    rcases ih with ih | ⟨front, ih⟩
    · exact ⟨[], by rw [ih, List.nil_append, htext]⟩
    · exact ⟨token ++ front, by rw [List.append_assoc, List.append_assoc, ← List.append_assoc front,
        ← ih, htext]⟩
  | case2 text h => exact Or.inl rfl

/-- If anything is trimmed at the back, the first of it is the token. -/
theorem trimBack_eq_or (token text : List Char) :
    trimBack token text = text ∨ ∃ back, text = trimBack token text ++ (token ++ back) := by
  rcases trimFront_eq_or token.reverse text.reverse with h | ⟨front, h⟩
  · exact Or.inl (by rw [trimBack, h, List.reverse_reverse])
  · refine Or.inr ⟨front.reverse, ?_⟩
    rw [← List.reverse_inj, h, trimBack]
    simp only [List.reverse_append, List.reverse_reverse, List.append_assoc]

/-! ## Trimming by one character -/

/-- Trimming by one character drops it for as long as it stands at the front. -/
theorem trimFront_eq_dropWhile (c : Char) (text : List Char) :
    trimFront [c] text = text.dropWhile (· == c) := by
  induction text with
  | nil =>
    rw [trimFront, dif_neg, List.dropWhile_nil]
    rintro ⟨-, hfront⟩
    cases hfront
  | cons d text ih =>
    have hfront : [c].isPrefixOf (d :: text) = true ↔ d = c := by
      rw [List.isPrefixOf_iff_prefix, List.cons_prefix_cons, eq_comm]
      simp only [List.nil_prefix, and_true]
    rw [trimFront, List.dropWhile_cons]
    by_cases hd : d = c
    · rw [dif_pos ⟨List.cons_ne_nil c [], hfront.mpr hd⟩, if_pos (beq_iff_eq.mpr hd)]
      exact ih
    · rw [dif_neg fun h => hd (hfront.mp h.2), if_neg fun h => hd (beq_iff_eq.mp h)]

/-- Trimming at the back is trimming at the front of the text turned around. -/
theorem trimBack_eq_rdropWhile (c : Char) (text : List Char) :
    trimBack [c] text = text.rdropWhile (· == c) := by
  rw [trimBack, List.reverse_singleton, trimFront_eq_dropWhile, List.rdropWhile]

/-- Another one at the front makes no difference. -/
theorem trimFront_cons_self (c : Char) (text : List Char) :
    trimFront [c] (c :: text) = trimFront [c] text := by
  rw [trimFront_eq_dropWhile, trimFront_eq_dropWhile, List.dropWhile_cons,
    if_pos (beq_self_eq_true c)]

/-- What is trimmed at the front ends as it did. -/
theorem trimFront_isSuffix (c : Char) (text : List Char) : trimFront [c] text <:+ text := by
  rw [trimFront_eq_dropWhile]
  exact List.dropWhile_suffix _

/-- What is trimmed at the back begins as it did. -/
theorem trimBack_isPrefix (c : Char) (text : List Char) : trimBack [c] text <+: text := by
  rw [trimBack_eq_rdropWhile]
  exact List.rdropWhile_prefix _ text

/-- Trimming at the front stops at any other character. -/
theorem trimFront_append {d : Char} (hd : d ≠ c) (text rest : List Char) :
    trimFront [c] (text ++ d :: rest) = trimFront [c] text ++ d :: rest := by
  have hstop : (d :: rest).dropWhile (· == c) = d :: rest := by
    rw [List.dropWhile_cons, if_neg fun h => hd (beq_iff_eq.mp h)]
  rw [trimFront_eq_dropWhile, trimFront_eq_dropWhile, List.dropWhile_append, hstop]
  split
  · rename_i hnil
    rw [List.isEmpty_iff.mp hnil, List.nil_append]
  · rfl

end SuffixLint.Text
