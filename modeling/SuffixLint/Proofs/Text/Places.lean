import SuffixLint.Proofs.Text.Erase
/-!
# The places of a token

All the places at which a token stands in a text, and the stretches of the text before, between and
behind the tokens there. As in `SuffixLint.Proofs.Text.Erase` the first character of the token stands
nowhere else in it, so no two of its places overlap (`StandsAt.apart`) and a scan from the left
meets every one of them: erasing the token leaves the stretches and nothing else
(`flatten_stretches`).

The places are counted over the text as a whole, the scan is a recursion on it. What ties them
together is what happens to the places when characters are put before a text: all are moved by as
many (`places_append_of_not_mem`, `places_token_append`), and the stretches between them stay what
they are (`stretchesFrom_append`).
-/

namespace SuffixLint.Text

variable {head c : Char} {tail token word text : List Char} {i j : Nat}

/-! ## Places -/

/-- The places at which a token stands in a text, from the left. -/
def places (token text : List Char) : List Nat :=
  (List.range (text.length + 1)).filter fun i => StandsAt token text i

/-- A token that is not empty stands only before the end of a text. -/
theorem StandsAt.lt_length (hne : token ≠ []) (h : StandsAt token text i) : i < text.length := by
  have hlength := h.length_le
  have hpos := List.length_pos_iff.mpr hne
  rw [List.length_drop] at hlength
  omega

theorem mem_places (hne : token ≠ []) : i ∈ places token text ↔ StandsAt token text i := by
  rw [places, List.mem_filter, decide_eq_true_eq, List.mem_range]
  refine and_iff_right_of_imp fun h => ?_
  have hlt := h.lt_length hne
  omega

/-- A token stands somewhere just if it has a place. -/
theorem places_ne_nil_iff (hne : token ≠ []) : places token text ≠ [] ↔ token <:+: text := by
  rw [infix_iff_exists_standsAt, ne_eq, List.eq_nil_iff_forall_not_mem, not_forall_not]
  exact exists_congr fun i => mem_places hne

/-- The characters of a token stand in the text from its place on. -/
theorem StandsAt.getElem? (h : StandsAt token text i) {k : Nat} (hk : k < token.length) :
    text[i + k]? = token[k]? := by
  obtain ⟨rest, hrest⟩ := h
  rw [← List.getElem?_drop, ← hrest, List.getElem?_append_left hk]

/-- **Two tokens in a text do not overlap**: the second would begin inside the first, where the
first character of the token does not stand. -/
theorem StandsAt.apart (hhead : head ∉ tail) (hi : StandsAt (head :: tail) text i)
    (hj : StandsAt (head :: tail) text j) (hij : i < j) : i + (head :: tail).length ≤ j := by
  by_contra hinside
  rw [List.length_cons] at hinside
  obtain ⟨k, rfl⟩ : ∃ k, j = i + (k + 1) := ⟨j - i - 1, by omega⟩
  have hk : k + 1 < (head :: tail).length := by rw [List.length_cons]; omega
  have hfirst : text[i + (k + 1)]? = some head := hj.getElem? (k := 0) (Nat.succ_pos _)
  have hlater : text[i + (k + 1)]? = tail[k]? := hi.getElem? hk
  rw [hfirst] at hlater
  exact hhead (List.mem_of_getElem? hlater.symm)

theorem pairwise_places (hhead : head ∉ tail) : (places (head :: tail) text).Pairwise
    fun i j => i + (head :: tail).length ≤ j := by
  have hne : head :: tail ≠ [] := List.cons_ne_nil head tail
  have hordered : (places (head :: tail) text).Pairwise (· < ·) :=
    List.pairwise_lt_range.filter _
  refine hordered.imp_of_mem fun hi hj hij => ?_
  exact StandsAt.apart hhead ((mem_places hne).mp hi) ((mem_places hne).mp hj) hij

/-! ## Places behind other characters -/

/-- The places behind a first character are those of the rest, one further. -/
theorem places_cons (token : List Char) (c : Char) (text : List Char) : places token (c :: text) =
    (if StandsAt token (c :: text) 0 then [0] else []) ++ (places token text).map (1 + ·) := by
  have hrest : (List.map Nat.succ (List.range (text.length + 1))).filter
      (fun i => StandsAt token (c :: text) i) = (places token text).map (1 + ·) := by
    rw [List.filter_map, places]
    exact List.map_congr_left fun i _ => Nat.add_comm i 1
  rw [places, List.length_cons, List.range_succ_eq_map, List.filter_cons, hrest]
  by_cases h : StandsAt token (c :: text) 0
  · rw [if_pos h, if_pos (decide_eq_true h), List.singleton_append]
  · rw [if_neg h, if_neg (by rwa [decide_eq_true_eq]), List.nil_append]

theorem places_cons_of_not_standing (h : ¬ token <+: c :: text) :
    places token (c :: text) = (places token text).map (1 + ·) := by
  have hfront : ¬ StandsAt token (c :: text) 0 := h
  rw [places_cons, if_neg hfront, List.nil_append]

/-- Where the first character of a token does not stand no token begins. -/
theorem places_append_of_not_mem (hword : head ∉ word) (text : List Char) :
    places (head :: tail) (word ++ text) = (places (head :: tail) text).map (word.length + ·) := by
  induction word with
  | nil =>
    rw [List.nil_append, List.length_nil]
    simp only [Nat.zero_add, List.map_id']
  | cons d word ih =>
    rw [List.mem_cons, not_or] at hword
    have hfront : ¬ head :: tail <+: d :: (word ++ text) := fun h =>
      hword.1 (List.cons_prefix_cons.mp h).1
    rw [List.cons_append, places_cons_of_not_standing hfront, ih hword.2, List.map_map]
    refine List.map_congr_left fun i _ => ?_
    rw [Function.comp_apply, List.length_cons]
    omega

/-- Behind a token at the front all places are further by the length of the token. -/
theorem places_token_append (hhead : head ∉ tail) (text : List Char) :
    places (head :: tail) (head :: tail ++ text) =
      0 :: (places (head :: tail) text).map ((head :: tail).length + ·) := by
  have hfront : StandsAt (head :: tail) (head :: (tail ++ text)) 0 :=
    List.prefix_append (head :: tail) text
  rw [List.cons_append, places_cons, if_pos hfront, places_append_of_not_mem hhead, List.map_map,
    List.singleton_append]
  refine congrArg (0 :: ·) (List.map_congr_left fun i _ => ?_)
  rw [Function.comp_apply, List.length_cons]
  omega

/-! ## Stretches between places -/

/-- The stretches of a text, from `start` on, that lie before, between and behind words of a given
width at the places `is`. -/
def stretchesFrom (width : Nat) (text : List Char) (start : Nat) : List Nat → List (List Char)
  | [] => [text.drop start]
  | i :: is => (text.take i).drop start :: stretchesFrom width text (i + width) is

/-- The stretches of a text before, between and behind the tokens in it. -/
def stretches (token text : List Char) : List (List Char) :=
  stretchesFrom token.length text 0 (places token text)

/-- There is one stretch more than there are places. -/
theorem length_stretches (token text : List Char) :
    (stretches token text).length = (places token text).length + 1 := by
  have hlength : ∀ (is : List Nat) (start : Nat),
      (stretchesFrom token.length text start is).length = is.length + 1 := by
    intro is
    induction is with
    | nil => exact fun _ => rfl
    | cons i is ih => exact fun _ => congrArg (· + 1) (ih _)
  exact hlength _ 0

/-- What stands before a text moves the places in it and leaves the stretches. -/
theorem stretchesFrom_append (width : Nat) (word text : List Char) (start : Nat) (is : List Nat) :
    stretchesFrom width (word ++ text) (word.length + start) (is.map (word.length + ·)) =
      stretchesFrom width text start is := by
  induction is generalizing start with
  | nil => rw [List.map_nil, stretchesFrom, stretchesFrom, List.drop_length_add_append]
  | cons i is ih =>
    rw [List.map_cons, stretchesFrom, stretchesFrom, List.take_length_add_append,
      List.drop_length_add_append, Nat.add_assoc, ih]

/-- A token at the front has nothing before it. -/
theorem stretches_token_append (hhead : head ∉ tail) (text : List Char) :
    stretches (head :: tail) (head :: tail ++ text) = [] :: stretches (head :: tail) text := by
  rw [stretches, places_token_append hhead, stretchesFrom, List.take_zero, List.drop_nil,
    Nat.zero_add]
  exact congrArg ([] :: ·) (stretchesFrom_append _ (head :: tail) text 0 _)

/-- A character at which no token stands belongs to the first stretch. -/
theorem exists_stretches_cons (h : ¬ token <+: c :: text) : ∃ stretch others,
    stretches token text = stretch :: others ∧
      stretches token (c :: text) = (c :: stretch) :: others := by
  unfold stretches
  rw [places_cons_of_not_standing h]
  cases places token text with
  | nil => exact ⟨text, [], rfl, rfl⟩
  | cons i is =>
    refine ⟨_, _, rfl, ?_⟩
    have hothers := stretchesFrom_append token.length [c] text (i + token.length) is
    rw [List.map_cons, stretchesFrom, Nat.add_comm 1 i, List.take_succ_cons, List.drop_zero]
    rw [List.length_singleton, List.singleton_append, ← Nat.add_assoc, Nat.add_comm 1 i] at hothers
    rw [hothers]
    rfl

/-! ## What the stretches make up -/

/-- The stretches with a token between each two are the text. -/
theorem intercalate_stretches (hhead : head ∉ tail) (text : List Char) :
    (head :: tail).intercalate (stretches (head :: tail) text) = text := by
  induction text using scan_induction (head :: tail) (List.cons_ne_nil head tail) with
  | nil => rfl
  | token_append text ih =>
    obtain ⟨stretch, others, hstretches⟩ : ∃ stretch others,
        stretches (head :: tail) text = stretch :: others := by
      rw [← List.ne_nil_iff_exists_cons, ← List.length_pos_iff, length_stretches]
      exact Nat.succ_pos _
    rw [stretches_token_append hhead, hstretches, List.intercalate_cons_cons, ← hstretches, ih,
      List.nil_append]
  | cons c text hfront ih =>
    obtain ⟨stretch, others, hstretches, hcons⟩ := exists_stretches_cons hfront
    rw [hstretches] at ih
    rw [hcons]
    cases others with
    | nil =>
      rw [List.intercalate_singleton] at ih ⊢
      rw [ih]
    | cons next others =>
      rw [List.intercalate_cons_cons] at ih ⊢
      rw [List.append_assoc] at ih ⊢
      rw [List.cons_append, ih]

/-- **What erasing a token leaves are the stretches before, between and behind its places.** -/
theorem flatten_stretches (hhead : head ∉ tail) (text : List Char) :
    (stretches (head :: tail) text).flatten = eraseAll (head :: tail) text := by
  induction text using scan_induction (head :: tail) (List.cons_ne_nil head tail) with
  | nil => rfl
  | token_append text ih =>
    rw [stretches_token_append hhead, eraseAll_token_append (List.cons_ne_nil head tail), ← ih]
    rfl
  | cons c text hfront ih =>
    obtain ⟨stretch, others, hstretches, hcons⟩ := exists_stretches_cons hfront
    rw [hstretches] at ih
    rw [hcons, eraseAll_cons hfront, ← ih]
    rfl

/-- Erasing makes a text shorter by the length of the token for each of its places. -/
theorem length_eraseAll (hhead : head ∉ tail) (text : List Char) :
    (eraseAll (head :: tail) text).length +
      (head :: tail).length * (places (head :: tail) text).length = text.length := by
  induction text using scan_induction (head :: tail) (List.cons_ne_nil head tail) with
  | nil => rfl
  | token_append text ih =>
    rw [eraseAll_token_append (List.cons_ne_nil head tail), places_token_append hhead,
      List.length_append, ← ih]
    simp only [List.length_cons, List.length_map, Nat.mul_succ]
    omega
  | cons c text hfront ih =>
    rw [eraseAll_cons hfront, places_cons_of_not_standing hfront, List.length_map]
    simp only [List.length_cons] at ih ⊢
    omega

end SuffixLint.Text
