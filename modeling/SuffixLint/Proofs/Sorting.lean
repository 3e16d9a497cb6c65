import Mathlib.Data.List.Basic
import Mathlib.Order.Lattice
/-!
# Stable sorting by a key

A list sorted by a key holds the elements of the list, their keys do not descend, and the elements
of one key stand in the order in which they came. These three facts leave no choice
(`eq_of_pairwise_of_ofKey`): two lists whose keys do not descend are equal as soon as they hold the
same elements of each key in the same order. What is said here of a sort follows from that, and
nothing below looks at how a list is sorted.
-/

namespace SuffixLint.Sorting

variable {α β κ : Type*} [LinearOrder κ] {key : α → κ}

/-- The list sorted by a key. -/
def sortBy (key : α → κ) (l : List α) : List α :=
  l.mergeSort fun a b => decide (key a ≤ key b)

/-- The elements of one key, in their order. -/
def ofKey (key : α → κ) (k : κ) (l : List α) : List α :=
  l.filter fun a => decide (key a = k)

theorem mem_ofKey {k : κ} {l : List α} {a : α} : a ∈ ofKey key k l ↔ a ∈ l ∧ key a = k := by
  rw [ofKey, List.mem_filter, decide_eq_true_eq]

theorem ofKey_cons_of_eq {k : κ} {a : α} (h : key a = k) (l : List α) :
    ofKey key k (a :: l) = a :: ofKey key k l :=
  List.filter_cons_of_pos (decide_eq_true h)

theorem ofKey_cons_of_ne {k : κ} {a : α} (h : key a ≠ k) (l : List α) :
    ofKey key k (a :: l) = ofKey key k l :=
  List.filter_cons_of_neg (by rwa [decide_eq_true_eq])

/-- Leaving out elements leaves out those of each key. -/
theorem ofKey_filter (k : κ) (p : α → Bool) (l : List α) :
    ofKey key k (l.filter p) = (ofKey key k l).filter p :=
  List.filter_comm _ _ l

/-- The elements of one key change places when all of them do. -/
theorem ofKey_perm {l m : List α} (h : l.Perm m) (k : κ) :
    (ofKey key k l).Perm (ofKey key k m) :=
  h.filter _

/-! ## What a sorted list is -/

/-- Nothing is lost, and nothing is added. -/
theorem sortBy_perm (key : α → κ) (l : List α) : (sortBy key l).Perm l :=
  List.mergeSort_perm l _

private theorem le_key_trans (a b c : α) (hab : decide (key a ≤ key b) = true)
    (hbc : decide (key b ≤ key c) = true) : decide (key a ≤ key c) = true := by
  rw [decide_eq_true_eq] at hab hbc ⊢
  exact le_trans hab hbc

private theorem le_key_total (a b : α) :
    (decide (key a ≤ key b) || decide (key b ≤ key a)) = true := by
  rw [Bool.or_eq_true, decide_eq_true_eq, decide_eq_true_eq]
  exact le_total _ _

/-- The keys of a sorted list do not descend. -/
theorem pairwise_sortBy (key : α → κ) (l : List α) :
    (sortBy key l).Pairwise fun a b => key a ≤ key b := by
  refine (List.pairwise_mergeSort le_key_trans le_key_total l).imp ?_
  intro a b hab
  exact of_decide_eq_true hab

/-- The elements of one key keep their order. -/
theorem ofKey_sortBy (key : α → κ) (l : List α) (k : κ) :
    ofKey key k (sortBy key l) = ofKey key k l := by
  have hpair : (ofKey key k l).Pairwise fun a b => decide (key a ≤ key b) = true := by
    refine List.pairwise_of_forall_mem_list ?_
    intro a ha b hb
    rw [decide_eq_true_eq, (mem_ofKey.mp ha).2, (mem_ofKey.mp hb).2]
  have hsub : (ofKey key k l).Sublist (sortBy key l) :=
    List.sublist_mergeSort le_key_trans le_key_total hpair List.filter_sublist
  -- the sorted list has no more elements of the key, so the sublist is all of them
  have hclass : (ofKey key k l).Sublist (ofKey key k (sortBy key l)) := by
    have hfilter := hsub.filter fun a => decide (key a = k)
    simp only [ofKey, List.filter_filter, Bool.and_self] at hfilter ⊢
    exact hfilter
  exact (hclass.eq_of_length (ofKey_perm (sortBy_perm key l) k).length_eq.symm).symm

/-! ## Nothing else is a sorted list -/

/-- Lists that hold the same elements of each key hold the same elements. -/
theorem mem_iff_of_ofKey {l m : List α} (h : ∀ k, ofKey key k l = ofKey key k m) (a : α) :
    a ∈ l ↔ a ∈ m := by
  have ha := congrArg (a ∈ ·) (h (key a))
  simpa only [mem_ofKey, and_true, eq_iff_iff] using ha

/-- The first elements of lists that do not descend have one key if each of them stands in the other
list too, for then neither key is above the other. -/
theorem head_key_eq {a b : α} {l m : List α} (hl : (a :: l).Pairwise fun x y => key x ≤ key y)
    (hm : (b :: m).Pairwise fun x y => key x ≤ key y) (ha : a ∈ b :: m) (hb : b ∈ a :: l) :
    key a = key b := by
  refine le_antisymm ?_ ?_
  · rcases List.mem_cons.mp hb with hba | hbl
    · rw [hba]
    · exact (List.pairwise_cons.mp hl).1 b hbl
  · rcases List.mem_cons.mp ha with hab | ham
    · rw [hab]
    · exact (List.pairwise_cons.mp hm).1 a ham

/-- Lists whose keys do not descend are equal if they hold the same elements of each key in the same
order. -/
theorem eq_of_pairwise_of_ofKey {l m : List α} (hl : l.Pairwise fun a b => key a ≤ key b)
    (hm : m.Pairwise fun a b => key a ≤ key b)
    (h : ∀ k, ofKey key k l = ofKey key k m) : l = m := by
  induction l generalizing m with
  | nil =>
    cases m with
    | nil => rfl
    | cons b m => exact absurd ((mem_iff_of_ofKey h b).mpr List.mem_cons_self) List.not_mem_nil
  | cons a l ih =>
    cases m with
    | nil => exact absurd ((mem_iff_of_ofKey h a).mp List.mem_cons_self) List.not_mem_nil
    | cons b m =>
      have hab : key a = key b := head_key_eq hl hm ((mem_iff_of_ofKey h a).mp List.mem_cons_self)
        ((mem_iff_of_ofKey h b).mpr List.mem_cons_self)
      -- each is the first element of its list that has their key
      have hhead := h (key a)
      rw [ofKey_cons_of_eq rfl, ofKey_cons_of_eq hab.symm] at hhead
      obtain rfl : a = b := (List.cons.inj hhead).1
      -- without them the lists still hold the same elements of each key
      have htail : ∀ k, ofKey key k l = ofKey key k m := by
        intro k
        have hk := h k
        by_cases hak : key a = k
        · rw [ofKey_cons_of_eq hak, ofKey_cons_of_eq hak] at hk
          exact (List.cons.inj hk).2
        · rwa [ofKey_cons_of_ne hak, ofKey_cons_of_ne hak] at hk
      rw [ih hl.of_cons hm.of_cons htail]

/-- Lists are sorted alike if they hold the same elements of each key in the same order. -/
theorem sortBy_congr {l m : List α} (h : ∀ k, ofKey key k l = ofKey key k m) :
    sortBy key l = sortBy key m := by
  refine eq_of_pairwise_of_ofKey (pairwise_sortBy key l) (pairwise_sortBy key m) ?_
  intro k
  rw [ofKey_sortBy, ofKey_sortBy, h]

/-- Permutations of each other are equal if their elements are. -/
theorem eq_of_perm_of_forall_eq {l m : List α} (h : l.Perm m) (heq : ∀ a ∈ l, ∀ b ∈ m, a = b) :
    l = m := by
  have hpair : ∀ n : List α, n.Pairwise fun _ _ => True := fun _ =>
    List.pairwise_of_forall fun _ _ => trivial
  exact h.eq_of_pairwise (fun a b ha hb _ _ => heq a ha b hb) (hpair l) (hpair m)

/-! ## Strict order -/

/-- What stands in strict order stands there once. -/
theorem nodup_of_pairwise_lt {l : List α} (h : l.Pairwise fun a b => key a < key b) : l.Nodup := by
  apply h.imp
  rintro a b hlt rfl
  exact lt_irrefl (key a) hlt

/-- A strict order leaves no choice: the elements determine the list. -/
theorem eq_of_pairwise_lt {l m : List α} (hl : l.Pairwise fun a b => key a < key b)
    (hm : m.Pairwise fun a b => key a < key b) (h : ∀ a, a ∈ l ↔ a ∈ m) : l = m := by
  have hperm : l.Perm m :=
    (List.perm_ext_iff_of_nodup (nodup_of_pairwise_lt hl) (nodup_of_pairwise_lt hm)).mpr h
  apply hperm.eq_of_pairwise _ hl hm
  intro a b _ _ hab hba
  exact absurd hba (lt_asymm hab)

/-! ## Sorting with other operations -/

/-- It does not matter whether elements are left out before a list is sorted or after. -/
theorem filter_sortBy (key : α → κ) (p : α → Bool) (l : List α) :
    (sortBy key l).filter p = sortBy key (l.filter p) := by
  refine eq_of_pairwise_of_ofKey ((pairwise_sortBy key l).filter p) (pairwise_sortBy key _) ?_
  intro k
  rw [ofKey_filter, ofKey_sortBy, ofKey_sortBy, ofKey_filter]

/-- A map that keeps the keys may be applied before a list is sorted or after. -/
theorem map_sortBy (key : α → κ) (key' : β → κ) {f : α → β} (h : ∀ a, key' (f a) = key a)
    (l : List α) : (sortBy key l).map f = sortBy key' (l.map f) := by
  refine List.map_mergeSort ?_
  intro a _ b _
  rw [h, h]

end SuffixLint.Sorting
