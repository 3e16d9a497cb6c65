import SuffixLint.Decimal.Shortest
/-!
# Decimal digits read back

The digits of a number are digits, there is at least one, only zero begins with a zero, and they
stand for the number (`value_digits`). The text of a double begins with a digit too, or with its
sign.
-/

namespace SuffixLint.Decimal

/-! ## One digit -/

private theorem digitChar_all :
    ∀ d, d < 10 → (digitChar d).isDigit = true ∧ digitValue (digitChar d) = d ∧
      (digitChar d = '0' → d = 0) := by
  decide

theorem isDigit_digitChar {d : Nat} (h : d < 10) : (digitChar d).isDigit = true :=
  (digitChar_all d h).1

theorem digitValue_digitChar {d : Nat} (h : d < 10) : digitValue (digitChar d) = d :=
  (digitChar_all d h).2.1

/-! ## The digits of a number -/

theorem digits_of_lt {n : Nat} (h : n < 10) : digits n = [digitChar n] := by
  rw [digits, if_pos h]

theorem digits_of_le {n : Nat} (h : 10 ≤ n) :
    digits n = digits (n / 10) ++ [digitChar (n % 10)] := by
  rw [digits, if_neg (by omega)]

theorem isDigit_of_mem_digits {n : Nat} {c : Char} (h : c ∈ digits n) : c.isDigit = true := by
  induction n using Nat.strongRecOn with
  | _ n ih =>
    by_cases hn : n < 10
    · rw [digits_of_lt hn, List.mem_singleton] at h
      rw [h]
      exact isDigit_digitChar hn
    · rw [digits_of_le (by omega), List.mem_append, List.mem_singleton] at h
      rcases h with h | rfl
      · exact ih (n / 10) (by omega) h
      · exact isDigit_digitChar (by omega)

/-- The digits begin with a digit, and that digit is zero for the number zero alone. -/
theorem exists_digits_eq_cons (n : Nat) :
    ∃ c ds, digits n = c :: ds ∧ (c = '0' → n = 0 ∧ ds = []) := by
  induction n using Nat.strongRecOn with
  | _ n ih =>
    by_cases hn : n < 10
    · exact ⟨digitChar n, [], digits_of_lt hn, fun h => ⟨(digitChar_all n hn).2.2 h, rfl⟩⟩
    · obtain ⟨c, ds, hds, hzero⟩ := ih (n / 10) (by omega)
      refine ⟨c, ds ++ [digitChar (n % 10)], ?_, ?_⟩
      · rw [digits_of_le (by omega), hds, List.cons_append]
      · intro hc
        have := (hzero hc).1
        omega

theorem valueFrom_append (start : Nat) (ds es : List Char) :
    valueFrom start (ds ++ es) = valueFrom (valueFrom start ds) es :=
  List.foldl_append

/-- The digits of a number stand for it. -/
theorem value_digits (n : Nat) : value (digits n) = n := by
  induction n using Nat.strongRecOn with
  | _ n ih =>
    by_cases hn : n < 10
    · rw [digits_of_lt hn, value, valueFrom, List.foldl_cons, List.foldl_nil,
        digitValue_digitChar hn]
      omega
    · rw [digits_of_le (by omega), value, valueFrom_append, ← value, ih (n / 10) (by omega),
        valueFrom, List.foldl_cons, List.foldl_nil, digitValue_digitChar (by omega)]
      omega

theorem digits_injective {m n : Nat} (h : digits m = digits n) : m = n := by
  rw [← value_digits m, h, value_digits]

/-- How many digits there are is told by the powers of ten. -/
theorem length_digits_le_iff {n k : Nat} :
    (digits n).length ≤ k + 1 ↔ n < Nat.pow 10 (k + 1) := by
  induction k generalizing n with
  | zero =>
    by_cases hn : n < 10
    · rw [digits_of_lt hn]
      exact iff_of_true (Nat.le_refl 1) hn
    · obtain ⟨c, ds, hds, -⟩ := exists_digits_eq_cons (n / 10)
      rw [digits_of_le (by omega), hds, List.length_append, List.length_cons]
      exact iff_of_false (by simp) hn
  | succ k ih =>
    have hpow : Nat.pow 10 (k + 1 + 1) = Nat.pow 10 (k + 1) * 10 := rfl
    have hpos : 0 < Nat.pow 10 (k + 1) := Nat.pow_pos (by omega)
    by_cases hn : n < 10
    · rw [digits_of_lt hn]
      exact iff_of_true (by simp) (by omega)
    · rw [digits_of_le (by omega), List.length_append, List.length_singleton,
        Nat.add_le_add_iff_right, ih, hpow]
      omega

/-- These digits are those that a number is shown with. -/
theorem toList_toString (n : Nat) : (toString n).toList = digits n := by
  have hchar : ∀ d, d < 10 → Nat.digitChar d = digitChar d := by decide
  rw [show toString n = n.repr from rfl, Nat.toList_repr]
  induction n using Nat.strongRecOn with
  | _ n ih =>
    by_cases hn : n < 10
    · rw [Nat.toDigits_of_lt_base hn, digits_of_lt hn, hchar n hn]
    · rw [Nat.toDigits_of_base_le (by omega) (by omega), digits_of_le (by omega),
        ih (n / 10) (by omega), hchar (n % 10) (by omega)]

/-- More digits make a number no smaller. -/
theorem le_valueFrom (start : Nat) (ds : List Char) : start ≤ valueFrom start ds := by
  induction ds generalizing start with
  | nil => exact Nat.le_refl start
  | cons c ds ih =>
    have hstep := ih (start * 10 + digitValue c)
    rw [valueFrom] at hstep ⊢
    rw [List.foldl_cons]
    omega

/-! ## The text of a double -/

/-- What a number begins with: a digit, or its sign. -/
def Begins (cs : List Char) : Prop :=
  ∃ c r, cs = c :: r ∧ (c.isDigit = true ∨ c = '-')

theorem Begins.append {cs : List Char} (h : Begins cs) (ds : List Char) : Begins (cs ++ ds) := by
  obtain ⟨c, r, rfl, hc⟩ := h
  exact ⟨c, r ++ ds, rfl, hc⟩

theorem begins_digits (n : Nat) : Begins (digits n) := by
  obtain ⟨c, ds, hds, -⟩ := exists_digits_eq_cons n
  exact ⟨c, ds, hds, Or.inl (isDigit_of_mem_digits (hds ▸ List.mem_cons_self))⟩

theorem begins_take_digits (n : Nat) {k : Nat} (h : 0 < k) : Begins ((digits n).take k) := by
  obtain ⟨c, ds, hds, hc⟩ := begins_digits n
  obtain ⟨k, rfl⟩ : ∃ m, k = m + 1 := ⟨k - 1, by omega⟩
  rw [hds]
  exact ⟨c, ds.take k, rfl, hc⟩

/-- A double is written with a digit or its sign in front, in whichever of its forms. -/
theorem begins_text (y : Binary64) : Begins (text y) := by
  unfold text
  -- a sign is in front of everything, so only the forms without one are looked at
  cases y.negative with
  | true =>
    rw [if_pos rfl]
    split <;> exact ⟨'-', _, rfl, Or.inr rfl⟩
  | false =>
    rw [if_neg Bool.false_ne_true]
    split
    · exact ⟨'0', _, rfl, Or.inl rfl⟩
    · dsimp only
      rw [List.nil_append]
      split
      · split
        · rw [List.append_assoc]
          exact (begins_digits _).append _
        · split
          · exact (begins_take_digits _ (by omega)).append _
          · exact ⟨'0', _, rfl, Or.inl rfl⟩
      · rw [List.append_assoc]
        exact (begins_take_digits _ Nat.one_pos).append _

end SuffixLint.Decimal
