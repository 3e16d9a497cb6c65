import Mathlib.Data.List.Lex
import Mathlib.Data.Prod.Lex
import Mathlib.Data.String.Basic
import Mathlib.Order.Compare
import Mathlib.Order.WithBot
import SuffixLint.Linter
import SuffixLint.Proofs.Sorting
/-!
# Places of findings

The order of findings is computed comparison by comparison, each one deciding where those before it
did not. Here it is read off a key instead, the place of a finding: its first file, its line and its
name, in the lexicographic order, where what is absent is the least. A path counts in it by its
components alone, and a component by its kind and its name.

`order_compares` says that the two are one. Each comparison is taken on its own first, in the order
in which they are built up: components, lists of them, optional values, and pairs.
-/

namespace SuffixLint

open Sorting

/-! ## The keys -/

/-- What a component counts by. -/
def Path.Component.key (c : Path.Component) : ℕ ×ₗ String :=
  toLex (c.rank, c.name)

/-- What a path counts by: its components. -/
def Path.key (p : Path) : List (ℕ ×ₗ String) :=
  p.components.map Path.Component.key

/-- The key of a value that may be absent, which is then the least. -/
def absentFirst {α κ : Type*} (key : α → κ) : Option α → WithBot κ
  | none => ⊥
  | some a => key a

/-- Where a finding stands among findings: by its first file, its line and its name. -/
def Finding.place (f : Finding) : WithBot (List (ℕ ×ₗ String)) ×ₗ WithBot ℕ ×ₗ String :=
  toLex (absentFirst Path.key f.affectedFiles.head?,
    toLex (absentFirst UInt32.toNat f.line, f.name))

/-! ## Comparisons that a key decides -/

section Compares

variable {α κ μ : Type*} [LinearOrder κ] [LinearOrder μ]

/-- In a linear order the comparison is the order. -/
theorem compares_self (a b : κ) : (compare a b).Compares a b := by
  cases hc : compare a b with
  | lt => exact compare_lt_iff_lt.mp hc
  | eq => exact compare_eq_iff_eq.mp hc
  | gt => exact compare_gt_iff_gt.mp hc

/-- What a comparison says of two keys it says of any others that are ordered alike. -/
theorem compares_imp {o : Ordering} {a b : κ} {a' b' : μ} (h : o.Compares a b)
    (hlt : a < b → a' < b') (heq : a = b → a' = b') (hgt : b < a → b' < a') :
    o.Compares a' b' := by
  cases o with
  | lt => exact hlt h
  | eq => exact heq h
  | gt => exact hgt h

/-- A second comparison decides where the first does not: pairs in the lexicographic order. -/
theorem compares_then {o o' : Ordering} {a b : κ} {a' b' : μ} (h : o.Compares a b)
    (h' : o'.Compares a' b') : (o.then o').Compares (toLex (a, a')) (toLex (b, b')) := by
  cases o with
  | lt => exact Prod.Lex.toLex_lt_toLex.mpr (Or.inl h)
  | gt => exact Prod.Lex.toLex_lt_toLex.mpr (Or.inl h)
  | eq =>
    obtain rfl : a = b := h
    refine compares_imp h' ?_ ?_ ?_
    · intro hlt
      exact Prod.Lex.toLex_lt_toLex.mpr (Or.inr ⟨rfl, hlt⟩)
    · rintro rfl
      rfl
    · intro hgt
      exact Prod.Lex.toLex_lt_toLex.mpr (Or.inr ⟨rfl, hgt⟩)

/-- An absent value comes before those that are there, which are compared with each other. -/
theorem compares_absentFirst [Ord α] {key : α → κ}
    (h : ∀ a b, (compare a b).Compares (key a) (key b)) (x y : Option α) :
    (compare x y).Compares (absentFirst key x) (absentFirst key y) := by
  cases x with
  | none =>
    cases y with
    | none => exact rfl
    | some b => exact WithBot.bot_lt_coe (key b)
  | some a =>
    cases y with
    | none => exact WithBot.bot_lt_coe (key a)
    | some b =>
      exact compares_imp (h a b) WithBot.coe_lt_coe.mpr (congrArg WithBot.some)
        WithBot.coe_lt_coe.mpr

/-- A list comes before those that go on from it; elsewhere the first difference decides. -/
theorem compares_list [Ord α] {key : α → κ}
    (h : ∀ a b, (compare a b).Compares (key a) (key b)) (l m : List α) :
    (compare l m).Compares (l.map key) (m.map key) := by
  induction l generalizing m with
  | nil =>
    cases m with
    | nil => exact rfl
    | cons b m => exact List.nil_lt_cons _ _
  | cons a l ih =>
    cases m with
    | nil => exact List.nil_lt_cons _ _
    | cons b m =>
      -- the keys of the lists stand to each other as the pairs of first key and the rest do
      rw [List.compare_cons_cons]
      refine compares_imp (compares_then (h a b) (ih m)) ?_ ?_ ?_
      · intro hlt
        exact List.cons_lt_cons_iff.mpr (Prod.Lex.toLex_lt_toLex.mp hlt)
      · intro heq
        obtain ⟨hhead, htail⟩ := Prod.mk.inj (toLex.injective heq)
        exact congrArg₂ List.cons hhead htail
      · intro hgt
        exact List.cons_lt_cons_iff.mpr (Prod.Lex.toLex_lt_toLex.mp hgt)

end Compares

/-! ## The order of findings -/

/-- Lines are compared as numbers. -/
theorem line_compares (a b : UInt32) : (compare a b).Compares a.toNat b.toNat := by
  change (compareOfLessAndEq a b).Compares a.toNat b.toNat
  rw [compareOfLessAndEq]
  by_cases hlt : a < b
  · rw [if_pos hlt]
    exact UInt32.lt_iff_toNat_lt.mp hlt
  · rw [if_neg hlt]
    by_cases heq : a = b
    · rw [if_pos heq]
      exact congrArg UInt32.toNat heq
    · rw [if_neg heq]
      have hge : b.toNat ≤ a.toNat := Nat.le_of_not_lt fun h => hlt (UInt32.lt_iff_toNat_lt.mpr h)
      exact Nat.lt_of_le_of_ne hge fun h => heq (UInt32.toNat_inj.mp h.symm)

/-- Components are compared by kind, and entries by name. -/
theorem component_compares (c d : Path.Component) : (compare c d).Compares c.key d.key :=
  compares_then (compares_self c.rank d.rank) (compares_self c.name d.name)

/-- Paths are compared component by component. -/
theorem path_compares (p q : Path) : (compare p q).Compares p.key q.key :=
  compares_list component_compares p.components q.components

/-- The order of findings is the order of their places. -/
theorem order_compares (f g : Finding) : (f.order g).Compares f.place g.place := by
  have hfile := compares_absentFirst path_compares f.affectedFiles.head? g.affectedFiles.head?
  have hline := compares_absentFirst line_compares f.line g.line
  rw [Finding.order, Ordering.then_assoc]
  exact compares_then hfile (compares_then hline (compares_self f.name g.name))

/-- Findings are sorted by their places. -/
theorem sort_eq_sortBy (l : List Finding) : Linter.sort l = sortBy Finding.place l := by
  have hle : (fun f g : Finding => (f.order g).isLE) = fun f g => decide (f.place ≤ g.place) := by
    funext f g
    rw [Bool.eq_iff_iff, Ordering.isLE_iff_ne_gt, decide_eq_true_eq]
    exact (order_compares f g).ne_gt
  rw [Linter.sort, sortBy, hle]

/-! ## What a place tells of a finding -/

/-- A component is known by its key: only entries have a name, and the kind tells them apart. -/
theorem component_key_injective : Function.Injective Path.Component.key := by
  intro c d h
  obtain ⟨hrank, hname⟩ := Prod.mk.inj (toLex.injective h)
  cases c <;> cases d <;> simp_all [Path.Component.rank, Path.Component.name]

/-- A value that may be absent is known by its key if those that are there are. -/
theorem absentFirst_injective {α κ : Type*} {key : α → κ} (h : Function.Injective key) :
    Function.Injective (absentFirst key) := by
  intro x y hxy
  cases x with
  | none =>
    cases y with
    | none => rfl
    | some b => exact absurd hxy WithBot.bot_ne_coe
  | some a =>
    cases y with
    | none => exact absurd hxy WithBot.coe_ne_bot
    | some b => exact congrArg some (h (WithBot.coe_injective hxy))

/-- Paths that may be absent have one key just if both are absent or they have the same
components. -/
theorem absentFirst_path_key_eq_iff {x y : Option Path} :
    absentFirst Path.key x = absentFirst Path.key y ↔
      x.map Path.components = y.map Path.components := by
  have hkey : ∀ z : Option Path, absentFirst Path.key z
      = absentFirst (List.map Path.Component.key) (z.map Path.components) := by
    intro z
    cases z with
    | none => rfl
    | some p => rfl
  rw [hkey, hkey]
  exact (absentFirst_injective component_key_injective.list_map).eq_iff

/-- Findings are at one place just if they have one name and one line and their first files are one
path. -/
theorem place_eq_iff {f g : Finding} : f.place = g.place ↔
    f.affectedFiles.head?.map Path.components = g.affectedFiles.head?.map Path.components ∧
      f.line = g.line ∧ f.name = g.name := by
  have hline : Function.Injective UInt32.toNat := fun _ _ h => UInt32.toNat_inj.mp h
  rw [Finding.place, Finding.place, toLex.injective.eq_iff, Prod.mk.injEq,
    toLex.injective.eq_iff, Prod.mk.injEq, absentFirst_path_key_eq_iff,
    (absentFirst_injective hline).eq_iff]

end SuffixLint
