import SuffixLint.Proofs.Text.Places
import SuffixLint.Verdict
/-!
# Names that are proposed

For a name without the token, or with the token in a wrong place, the name is proposed that erasing
the token leaves, with one token at its end (`suggestedName?_eq_eraseAll`). The first
character of the token stands nowhere else in it, so the one at the end does not join with what
stands before it. Where the erased tokens stood the rest of the name is joined, though, and a token
that was interrupted by others is whole again: it stays inside the proposed name
(`onlyAtEnd_suggestedName_iff`). The tokens that stood in the name itself are erased, every one of
them, and nothing else is (`suggestedName?_eq_stretches`).
-/

namespace SuffixLint.Verdict

open Convention Text

/-- A name in which the token is found missing does not hold it anywhere. -/
theorem not_infix_of_classify {name : String} (h : classify true name = .missingSuffix) :
    ¬ token.toList <:+: name.toList := by
  rw [← occurs_iff]
  intro hoccurs
  simp only [classify, ofAsyncName, hoccurs, if_true] at h
  split at h
  · cases h
  · split at h
    · cases h
    · cases h

/-- What is kept of a name without the token, or with the token in a wrong place, is what erasing
the token leaves of it. -/
theorem stem_eq_eraseAll {name : String}
    (h : classify true name = .missingSuffix ∨ classify true name = .misplacedSuffix) :
    (classify true name).stem name.toList = eraseAll token.toList name.toList := by
  rcases h with h | h
  · rw [eraseAll_eq_self (not_infix_of_classify h), h]
    rfl
  · rw [h]
    rfl

/-- The name that is proposed then is what erasing the token leaves, and the token. -/
theorem suggestedName?_eq_eraseAll {name : String}
    (h : classify true name = .missingSuffix ∨ classify true name = .misplacedSuffix) :
    (classify true name).suggestedName? name =
      some (String.ofList (eraseAll token.toList name.toList ++ token.toList)) := by
  have hbreaks : ¬ (classify true name).isCompliant = true := by
    rcases h with h | h
    · rw [h]
      decide
    · rw [h]
      decide
  rw [suggestedName?, if_neg hbreaks, stem_eq_eraseAll h]

/-- **A proposed name has the token once, and at its end**, just if no token of the name was
interrupted by others. In a name that does not hold the token none was. -/
theorem onlyAtEnd_suggestedName_iff {name : String}
    (h : classify true name = .missingSuffix ∨ classify true name = .misplacedSuffix) :
    ∃ suggested, (classify true name).suggestedName? name = some suggested ∧
      (OnlyAtEnd token.toList suggested.toList ↔ ¬ HoldsInterrupted token.toList name.toList) ∧
      (classify true name = .missingSuffix → OnlyAtEnd token.toList suggested.toList) := by
  have htoken : token.toList = 'A' :: ['s', 'y', 'n', 'c'] := rfl
  have hhead : 'A' ∉ ['s', 'y', 'n', 'c'] := by decide
  refine ⟨_, suggestedName?_eq_eraseAll h, ?_, fun hmissing => ?_⟩
  · rw [String.toList_ofList, htoken, onlyAtEnd_append_iff hhead, infix_eraseAll_iff hhead]
  · have hnone := not_infix_of_classify hmissing
    rw [String.toList_ofList, eraseAll_eq_self hnone, htoken, onlyAtEnd_append_iff hhead]
    exact hnone

/-- Two tokens in wrong places, one behind the other and one alone. -/
theorem onlyAtEnd_suggestedName_iff_misplaced :
    let name := "LoadAsyncAsyncDataAsyncNow"
    (classify true name = .missingSuffix ∨ classify true name = .misplacedSuffix) ∧
      ∃ suggested, (classify true name).suggestedName? name = some suggested ∧
        (OnlyAtEnd token.toList suggested.toList ↔
          ¬ HoldsInterrupted token.toList name.toList) ∧
        (classify true name = .missingSuffix → OnlyAtEnd token.toList suggested.toList) := by
  intro name
  have hverdict : classify true name = .missingSuffix ∨ classify true name = .misplacedSuffix :=
    Or.inr (by decide)
  exact ⟨hverdict, onlyAtEnd_suggestedName_iff hverdict⟩

/-- A token with another one inside it is whole again when that one is moved to the end. -/
theorem suggestedName_with_two_tokens :
    let name := "AsyAsyncnc"
    classify true name = .misplacedSuffix ∧
      (classify true name).suggestedName? name = some "AsyncAsync" ∧
      ¬ OnlyAtEnd token.toList "AsyncAsync".toList := by
  refine ⟨by decide, by decide, fun h => ?_⟩
  exact absurd ((h 0).mp (by decide)) (by decide)

/-- A name in which the token is found misplaced holds it somewhere. -/
theorem infix_of_classify {name : String} (h : classify true name = .misplacedSuffix) :
    token.toList <:+: name.toList := by
  rw [← occurs_iff]
  by_contra hoccurs
  simp only [classify, ofAsyncName, hoccurs, if_true] at h
  split at h
  · cases h
  · split at h
    · cases h
    · cases h

/-- **Every misplaced token is taken out of a name, and nothing else**: the tokens of the name do not
overlap, with one of them between each two the stretches of the name make it up, and the stretches
alone, one behind the other, are what stands before the token in the proposed name. -/
theorem suggestedName?_eq_stretches {name : String} (h : classify true name = .misplacedSuffix) :
    let tokens := places token.toList name.toList
    let parts := stretches token.toList name.toList
    (∀ i, i ∈ tokens ↔ StandsAt token.toList name.toList i) ∧
      1 ≤ tokens.length ∧ tokens.Pairwise (fun i j => i + 5 ≤ j) ∧
      parts.length = tokens.length + 1 ∧ token.toList.intercalate parts = name.toList ∧
      ∃ suggested, (classify true name).suggestedName? name = some suggested ∧
        suggested.toList = parts.flatten ++ token.toList ∧
        suggested.length + 5 * tokens.length = name.length + 5 := by
  intro tokens parts
  have htoken : token.toList = 'A' :: ['s', 'y', 'n', 'c'] := rfl
  have hhead : 'A' ∉ ['s', 'y', 'n', 'c'] := by decide
  have hne : token.toList ≠ [] := by decide
  have hflatten : parts.flatten = eraseAll token.toList name.toList :=
    flatten_stretches hhead name.toList
  have hlength : (eraseAll token.toList name.toList).length + 5 * tokens.length = name.length := by
    rw [← String.length_toList]
    exact length_eraseAll hhead name.toList
  refine ⟨fun i => mem_places hne, ?_, pairwise_places hhead, length_stretches _ _,
    intercalate_stretches hhead name.toList, _, suggestedName?_eq_eraseAll (Or.inr h), ?_, ?_⟩
  · rw [Nat.one_le_iff_ne_zero, ne_eq, List.length_eq_zero_iff]
    exact (places_ne_nil_iff hne).mpr (infix_of_classify h)
  · rw [String.toList_ofList, hflatten]
  · rw [String.length_ofList, List.length_append, htoken, List.length_cons]
    simp only [List.length_cons, List.length_nil]
    rw [htoken] at hlength
    omega

/-- Two tokens side by side, one behind them, and the halves of a fourth around the last. -/
theorem suggestedName?_eq_stretches_halves :
    let name := "LoadAsyncAsyncDataAsyAsyncncNow"
    let tokens := places token.toList name.toList
    let parts := stretches token.toList name.toList
    classify true name = .misplacedSuffix ∧ tokens = [4, 9, 21] ∧
      parts = ["Load".toList, [], "DataAsy".toList, "ncNow".toList] ∧
      ∃ suggested, (classify true name).suggestedName? name = some suggested ∧
        suggested.toList = parts.flatten ++ token.toList := by
  intro name tokens parts
  have hverdict : classify true name = .misplacedSuffix := by decide
  obtain ⟨-, -, -, -, -, suggested, hsuggested, hparts, -⟩ := suggestedName?_eq_stretches hverdict
  exact ⟨hverdict, by decide, by decide, suggested, hsuggested, hparts⟩

end SuffixLint.Verdict
