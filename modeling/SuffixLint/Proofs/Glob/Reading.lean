import SuffixLint.Proofs.Glob.Shape
/-!
# Patterns as they are read

Whoever writes a pattern reads it star by star: one star stands for a run of characters without a
slash, a pair of stars for any run, and a pair of stars with a slash behind it may also stand for no
directory at all where a directory may begin (`Matches`). The shapes know nothing of such a reading.
They look for the text before the first star, for the text behind the last one, and for the text
between them. So a path that is matched as the pattern is read has to be taken apart at the stars of
the pattern: at texts without stars (`exists_of_matches_append`), at one star
(`exists_of_matches_star`) and at a pair (`exists_of_matches_pair`). Behind a pair that stands for
no directory a slash of the pattern is missing from the path, and this is the slash that the shape
has trimmed away. So a pattern whose stars are counted misses no path (`accepts_of_matches`).
-/

namespace SuffixLint.Glob

open Text

/-- A pattern matches a path, character by character and star by star. The flag says whether a
directory may begin here: at the start of the pattern, and behind a slash of it. -/
inductive Matches : Bool → List Char → List Char → Prop
  | done {b : Bool} : Matches b [] []
  | char {b : Bool} {c : Char} {pattern path : List Char} (hc : c ≠ '*')
    (h : Matches (c = '/') pattern path) : Matches b (c :: pattern) (c :: path)
  /-- One star stands for a run of characters without a slash. -/
  | star {b : Bool} {run pattern path : List Char} (hrun : '/' ∉ run)
    (h : Matches false pattern path) : Matches b ('*' :: pattern) (run ++ path)
  /-- A pair of stars stands for any run of characters. -/
  | pair {b : Bool} {run pattern path : List Char} (h : Matches false pattern path) :
    Matches b ('*' :: '*' :: pattern) (run ++ path)
  /-- A pair of stars and a slash stand for no directory. -/
  | noDirectory {pattern path : List Char} (h : Matches true pattern path) :
    Matches true ('*' :: '*' :: '/' :: pattern) path

/-- Patterns whose stars are counted: those with one star, and those with a pair of stars behind a
text without stars and before a text with one star at most. -/
def IsCounted (pattern : List Char) : Prop :=
  pattern.count '*' = 1 ∨ ∃ lead tail, pattern = lead ++ '*' :: '*' :: tail ∧ '*' ∉ lead ∧
    tail.count '*' ≤ 1

variable {b : Bool} {pattern path lead middle tail : List Char}

/-! ## Taking a path apart -/

/-- The part of a pattern without stars stands in the path, and the rest of the pattern matches what
stands behind it. -/
theorem exists_of_matches_append (h : Matches b (lead ++ tail) path) (hstar : '*' ∉ lead) :
    ∃ b' behind, path = lead ++ behind ∧ Matches b' tail behind := by
  induction lead generalizing b path with
  | nil => exact ⟨b, path, rfl, h⟩
  | cons c lead ih =>
    have hc : c ≠ '*' := fun hc => hstar (hc ▸ List.mem_cons_self)
    rw [List.cons_append] at h
    generalize hrest : lead ++ tail = rest at h
    cases h with
    | char _ hmatch =>
      obtain ⟨b', behind, rfl, hbehind⟩ :=
        ih (hrest ▸ hmatch) fun hmem => hstar (List.mem_cons_of_mem c hmem)
      exact ⟨b', behind, rfl, hbehind⟩
    | star => exact absurd rfl hc
    | pair => exact absurd rfl hc
    | noDirectory => exact absurd rfl hc

/-- Without stars a pattern matches its own text. -/
theorem eq_of_matches (h : Matches b pattern path) (hstar : '*' ∉ pattern) : path = pattern := by
  rw [← List.append_nil pattern] at h
  obtain ⟨b', behind, rfl, hbehind⟩ := exists_of_matches_append h hstar
  cases hbehind
  exact List.append_nil pattern

/-- A text without stars is a pattern that matches it. -/
theorem matches_self (hstar : '*' ∉ path) : Matches b path path := by
  induction path generalizing b with
  | nil => exact .done
  | cons c path ih =>
    exact .char (fun hc => hstar (hc ▸ List.mem_cons_self))
      (ih fun hmem => hstar (List.mem_cons_of_mem c hmem))

/-- One star stands for a run of characters without a slash. -/
theorem exists_of_matches_star (h : Matches b ('*' :: tail) path) (hstar : '*' ∉ tail) :
    ∃ run, '/' ∉ run ∧ path = run ++ tail := by
  cases h with
  | char hc => exact absurd rfl hc
  | star hrun h => exact ⟨_, hrun, congrArg _ (eq_of_matches h hstar)⟩
  | pair => exact absurd List.mem_cons_self hstar
  | noDirectory => exact absurd List.mem_cons_self hstar

/-- What stands behind a pair of stars matches an end of the path, or does so without the slash that
it begins with. -/
theorem exists_of_matches_pair (h : Matches b ('*' :: '*' :: tail) path) :
    ∃ b' behind, behind <:+ path ∧
      (Matches b' tail behind ∨ ∃ rest, tail = '/' :: rest ∧ Matches b' rest behind) := by
  cases h with
  | char hc => exact absurd rfl hc
  | pair h => exact ⟨false, _, List.suffix_append _ _, Or.inl h⟩
  | noDirectory h => exact ⟨true, path, List.suffix_refl _, Or.inr ⟨_, rfl, h⟩⟩
  | star _ h =>
    -- the stars have been taken apart, and a third one may have been joined to the second
    cases h with
    | char hc => exact absurd rfl hc
    | star _ h =>
      rw [← List.append_assoc]
      exact ⟨false, _, List.suffix_append _ _, Or.inl h⟩
    | @pair _ _ rest behind h =>
      have hthird : Matches false ('*' :: rest) behind :=
        @Matches.star false [] rest behind List.not_mem_nil h
      rw [← List.append_assoc]
      exact ⟨false, _, List.suffix_append _ _, Or.inl hthird⟩

/-! ## No path is missed -/

/-- A path ends as its end is matched, whether or not slashes are trimmed from the pattern. -/
theorem endsAs_of_matches {behind : List Char} (h : Matches b tail behind)
    (hcount : tail.count '*' ≤ 1) (hend : behind <:+ path) :
    endsAs (trimFront ['/'] tail) path = true := by
  by_cases hmem : '*' ∈ tail
  · obtain ⟨before, after, rfl, hbefore, hafter⟩ := exists_eq_append_star hmem hcount
    obtain ⟨b', rest, rfl, hrest⟩ := exists_of_matches_append h hbefore
    obtain ⟨run, -, rfl⟩ := exists_of_matches_star hrest hafter
    have htrim : trimFront ['/'] before <:+ before := trimFront_isSuffix '/' before
    have hstar : '*' ∉ trimFront ['/'] before := fun hmem => hbefore (htrim.subset hmem)
    rw [trimFront_append (by decide), endsAs_star_iff hstar]
    refine ⟨?_, ?_⟩
    · exact htrim.isInfix.trans ((List.prefix_append _ _).isInfix.trans hend.isInfix)
    · exact (List.suffix_append run after).trans ((List.suffix_append _ _).trans hend)
  · have htrim : trimFront ['/'] tail <:+ tail := trimFront_isSuffix '/' tail
    have hbehind : behind = tail := eq_of_matches h hmem
    rw [endsAs_iff fun hstar => hmem (htrim.subset hstar)]
    exact htrim.trans (hbehind ▸ hend)

/-- **A pattern whose stars are counted misses no path** that it matches as it is read. -/
theorem accepts_of_matches {pattern path : String} (hcounted : IsCounted pattern.toList)
    (h : Matches true pattern.toList path.toList) : (Glob.mk pattern).accepts path = true := by
  rw [accepts]
  rcases hcounted with hone | ⟨lead, tail, hpattern, hlead, hcount⟩
  · have hmem : '*' ∈ pattern.toList := List.count_pos_iff.mp (by omega)
    obtain ⟨before, after, hpattern, hbefore, hafter⟩ := exists_eq_append_star hmem (by omega)
    rw [hpattern] at h ⊢
    obtain ⟨b, behind, hpath, hbehind⟩ := exists_of_matches_append h hbefore
    obtain ⟨run, -, rfl⟩ := exists_of_matches_star hbehind hafter
    rw [ofPattern_star hbefore hafter, Shape.accepts, hpath, Bool.and_eq_true,
      List.isPrefixOf_iff_prefix, List.isSuffixOf_iff_suffix]
    exact ⟨List.prefix_append _ _, (List.suffix_append _ _).trans (List.suffix_append _ _)⟩
  · rw [hpattern] at h ⊢
    obtain ⟨b, behind, hpath, hbehind⟩ := exists_of_matches_append h hlead
    obtain ⟨b', rest, hend, hrest⟩ := exists_of_matches_pair hbehind
    rw [ofPattern_pair hlead hcount, Shape.accepts, hpath, Bool.and_eq_true,
      List.isPrefixOf_iff_prefix]
    have hend' : rest <:+ lead ++ behind := hend.trans (List.suffix_append _ _)
    refine ⟨(trimBack_isPrefix '/' lead).trans (List.prefix_append _ _), ?_⟩
    rcases hrest with hrest | ⟨short, rfl, hrest⟩
    · exact endsAs_of_matches hrest hcount hend'
    · rw [List.count_cons_of_ne (by decide)] at hcount
      rw [trimFront_cons_self]
      exact endsAs_of_matches hrest hcount hend'

/-- A pair of stars that stands for no directory, and one star behind it. -/
theorem accepts_of_matches_no_directory :
    let pattern := "src/**/*.g.cs"
    let path := "src/Api.g.cs"
    IsCounted pattern.toList ∧ Matches true pattern.toList path.toList ∧
      (Glob.mk pattern).accepts path = true := by
  intro pattern path
  have hcounted : IsCounted pattern.toList :=
    Or.inr ⟨"src/".toList, "/*.g.cs".toList, by decide, by decide, by decide⟩
  have hpattern : pattern.toList =
      's' :: 'r' :: 'c' :: '/' :: '*' :: '*' :: '/' :: '*' :: ['.', 'g', '.', 'c', 's'] := by decide
  have hpath : path.toList =
      's' :: 'r' :: 'c' :: '/' :: (['A', 'p', 'i'] ++ ['.', 'g', '.', 'c', 's']) := by decide
  have hmatches : Matches true pattern.toList path.toList := by
    rw [hpattern, hpath]
    refine .char (by decide) (.char (by decide) (.char (by decide) (.char (by decide) ?_)))
    exact .noDirectory (.star (by decide) (matches_self (by decide)))
  exact ⟨hcounted, hmatches, accepts_of_matches hcounted hmatches⟩

end SuffixLint.Glob
