import SuffixLint.Proofs.Glob.Shape
/-!
# Patterns at any depth

A pair of stars and a slash before a pattern are meant to take the pattern to any depth, so that it
names more than it did. But what is put before a pattern changes its shape: a plain text that was a
start becomes an end, what stands behind the first of several stars becomes an end too, and a
further pair of stars makes a plain start of everything. Each kind of pattern is followed here from
the shape that it has to the shape that it gets (`accepts_anywhere`). With one star, and for what
lies below a directory, all is kept that was named before.
-/

namespace SuffixLint.Glob

open Text

variable {pattern path before after dir : List Char}

/-! ## Patterns with more than one pair of stars -/

/-- A pattern with more stars behind its first one is a plain start. -/
theorem ofStar_of_mem (hbefore : '*' ∉ before) (hafter : '*' ∈ after) :
    Shape.ofStar (before ++ '*' :: after) = .leading (before ++ '*' :: after) := by
  have hcut : cut ['*'] (before ++ '*' :: after) = some (before, after) := cut_append hbefore after
  simp only [Shape.ofStar, hcut, List.contains_iff_mem, hafter, if_true]

/-- A pattern with two pairs of stars is a plain start, unless it is one for a directory at any
depth. -/
theorem ofPattern_pairs (hbefore : ['*', '*'] <:+: before) (hafter : ['*', '*'] <:+: after)
    (hends : ¬ ("**/".toList <+: before ++ after ∧ "/**".toList <:+ before ++ after)) :
    Shape.ofPattern (before ++ after) = .leading (before ++ after) := by
  obtain ⟨front, back, hcut⟩ := exists_cut_append hbefore after
  have hback : occurs ['*', '*'] (back ++ after) = true :=
    occurs_iff.mpr (hafter.trans (List.suffix_append back after).isInfix)
  rw [ofPattern_of_not_ends hends, hcut]
  simp only [hback, if_true]
  obtain ⟨front, rest, rfl, hfront⟩ :=
    List.eq_append_cons_of_mem (hbefore.subset List.mem_cons_self)
  rw [List.append_assoc, List.cons_append]
  exact ofStar_of_mem hfront (List.mem_append_right rest (hafter.subset List.mem_cons_self))

/-! ## A pair of stars before a pattern -/

/-- Before a pattern with no pair of stars, the pair parts nothing from an end. -/
theorem accepts_anywhere_of_noPair (h : ¬ ['*', '*'] <:+: pattern) :
    (Shape.ofPattern ("**/".toList ++ pattern)).accepts path =
      endsAs (trimFront ['/'] pattern) path := by
  have hpair : ¬ ['*', '*'] <:+: '/' :: pattern := by
    rw [List.infix_cons_iff, not_or]
    exact ⟨fun hslash => absurd (List.cons_prefix_cons.mp hslash).1 (by decide), h⟩
  have hlead : trimBack ['/'] [] = [] := trimBack_eq_rdropWhile '/' []
  have hshape : Shape.ofPattern ("**/".toList ++ pattern) =
      .spanning (trimBack ['/'] []) (trimFront ['/'] ('/' :: pattern)) :=
    ofPattern_pair_of_noPair List.not_mem_nil hpair
  rw [hshape, hlead, trimFront_cons_self, Shape.accepts]
  exact Bool.true_and _

/-- A plain text becomes an end. -/
theorem accepts_anywhere_plain (h : '*' ∉ pattern) :
    (Shape.ofPattern ("**/".toList ++ pattern)).accepts path = true ↔
      pattern.dropWhile (· == '/') <:+ path := by
  have hpair : ¬ ['*', '*'] <:+: pattern := fun hpair => h (hpair.subset List.mem_cons_self)
  have htrim : '*' ∉ trimFront ['/'] pattern := fun hmem =>
    h ((trimFront_isSuffix '/' pattern).subset hmem)
  rw [accepts_anywhere_of_noPair hpair, endsAs_iff htrim, trimFront_eq_dropWhile]

/-- A path that is named begins with what stands before the first star. -/
theorem prefix_of_accepts (hbefore : '*' ∉ before)
    (hpair : ¬ ['*', '*'] <:+: before ++ '*' :: after)
    (h : (Shape.ofPattern (before ++ '*' :: after)).accepts path = true) : before <+: path := by
  by_cases hafter : '*' ∈ after
  · rw [ofPattern_of_noPair hpair, ofStar_of_mem hbefore hafter, Shape.accepts,
      List.isPrefixOf_iff_prefix] at h
    exact (List.prefix_append _ _).trans h
  · rw [ofPattern_star hbefore hafter, Shape.accepts, Bool.and_eq_true,
      List.isPrefixOf_iff_prefix] at h
    exact h.1

/-- What stands behind the first star becomes an end. -/
theorem accepts_anywhere_star (hbefore : '*' ∉ before)
    (hpair : ¬ ['*', '*'] <:+: before ++ '*' :: after) (h : before <+: path) :
    (Shape.ofPattern ("**/".toList ++ (before ++ '*' :: after))).accepts path = true ↔
      after <:+ path := by
  have htrim : trimFront ['/'] before <:+ before := trimFront_isSuffix '/' before
  have hstar : '*' ∉ trimFront ['/'] before := fun hmem => hbefore (htrim.subset hmem)
  rw [accepts_anywhere_of_noPair hpair, trimFront_append (by decide), endsAs_star_iff hstar]
  exact and_iff_right (htrim.isInfix.trans h.isInfix)

/-- With one star the end was asked for before. -/
theorem accepts_anywhere_oneStar (hone : pattern.count '*' = 1)
    (h : (Shape.ofPattern pattern).accepts path = true) :
    (Shape.ofPattern ("**/".toList ++ pattern)).accepts path = true := by
  have hpair : ¬ ['*', '*'] <:+: pattern := noPair_of_count hone.le
  have hmem : '*' ∈ pattern := List.count_pos_iff.mp (by omega)
  obtain ⟨before, after, rfl, hbefore, hafter⟩ := exists_eq_append_star hmem hone.le
  rw [accepts_anywhere_star hbefore hpair (prefix_of_accepts hbefore hpair h)]
  rw [ofPattern_star hbefore hafter, Shape.accepts, Bool.and_eq_true,
    List.isSuffixOf_iff_suffix] at h
  exact h.2

/-- A pattern with a pair of stars becomes a plain start, unless it ends in a slash and a pair. -/
theorem ofPattern_anywhere_pair (hpair : ['*', '*'] <:+: pattern) (hne : pattern ≠ ['*', '*'])
    (hback : ¬ "/**".toList <:+ pattern) :
    Shape.ofPattern ("**/".toList ++ pattern) = .leading ("**/".toList ++ pattern) := by
  refine ofPattern_pairs (by decide) hpair fun hends => ?_
  -- the slash that is put before the pattern may be the one at its end, if it is the pair alone
  have hend : "/**".toList <:+ '*' :: '*' :: '/' :: pattern := hends.2
  rw [List.suffix_cons_iff, List.suffix_cons_iff, List.suffix_cons_iff] at hend
  rcases hend with hend | hend | hend | hend
  · cases hend
  · cases hend
  · exact hne (List.cons.inj hend).2.symm
  · exact hback hend

/-- A pattern for what lies below something becomes one for it at any depth. -/
theorem ofPattern_anywhere_below (dir : List Char) :
    Shape.ofPattern ("**/".toList ++ (dir ++ "/**".toList)) =
      .within (trimBack "/**".toList (trimFront "**/".toList (dir ++ "/**".toList))) := by
  rw [ofPattern_of_ends (List.prefix_append _ _)
    ((List.suffix_append dir _).trans (List.suffix_append _ _)), trimFront_token_append (by decide)]

/-- A path that begins with what a pattern for a directory is for, and a slash, stays named. -/
theorem accepts_anywhere_below (hfront : ¬ "**/".toList <+: dir ++ "/**".toList)
    (h : dir ++ ['/'] <+: path) :
    (Shape.ofPattern ("**/".toList ++ (dir ++ "/**".toList))).accepts path = true := by
  have htrim : trimBack "/**".toList dir ++ ['/'] <+: dir ++ ['/'] := by
    rcases trimBack_eq_or "/**".toList dir with heq | ⟨back, hdir⟩
    · exact heq.symm ▸ List.prefix_refl _
    · refine List.IsPrefix.trans ⟨['*', '*'] ++ back, ?_⟩ (List.prefix_append dir ['/'])
      rw [List.append_assoc]
      exact hdir.symm
  rw [ofPattern_anywhere_below, trimFront_eq_self hfront, trimBack_append_token (by decide),
    Shape.accepts, Bool.or_eq_true, List.isPrefixOf_iff_prefix]
  exact Or.inr (htrim.trans h)

/-- A path that a pattern for what lies below something names, as a plain start or properly, stays
named. -/
theorem accepts_anywhere_of_below
    (h : (Shape.ofPattern (dir ++ "/**".toList)).accepts path = true)
    (hdir : ['*', '*'] <:+: dir ∨ dir ++ ['/'] <+: path) :
    (Shape.ofPattern ("**/".toList ++ (dir ++ "/**".toList))).accepts path = true := by
  by_cases hfront : "**/".toList <+: dir ++ "/**".toList
  · -- the pattern is for any depth already, and nothing changes
    rw [ofPattern_anywhere_below]
    rwa [ofPattern_of_ends hfront (List.suffix_append _ _)] at h
  · refine accepts_anywhere_below hfront (hdir.elim (fun hpair => ?_) id)
    rw [ofPattern_pairs hpair (by decide) fun hends => hfront hends.1, Shape.accepts,
      List.isPrefixOf_iff_prefix] at h
    exact List.IsPrefix.trans ⟨['*', '*'], List.append_assoc _ _ _⟩ h

/-! ## What is kept -/

/-- Whether a path stays named when the pattern that names it is put behind a pair of stars and a
slash, by the kind of the pattern. -/
structure Keeps (pattern path : List Char) (named : Prop) : Prop where
  /-- With one star, it does. -/
  oneStar : pattern.count '*' = 1 → named
  /-- With a slash and a pair of stars at the end it does if there is a further pair, or if the path
  goes on behind the slash. -/
  below : ∀ dir, pattern = dir ++ "/**".toList →
    ['*', '*'] <:+: dir ∨ dir ++ ['/'] <+: path → named
  /-- Without stars the pattern was a start, and becomes an end. -/
  plain : '*' ∉ pattern → (named ↔ pattern.dropWhile (· == '/') <:+ path)
  /-- With single stars, what stands behind the first becomes an end. -/
  stars : ∀ before after, pattern = before ++ '*' :: after → '*' ∉ before →
    ¬ ['*', '*'] <:+: pattern → (named ↔ after <:+ path)
  /-- With a pair of stars elsewhere, all of the pattern becomes a plain start. -/
  pairs : ['*', '*'] <:+: pattern → pattern ≠ ['*', '*'] → ¬ "/**".toList <:+ pattern →
    (named ↔ "**/".toList ++ pattern <+: path)

/-- **What a pair of stars before a pattern keeps** of the paths that the pattern names. With one
star in the pattern it keeps them all, and for what lies below a directory it keeps what does. Of
the paths that a plain start names it keeps those that end as the pattern does, and with single
stars those that end as the pattern does behind the first of them. With a pair of stars elsewhere it
keeps a path only if that begins with the text of the new pattern. -/
theorem accepts_anywhere {pattern path : String} (h : (Glob.mk pattern).accepts path = true) :
    Keeps pattern.toList path.toList ((Glob.mk ("**/" ++ pattern)).accepts path = true) := by
  have htext : ("**/" ++ pattern).toList = "**/".toList ++ pattern.toList := String.toList_append
  rw [accepts] at h
  rw [accepts, htext]
  refine ⟨fun hone => accepts_anywhere_oneStar hone h, ?_, accepts_anywhere_plain, ?_,
    fun hpair hne hback => ?_⟩
  · rintro dir hpattern hdir
    rw [hpattern] at h ⊢
    exact accepts_anywhere_of_below h hdir
  · rintro before after hpattern hbefore hpair
    rw [hpattern] at h hpair ⊢
    exact accepts_anywhere_star hbefore hpair (prefix_of_accepts hbefore hpair h)
  · rw [ofPattern_anywhere_pair hpair hne hback, Shape.accepts, List.isPrefixOf_iff_prefix]

/-- What lies below a directory of two names. -/
theorem accepts_anywhere_nested :
    let pattern := "src/gen/**"
    let path := "src/gen/Api.cs"
    (Glob.mk pattern).accepts path = true ∧
      Keeps pattern.toList path.toList ((Glob.mk ("**/" ++ pattern)).accepts path = true) := by
  intro pattern path
  have hdir : IsDirectory "src/gen" := ⟨by decide, by decide, by decide⟩
  have hnamed : (Glob.mk pattern).accepts path = true :=
    (accepts_below_iff hdir path).mpr (by decide)
  exact ⟨hnamed, accepts_anywhere hnamed⟩

/-- A start for all that lies in a directory, put behind a pair of stars, asks for paths that end
with the directory. -/
theorem accepts_anywhere_loses :
    (Glob.mk "generated/").accepts "generated/Client.cs" = true ∧
      (Glob.mk ("**/" ++ "generated/")).accepts "generated/Client.cs" = false := by
  refine ⟨by decide, ?_⟩
  have htext : ("**/" ++ "generated/").toList = "**/".toList ++ "generated/".toList :=
    String.toList_append
  rw [accepts, htext, Bool.eq_false_iff, ne_eq, accepts_anywhere_plain (by decide)]
  decide

end SuffixLint.Glob
