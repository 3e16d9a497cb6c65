import SuffixLint.Proofs.Glob.Shape
import SuffixLint.Proofs.Path
/-!
# Patterns and the segments of a path

The segments of a path are the texts between its slashes, empty ones too. A pattern for a directory
at any depth is a search for a text between slashes, and what it finds is a run of segments before
the last one, whatever slashes the directory itself has (`accepts_within_iff_segments`).

One star is meant for a part of one segment. The test behind it looks at the start and at the end of
the path, each on its own. So the star also stands for a run of characters with slashes, and where
start and end share characters it stands for less than nothing; these are the only ways in which a
path is named that should not be (`accepts_star_iff_inSegment_or`).
-/

namespace SuffixLint.Glob

open Text

/-! ## A directory at any depth -/

/-- The segments of a text are a run of the segments of a path before its last one just if the text
stands in the path with a slash at each side, or with a slash behind it at the front. -/
theorem splitSlashes_infix_iff (dir path : List Char) :
    Path.splitSlashes dir <:+: (Path.splitSlashes path).dropLast ↔
      '/' :: dir ++ ['/'] <:+: path ∨ dir ++ ['/'] <+: path := by
  have hdir : Path.splitSlashes dir ≠ [] := Path.splitSlashes_ne_nil dir
  have hpath : Path.splitSlashes path ≠ [] := Path.splitSlashes_ne_nil path
  constructor
  · rintro ⟨ps, qs, hrun⟩
    have hsegments : Path.splitSlashes path =
        (ps ++ Path.splitSlashes dir) ++ (qs ++ [(Path.splitSlashes path).getLast hpath]) := by
      rw [← List.append_assoc, hrun, List.dropLast_append_getLast hpath]
    -- the segments of the directory end at a slash, since at least the last segment is behind them
    obtain ⟨front, back, rfl, hfront, -⟩ := Path.exists_of_splitSlashes_eq_append hsegments
      (List.append_ne_nil_of_right_ne_nil ps hdir) (List.concat_ne_nil _ qs)
    by_cases hps : ps = []
    · rw [hps, List.nil_append] at hfront
      obtain rfl := Path.splitSlashes_injective hfront
      exact Or.inr ⟨back, by rw [List.append_assoc, List.singleton_append]⟩
    · obtain ⟨before, behind, rfl, -, hbehind⟩ :=
        Path.exists_of_splitSlashes_eq_append hfront hps hdir
      obtain rfl := Path.splitSlashes_injective hbehind
      refine Or.inl ⟨before, back, ?_⟩
      simp only [List.append_assoc, List.cons_append, List.nil_append]
  · rintro (⟨front, back, rfl⟩ | ⟨back, rfl⟩)
    · refine ⟨Path.splitSlashes front, (Path.splitSlashes back).dropLast, ?_⟩
      have hpath : front ++ ('/' :: dir ++ ['/']) ++ back =
          front ++ '/' :: (dir ++ '/' :: back) := by
        simp only [List.append_assoc, List.cons_append, List.nil_append]
      rw [hpath, Path.splitSlashes_append, Path.splitSlashes_append, ← List.append_assoc,
        List.dropLast_append_of_ne_nil (Path.splitSlashes_ne_nil back)]
    · refine ⟨[], (Path.splitSlashes back).dropLast, ?_⟩
      rw [List.append_assoc dir, List.singleton_append, Path.splitSlashes_append,
        List.dropLast_append_of_ne_nil (Path.splitSlashes_ne_nil back), List.nil_append]

/-- The shape of a pattern for a directory at any depth. -/
theorem ofPattern_within {dir : List Char} (hne : dir ≠ []) (hstar : '*' ∉ dir) :
    Shape.ofPattern ("**/".toList ++ dir ++ "/**".toList) = .within dir := by
  -- no more is trimmed, since the directory neither begins nor ends in a star
  have hfront : ¬ "**/".toList <+: dir ++ "/**".toList := by
    obtain ⟨c, dir, rfl⟩ := List.exists_cons_of_ne_nil hne
    intro h
    have hc : '*' = c := (List.cons_prefix_cons.mp h).1
    exact hstar (hc ▸ List.mem_cons_self)
  have hback : ¬ "/**".toList <:+ dir := fun h => hstar (h.subset (by decide))
  rw [List.append_assoc, ofPattern_of_ends (List.prefix_append _ _)
    ((List.suffix_append dir _).trans (List.suffix_append _ _)), trimFront_token_append (by decide),
    trimFront_eq_self hfront, trimBack_append_token (by decide), trimBack_eq_self hback]

/-- **A pattern for a directory at any depth names the paths that lead through it**: those with the
segments of the directory in a row before their last segment. -/
theorem accepts_within_iff_segments {dir : String} (hne : dir ≠ "") (hstar : '*' ∉ dir.toList)
    (path : String) :
    (Glob.mk ("**/" ++ dir ++ "/**")).accepts path = true ↔
      Path.splitSlashes dir.toList <:+: (Path.splitSlashes path.toList).dropLast := by
  have hdir : dir.toList ≠ [] := fun hnil => hne (String.toList_eq_nil_iff.mp hnil)
  rw [accepts, String.toList_append, String.toList_append, ofPattern_within hdir hstar,
    Shape.accepts, Bool.or_eq_true, occurs_iff, List.isPrefixOf_iff_prefix, splitSlashes_infix_iff]

/-- A directory of three segments, one of them empty. -/
theorem accepts_within_iff_segments_empty :
    let dir := "gen//api"
    let path := "src/gen//api/Client.cs"
    dir ≠ "" ∧ '*' ∉ dir.toList ∧ ((Glob.mk ("**/" ++ dir ++ "/**")).accepts path = true ↔
      Path.splitSlashes dir.toList <:+: (Path.splitSlashes path.toList).dropLast) := by
  intro dir path
  have hne : dir ≠ "" := by decide
  have hstar : '*' ∉ dir.toList := by decide
  exact ⟨hne, hstar, accepts_within_iff_segments hne hstar path⟩

/-! ## One star -/

/-- A path is the start and the end of a pattern with a part of one segment between them. -/
def InSegment (before after path : String) : Prop :=
  ∃ run, '/' ∉ run ∧ path.toList = before.toList ++ run ++ after.toList

/-- A path is the start and the end of a pattern with a slash between them, and so a part of more
segments than one. -/
def OverSegments (before after path : String) : Prop :=
  ∃ run, '/' ∈ run ∧ path.toList = before.toList ++ run ++ after.toList

/-- A path is the start and the end of a pattern with characters that belong to both. -/
def Overlaps (before after path : String) : Prop :=
  ∃ front shared back, shared ≠ [] ∧ before.toList = front ++ shared ∧
    after.toList = shared ++ back ∧ path.toList = front ++ shared ++ back

/-- A path has a start and an end just if it is the two with something between them, or the two with
characters in common. -/
theorem prefix_and_suffix_iff (before after path : String) :
    before.toList <+: path.toList ∧ after.toList <:+ path.toList ↔
      InSegment before after path ∨ OverSegments before after path ∨
        Overlaps before after path := by
  have hbetween : ∀ run, path.toList = before.toList ++ run ++ after.toList →
      before.toList <+: path.toList ∧ after.toList <:+ path.toList := by
    rintro run hpath
    rw [hpath]
    exact ⟨⟨_, (List.append_assoc _ _ _).symm⟩, List.suffix_append _ _⟩
  constructor
  · rintro ⟨⟨rest, hrest⟩, ⟨front, hfront⟩⟩
    rcases List.append_eq_append_iff.mp (hfront.trans hrest.symm) with
      ⟨shared, hbefore, hafter⟩ | ⟨run, hrun, hend⟩
    · by_cases hshared : shared = []
      · refine Or.inl ⟨[], List.not_mem_nil, ?_⟩
        rw [hshared, List.append_nil] at hbefore
        rw [hbefore, List.append_nil, hfront]
      · refine Or.inr (Or.inr ⟨front, shared, rest, hshared, hbefore, hafter, ?_⟩)
        rw [List.append_assoc, ← hafter, hfront]
    · have hpath : path.toList = before.toList ++ run ++ after.toList := by rw [← hrun, hfront]
      by_cases hslash : '/' ∈ run
      · exact Or.inr (Or.inl ⟨run, hslash, hpath⟩)
      · exact Or.inl ⟨run, hslash, hpath⟩
  · rintro (⟨run, -, hpath⟩ | ⟨run, -, hpath⟩ | ⟨front, shared, back, -, hbefore, hafter, hpath⟩)
    · exact hbetween run hpath
    · exact hbetween run hpath
    · rw [hpath, hbefore, hafter]
      exact ⟨List.prefix_append _ _, ⟨front, (List.append_assoc _ _ _).symm⟩⟩

/-- **How far a star goes.** A pattern with one star names the paths in which the star is a part of
one segment, and besides those in which it is a part of several and those in which the start and the
end of the pattern overlap. -/
theorem accepts_star_iff_inSegment_or {before after : String} (hbefore : '*' ∉ before.toList)
    (hafter : '*' ∉ after.toList) (path : String) :
    (Glob.mk (before ++ "*" ++ after)).accepts path = true ↔
      InSegment before after path ∨ OverSegments before after path ∨
        Overlaps before after path := by
  have htext : (before ++ "*" ++ after).toList = before.toList ++ '*' :: after.toList := by
    rw [String.toList_append, String.toList_append, List.append_assoc]
    rfl
  rw [accepts, htext, ofPattern_star hbefore hafter, Shape.accepts, Bool.and_eq_true,
    List.isPrefixOf_iff_prefix, List.isSuffixOf_iff_suffix, prefix_and_suffix_iff]

/-- A star for the name of a file, in a directory of its own. -/
theorem accepts_star_iff_inSegment_or_designer :
    let before := "src/"
    let after := ".Designer.cs"
    let path := "src/Form1.Designer.cs"
    '*' ∉ before.toList ∧ '*' ∉ after.toList ∧
      ((Glob.mk (before ++ "*" ++ after)).accepts path = true ↔
        InSegment before after path ∨ OverSegments before after path ∨
          Overlaps before after path) := by
  intro before after path
  have hbefore : '*' ∉ before.toList := by decide
  have hafter : '*' ∉ after.toList := by decide
  exact ⟨hbefore, hafter, accepts_star_iff_inSegment_or hbefore hafter path⟩

/-- The star in a pattern for files of one directory runs on into directories below, and a pattern
with a star for one directory names a path that has none in its place. -/
theorem accepts_beyond_segment :
    (Glob.mk ("" ++ "*" ++ ".cs")).accepts "src/Api.cs" = true ∧
        ¬ InSegment "" ".cs" "src/Api.cs" ∧
      (Glob.mk ("src/" ++ "*" ++ "/Api.cs")).accepts "src/Api.cs" = true ∧
        ¬ InSegment "src/" "/Api.cs" "src/Api.cs" := by
  refine ⟨by decide, ?_, by decide, ?_⟩
  · rintro ⟨run, hslash, hpath⟩
    have hrun : run = "src/Api".toList := List.append_cancel_right (hpath.symm.trans (by decide))
    exact hslash (hrun ▸ by decide)
  · rintro ⟨run, -, hpath⟩
    have hlength := congrArg List.length hpath
    rw [List.length_append, List.length_append] at hlength
    have hbefore : "src/".toList.length = 4 := by decide
    have hafter : "/Api.cs".toList.length = 7 := by decide
    have hwhole : "src/Api.cs".toList.length = 10 := by decide
    omega

end SuffixLint.Glob
