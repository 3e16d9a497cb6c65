import Mathlib.Data.List.Count
import SuffixLint.Glob
import SuffixLint.Proofs.Text.Search
/-!
# The shape of a pattern

A pattern is sorted by its stars into one of four shapes, and each shape is a test on the text of a
path. Here the shape is found for patterns that are given by their parts, and each test is said by
what the path begins and ends with. From there it is plain how far a pattern minds the slashes of a
path: a pair of stars is parted from its slash, so that a pattern for what lies below a directory
asks for the text of the directory and not for the slash behind it. Such a pattern names all that
lies below the directory, and besides whatever goes on where the directory's name ends
(`accepts_iff_below_or_goesOn`).
-/

namespace SuffixLint.Glob

open Text

variable {lead tail before after path : List Char}

/-! ## Stars -/

/-- A text with one star at most holds no pair of them. -/
theorem noPair_of_count (h : tail.count '*' ≤ 1) : ¬ ['*', '*'] <:+: tail := by
  intro hpair
  have hcount := hpair.sublist.count_le '*'
  have htwo : ['*', '*'].count '*' = 2 := rfl
  omega

/-- A text that holds a star parts at the first one, and there is none behind it if there was only
one. -/
theorem exists_eq_append_star (hmem : '*' ∈ tail) (hcount : tail.count '*' ≤ 1) :
    ∃ before after, tail = before ++ '*' :: after ∧ '*' ∉ before ∧ '*' ∉ after := by
  obtain ⟨before, after, rfl, hbefore⟩ := List.eq_append_cons_of_mem hmem
  refine ⟨before, after, rfl, hbefore, ?_⟩
  rw [List.count_append, List.count_cons_self] at hcount
  exact List.count_eq_zero.mp (by omega)

/-- A pattern with stars and a slash at both ends is one for a directory at any depth. -/
theorem ofPattern_of_ends {pattern : List Char} (hfront : "**/".toList <+: pattern)
    (hback : "/**".toList <:+ pattern) :
    Shape.ofPattern pattern = .within (trimBack "/**".toList (trimFront "**/".toList pattern)) := by
  have hends : ("**/".toList.isPrefixOf pattern && "/**".toList.isSuffixOf pattern) = true := by
    rw [Bool.and_eq_true, List.isPrefixOf_iff_prefix, List.isSuffixOf_iff_suffix]
    exact ⟨hfront, hback⟩
  rw [Shape.ofPattern, if_pos hends]

/-- The shape of any other pattern is found by the place where its first pair of stars stands. -/
theorem ofPattern_of_not_ends {pattern : List Char}
    (h : ¬ ("**/".toList <+: pattern ∧ "/**".toList <:+ pattern)) :
    Shape.ofPattern pattern =
      match cut ['*', '*'] pattern with
      | some (before, after) =>
        if occurs ['*', '*'] after then .ofStar pattern
        else .spanning (trimBack ['/'] before) (trimFront ['/'] after)
      | none => .ofStar pattern := by
  have hends : ¬ ("**/".toList.isPrefixOf pattern && "/**".toList.isSuffixOf pattern) = true := by
    rwa [Bool.and_eq_true, List.isPrefixOf_iff_prefix, List.isSuffixOf_iff_suffix]
  exact if_neg hends

/-- Where no pair of stars stands, the shape is found by single stars. -/
theorem ofPattern_of_noPair {pattern : List Char} (h : ¬ ['*', '*'] <:+: pattern) :
    Shape.ofPattern pattern = .ofStar pattern := by
  -- a pair of stars at the front would be a pair of stars
  rw [ofPattern_of_not_ends fun hends =>
    h ((List.prefix_append ['*', '*'] ['/']).trans hends.1).isInfix, cut_eq_none h]

/-- With one star and no other, the star parts a start from an end. -/
theorem ofPattern_star (hbefore : '*' ∉ before) (hafter : '*' ∉ after) :
    Shape.ofPattern (before ++ '*' :: after) = .star before after := by
  have hcount : (before ++ '*' :: after).count '*' ≤ 1 := by
    rw [List.count_append, List.count_cons_self, List.count_eq_zero_of_not_mem hbefore,
      List.count_eq_zero_of_not_mem hafter]
  have hcut : cut ['*'] (before ++ '*' :: after) = some (before, after) := cut_append hbefore after
  rw [ofPattern_of_noPair (noPair_of_count hcount)]
  simp only [Shape.ofStar, hcut, List.contains_iff_mem, hafter, if_false]

/-- The only pair of stars parts the text before the first star from an end, each without the
slashes at the stars. -/
theorem ofPattern_pair_of_noPair (hlead : '*' ∉ lead) (htail : ¬ ['*', '*'] <:+: tail) :
    Shape.ofPattern (lead ++ '*' :: '*' :: tail) =
      .spanning (trimBack ['/'] lead) (trimFront ['/'] tail) := by
  have hcut : cut ['*', '*'] (lead ++ '*' :: '*' :: tail) = some (lead, tail) :=
    cut_append hlead tail
  have hpair : occurs ['*', '*'] tail = false := by
    rw [Bool.eq_false_iff, ne_eq, occurs_iff]
    exact htail
  have hends : ¬ ("**/".toList <+: lead ++ '*' :: '*' :: tail ∧
      "/**".toList <:+ lead ++ '*' :: '*' :: tail) := by
    rintro ⟨hfront, hback⟩
    -- the pattern begins with its pair of stars, so the pair at its end lies in the tail
    cases lead with
    | cons c lead =>
      have hc : '*' = c := (List.cons_prefix_cons.mp hfront).1
      exact hlead (hc ▸ List.mem_cons_self)
    | nil =>
      have hinside : "/**".toList <:+ tail := by
        rw [List.nil_append, List.suffix_cons_iff, List.suffix_cons_iff] at hback
        rcases hback with hback | hback | hback
        · cases hback
        · cases hback
        · exact hback
      exact htail ((List.suffix_cons '/' ['*', '*']).trans hinside).isInfix
  rw [ofPattern_of_not_ends hends, hcut]
  simp only [hpair, Bool.false_eq_true, if_false]

/-- A pair of stars behind a start without stars, and before one star at most, parts the start from
an end, each without the slashes at the stars. -/
theorem ofPattern_pair (hlead : '*' ∉ lead) (htail : tail.count '*' ≤ 1) :
    Shape.ofPattern (lead ++ '*' :: '*' :: tail) =
      .spanning (trimBack ['/'] lead) (trimFront ['/'] tail) :=
  ofPattern_pair_of_noPair hlead (noPair_of_count htail)

/-! ## Ends -/

theorem endsAs_iff (h : '*' ∉ tail) : endsAs tail path = true ↔ tail <:+ path := by
  have hnone : cut ['*'] tail = none :=
    cut_eq_none fun hstar => h (hstar.subset List.mem_cons_self)
  rw [endsAs, hnone]
  exact List.isSuffixOf_iff_suffix

theorem endsAs_star_iff (h : '*' ∉ before) :
    endsAs (before ++ '*' :: after) path = true ↔ before <:+: path ∧ after <:+ path := by
  have hcut : cut ['*'] (before ++ '*' :: after) = some (before, after) := cut_append h after
  rw [endsAs, hcut]
  simp only [Bool.and_eq_true, occurs_iff, List.isSuffixOf_iff_suffix]

/-! ## What lies below a directory, and files of a name -/

/-- The text of a directory in a pattern for what lies below it. -/
structure IsDirectory (dir : String) : Prop where
  nonempty : dir ≠ ""
  noStar : '*' ∉ dir.toList
  noSlash : dir.toList.getLast? ≠ some '/'

/-- The text of a file in a pattern for files of that name. -/
structure IsFile (file : String) : Prop where
  nonempty : file ≠ ""
  noStar : '*' ∉ file.toList
  noSlash : file.toList.head? ≠ some '/'

/-- A path lies below a directory. -/
def Below (dir path : String) : Prop :=
  (dir ++ "/").toList <+: path.toList

/-- A path begins with the text of a directory, but goes on with something other than a slash: it
leads to a sibling whose name is longer, or to somewhere below one. -/
def GoesOn (dir path : String) : Prop :=
  ∃ c, c ≠ '/' ∧ dir.toList ++ [c] <+: path.toList

/-- A path leads to a file of a name. -/
def EndsIn (file path : String) : Prop :=
  path = file ∨ ("/" ++ file).toList <:+ path.toList

/-- A path ends in the text of a file, but with something other than a slash before it: it leads to
a file whose name is longer. -/
def GoesBefore (file path : String) : Prop :=
  ∃ c, c ≠ '/' ∧ c :: file.toList <:+ path.toList

instance (dir path : String) : Decidable (Below dir path) :=
  inferInstanceAs (Decidable (_ <+: _))

instance (file path : String) : Decidable (EndsIn file path) :=
  inferInstanceAs (Decidable (_ ∨ _ <:+ _))

/-- A pattern for what lies below a directory asks for the text of the directory at the front, and
for nothing behind it. -/
theorem accepts_below_iff {dir : String} (h : IsDirectory dir) (path : String) :
    (Glob.mk (dir ++ "/**")).accepts path = true ↔ dir.toList <+: path.toList := by
  have htext : (dir ++ "/**").toList = (dir.toList ++ ['/']) ++ '*' :: '*' :: [] := by
    rw [String.toList_append, List.append_assoc]
    rfl
  have hstar : '*' ∉ dir.toList ++ ['/'] := by
    rw [List.mem_append, not_or]
    exact ⟨h.noStar, by decide⟩
  -- the slash is trimmed away, and no more of the text
  have htrim : trimBack ['/'] (dir.toList ++ ['/']) = dir.toList := by
    rw [trimBack_eq_rdropWhile, List.rdropWhile_concat_pos _ _ _ (by rfl),
      List.rdropWhile_eq_self_iff]
    intro hne hslash
    rw [beq_iff_eq] at hslash
    exact h.noSlash (hslash ▸ List.getLast?_eq_some_getLast hne)
  have hend : trimFront ['/'] [] = [] := trimFront_eq_dropWhile '/' []
  have hnil : endsAs [] path.toList = true := (endsAs_iff List.not_mem_nil).mpr List.nil_suffix
  rw [accepts, htext, ofPattern_pair hstar (by decide), htrim, hend, Shape.accepts, hnil,
    Bool.and_true, List.isPrefixOf_iff_prefix]

/-- A pattern for files of a name asks for the name at the end, and for nothing before it. -/
theorem accepts_endsIn_iff {file : String} (h : IsFile file) (path : String) :
    (Glob.mk ("**/" ++ file)).accepts path = true ↔ file.toList <:+ path.toList := by
  have htext : ("**/" ++ file).toList = [] ++ '*' :: '*' :: '/' :: file.toList := by
    rw [String.toList_append]
    rfl
  have hcount : ('/' :: file.toList).count '*' ≤ 1 := by
    rw [List.count_cons_of_ne (by decide), List.count_eq_zero_of_not_mem h.noStar]
    exact Nat.zero_le 1
  have hlead : trimBack ['/'] [] = [] := trimBack_eq_rdropWhile '/' []
  have htrim : trimFront ['/'] ('/' :: file.toList) = file.toList := by
    rw [trimFront_eq_dropWhile, List.dropWhile_cons_of_pos (by rfl), List.dropWhile_eq_self_iff]
    intro hpos hslash
    rw [beq_iff_eq] at hslash
    exact h.noSlash (by rw [List.head?_eq_getElem?, List.getElem?_eq_getElem hpos, hslash])
  rw [accepts, htext, ofPattern_pair List.not_mem_nil hcount, hlead, htrim, Shape.accepts,
    Bool.and_eq_true, endsAs_iff h.noStar, List.isPrefixOf_iff_prefix]
  exact and_iff_right List.nil_prefix

/-- What begins with the text of a directory is the directory, or lies below it, or goes on where
its name ends. -/
theorem prefix_iff_below_or_goesOn (dir path : String) :
    dir.toList <+: path.toList ↔ path = dir ∨ Below dir path ∨ GoesOn dir path := by
  have hslash : (dir ++ "/").toList = dir.toList ++ ['/'] := String.toList_append
  constructor
  · rintro ⟨rest, hrest⟩
    cases rest with
    | nil =>
      rw [List.append_nil] at hrest
      exact Or.inl (String.toList_inj.mp hrest.symm)
    | cons c rest =>
      have hfront : dir.toList ++ [c] <+: path.toList :=
        ⟨rest, by rw [List.append_assoc, List.singleton_append, hrest]⟩
      by_cases hc : c = '/'
      · refine Or.inr (Or.inl ?_)
        rwa [Below, hslash, ← hc]
      · exact Or.inr (Or.inr ⟨c, hc, hfront⟩)
  · rintro (rfl | hbelow | ⟨c, -, hfront⟩)
    · exact List.prefix_refl _
    · rw [Below, hslash] at hbelow
      exact (List.prefix_append _ _).trans hbelow
    · exact (List.prefix_append _ _).trans hfront

/-- What ends in the text of a file leads to a file of that name, or to one whose name goes on
before it. -/
theorem suffix_iff_endsIn_or_goesBefore (file path : String) :
    file.toList <:+ path.toList ↔ EndsIn file path ∨ GoesBefore file path := by
  have hslash : ("/" ++ file).toList = '/' :: file.toList := String.toList_append
  constructor
  · rintro ⟨front, hfront⟩
    cases front using List.reverseRecOn with
    | nil => exact Or.inl (Or.inl (String.toList_inj.mp hfront.symm))
    | append_singleton front c =>
      have hback : c :: file.toList <:+ path.toList :=
        ⟨front, by rw [← hfront, List.append_assoc, List.singleton_append]⟩
      by_cases hc : c = '/'
      · refine Or.inl (Or.inr ?_)
        rwa [hslash, ← hc]
      · exact Or.inr ⟨c, hc, hback⟩
  · rintro ((rfl | hends) | ⟨c, -, hback⟩)
    · exact List.suffix_refl _
    · rw [hslash] at hends
      exact (List.suffix_cons _ _).trans hends
    · exact (List.suffix_cons _ _).trans hback

/-- **How far a pattern minds slashes.** A pattern for what lies below a directory names all of
that, and besides the directory itself and every path that goes on where the name of the directory
ends. A pattern for files of a name names all of those, and besides every path whose last name goes
on before that name. -/
theorem accepts_iff_below_or_goesOn {dir file : String} (hdir : IsDirectory dir)
    (hfile : IsFile file) (path : String) :
    ((Glob.mk (dir ++ "/**")).accepts path = true ↔
        path = dir ∨ Below dir path ∨ GoesOn dir path) ∧
      ((Glob.mk ("**/" ++ file)).accepts path = true ↔
        EndsIn file path ∨ GoesBefore file path) := by
  rw [accepts_below_iff hdir, accepts_endsIn_iff hfile, prefix_iff_below_or_goesOn,
    suffix_iff_endsIn_or_goesBefore]
  exact ⟨Iff.rfl, Iff.rfl⟩

/-- A directory of two names, and a file in it. -/
theorem accepts_iff_below_or_goesOn_nested :
    let dir := "src/gen"
    let file := "Api.cs"
    let path := "src/gen/Api.cs"
    IsDirectory dir ∧ IsFile file ∧
      ((Glob.mk (dir ++ "/**")).accepts path = true ↔
        path = dir ∨ Below dir path ∨ GoesOn dir path) ∧
      ((Glob.mk ("**/" ++ file)).accepts path = true ↔
        EndsIn file path ∨ GoesBefore file path) := by
  intro dir file path
  have hdir : IsDirectory dir := ⟨by decide, by decide, by decide⟩
  have hfile : IsFile file := ⟨by decide, by decide, by decide⟩
  exact ⟨hdir, hfile, accepts_iff_below_or_goesOn hdir hfile path⟩

/-- Patterns for what lies below `src` and for files of the name `Api.cs` name a file in a sibling
of that directory, and a file whose name is longer. -/
theorem accepts_siblings :
    IsDirectory "src" ∧ (Glob.mk ("src" ++ "/**")).accepts "src2/Api.cs" = true ∧
        ¬ Below "src" "src2/Api.cs" ∧
      IsFile "Api.cs" ∧ (Glob.mk ("**/" ++ "Api.cs")).accepts "src/MyApi.cs" = true ∧
        ¬ EndsIn "Api.cs" "src/MyApi.cs" := by
  have hdir : IsDirectory "src" := ⟨by decide, by decide, by decide⟩
  have hfile : IsFile "Api.cs" := ⟨by decide, by decide, by decide⟩
  refine ⟨hdir, (accepts_below_iff hdir _).mpr (by decide), by decide, hfile,
    (accepts_endsIn_iff hfile _).mpr (by decide), by decide⟩

end SuffixLint.Glob
