import SuffixLint.Path
/-!
# Paths that go on

A path that goes on from another is a text put behind a text, with one slash between them. What is
said here of such a path is that it has the components of the path it goes on from and then one for
each further name (`components_join`). A slash splits a text wherever it stands
(`splitSlashes_append`), so the one thing to look at is the end of the first path, which may have a
slash of its own already.

A name has an extension when a dot stands behind its first character (`extensionOfName?_eq_some`).
-/

namespace SuffixLint

/-- A text that may be the name of a file or a directory. -/
structure IsName (name : String) : Prop where
  ne_empty : name ≠ ""
  noSlash : '/' ∉ name.toList
  notHere : name ≠ "."
  notUp : name ≠ ".."

instance (name : String) : Decidable (IsName name) :=
  decidable_of_iff (name ≠ "" ∧ '/' ∉ name.toList ∧ name ≠ "." ∧ name ≠ "..")
    ⟨fun ⟨hempty, hslash, hhere, hup⟩ => ⟨hempty, hslash, hhere, hup⟩,
      fun h => ⟨h.ne_empty, h.noSlash, h.notHere, h.notUp⟩⟩

namespace Path

/-! ## Pieces between slashes -/

theorem splitSlashes_ne_nil (cs : List Char) : splitSlashes cs ≠ [] := by
  unfold splitSlashes
  split
  · exact List.cons_ne_nil _ _
  · exact List.cons_ne_nil _ _
  · split
    · exact List.cons_ne_nil _ _
    · exact List.cons_ne_nil _ _

/-- A character that is no slash belongs to the first piece. -/
theorem splitSlashes_cons {c : Char} (hc : c ≠ '/') {cs piece : List Char}
    {pieces : List (List Char)} (h : splitSlashes cs = piece :: pieces) :
    splitSlashes (c :: cs) = (c :: piece) :: pieces := by
  rw [splitSlashes.eq_3 c cs hc, h]

/-- A slash splits a text, whatever stands before and behind it. -/
theorem splitSlashes_append (cs ds : List Char) :
    splitSlashes (cs ++ '/' :: ds) = splitSlashes cs ++ splitSlashes ds := by
  induction cs with
  | nil => rfl
  | cons c cs ih =>
    rw [List.cons_append]
    by_cases hc : c = '/'
    · subst hc
      rw [splitSlashes, splitSlashes, ih, List.cons_append]
    · obtain ⟨piece, pieces, hpieces⟩ := List.exists_cons_of_ne_nil (splitSlashes_ne_nil cs)
      rw [hpieces, List.cons_append] at ih
      rw [splitSlashes_cons hc ih, splitSlashes_cons hc hpieces, List.cons_append]

theorem splitSlashes_of_not_mem {cs : List Char} (h : '/' ∉ cs) : splitSlashes cs = [cs] := by
  induction cs with
  | nil => rfl
  | cons c cs ih =>
    rw [List.mem_cons, not_or] at h
    obtain ⟨hc, hcs⟩ := h
    exact splitSlashes_cons (Ne.symm hc) (ih hcs)

/-- The pieces of a text are those at which the standard library splits it. -/
theorem splitSlashes_eq_splitOn (cs : List Char) : splitSlashes cs = cs.splitOn '/' := by
  induction cs with
  | nil => rfl
  | cons c cs ih =>
    by_cases hc : c = '/'
    · subst hc
      rw [splitSlashes, ih, ← List.nil_append ('/' :: cs), List.splitOn_append_cons_self,
        List.splitOn_nil, List.singleton_append]
    · obtain ⟨piece, pieces, hpieces⟩ := List.exists_cons_of_ne_nil (splitSlashes_ne_nil cs)
      rw [splitSlashes_cons hc hpieces, List.splitOn_cons_eq_if_modifyHead, if_neg, ← ih, hpieces,
        List.modifyHead_cons]
      exact fun hslash => hc (beq_iff_eq.mp hslash)

/-- A text is its pieces with a slash between each two. -/
theorem intercalate_splitSlashes (cs : List Char) : ['/'].intercalate (splitSlashes cs) = cs := by
  rw [splitSlashes_eq_splitOn]
  exact List.intercalate_splitOn '/'

/-- A text is known from its pieces. -/
theorem splitSlashes_injective : Function.Injective splitSlashes :=
  Function.LeftInverse.injective intercalate_splitSlashes

/-- Where the pieces of a text are parted, a slash of the text stands. -/
theorem exists_of_splitSlashes_eq_append {cs : List Char} {ps qs : List (List Char)}
    (h : splitSlashes cs = ps ++ qs) (hps : ps ≠ []) (hqs : qs ≠ []) :
    ∃ front back, cs = front ++ '/' :: back ∧ splitSlashes front = ps ∧
      splitSlashes back = qs := by
  obtain ⟨p, ps, rfl⟩ := List.exists_cons_of_ne_nil hps
  induction cs generalizing p ps with
  | nil =>
    have hnil : [] = ps ++ qs := (List.cons.inj h).2
    exact absurd (List.append_eq_nil_iff.mp hnil.symm).2 hqs
  | cons c cs ih =>
    obtain ⟨piece, pieces, hpieces⟩ := List.exists_cons_of_ne_nil (splitSlashes_ne_nil cs)
    by_cases hc : c = '/'
    · subst hc
      rw [splitSlashes] at h
      obtain ⟨rfl, hcs⟩ := List.cons.inj h
      cases ps with
      | nil => exact ⟨[], cs, rfl, rfl, hcs⟩
      | cons p ps =>
        obtain ⟨front, back, rfl, hfront, hback⟩ := ih p ps hcs (List.cons_ne_nil p ps)
        exact ⟨'/' :: front, back, rfl, by rw [splitSlashes, hfront], hback⟩
    · rw [splitSlashes_cons hc hpieces] at h
      obtain ⟨rfl, hrest⟩ := List.cons.inj h
      have hcs : splitSlashes cs = piece :: ps ++ qs := hpieces.trans (congrArg _ hrest)
      obtain ⟨front, back, rfl, hfront, hback⟩ := ih piece ps hcs (List.cons_ne_nil piece ps)
      exact ⟨c :: front, back, rfl, splitSlashes_cons hc hfront, hback⟩

/-- Names that are joined by slashes come apart at them. -/
theorem splitSlashes_intercalate {names : List String} (hne : names ≠ [])
    (h : ∀ n ∈ names, IsName n) :
    splitSlashes (String.intercalate "/" names).toList = names.map String.toList := by
  induction names with
  | nil => exact absurd rfl hne
  | cons name names ih =>
    have hname := splitSlashes_of_not_mem (h name List.mem_cons_self).noSlash
    cases names with
    | nil =>
      rw [String.intercalate_singleton]
      exact hname
    | cons next names =>
      have hrest := ih (List.cons_ne_nil next names) fun n hn => h n (List.mem_cons_of_mem name hn)
      have htext : (String.intercalate "/" (name :: next :: names)).toList =
          name.toList ++ '/' :: (String.intercalate "/" (next :: names)).toList := by
        rw [String.intercalate_cons_of_ne_nil (List.cons_ne_nil next names), String.toList_append,
          String.toList_append, List.append_assoc]
        rfl
      rw [htext, splitSlashes_append, hname, hrest]
      rfl

/-- A text that has a piece has its first one at its front. -/
theorem splitSlashes_eq_nil_singleton {cs : List Char} (h : splitSlashes cs = [[]]) : cs = [] := by
  cases cs with
  | nil => rfl
  | cons c cs =>
    obtain ⟨piece, pieces, hpieces⟩ := List.exists_cons_of_ne_nil (splitSlashes_ne_nil cs)
    by_cases hc : c = '/'
    · subst hc
      rw [splitSlashes, hpieces] at h
      cases h
    · rw [splitSlashes_cons hc hpieces] at h
      cases h

/-! ## Components -/

/-- A piece that is a name is the step to the entry of that name. -/
theorem ofPiece?_of_isName {name : String} (h : IsName name) :
    Component.ofPiece? name.toList = some (.entry name) := by
  have hempty : name.toList ≠ [] := fun hnil => h.ne_empty (String.toList_eq_nil_iff.mp hnil)
  have hhere : name.toList ≠ ['.'] := fun hdot =>
    h.notHere (String.toList_injective (by rw [hdot]; rfl))
  have hup : name.toList ≠ ['.', '.'] := fun hdots =>
    h.notUp (String.toList_injective (by rw [hdots]; rfl))
  rw [Component.ofPiece?, if_neg (not_or.mpr ⟨hempty, hhere⟩), if_neg hup, String.ofList_toList]

theorem filterMap_ofPiece? {names : List String} (h : ∀ n ∈ names, IsName n) :
    (names.map String.toList).filterMap Component.ofPiece? = names.map .entry := by
  induction names with
  | nil => rfl
  | cons name names ih =>
    rw [List.map_cons, List.filterMap_cons_some (ofPiece?_of_isName (h name List.mem_cons_self)),
      ih fun n hn => h n (List.mem_cons_of_mem name hn), List.map_cons]

/-- The components of a path by its pieces. -/
def ofPieces (pieces : List (List Char)) : List Component :=
  let steps := pieces.filterMap Component.ofPiece?
  match pieces with
  | [] :: _ :: _ => .root :: steps
  | ['.'] :: _ => .here :: steps
  | _ => steps

theorem components_eq_ofPieces (p : Path) :
    p.components = ofPieces (splitSlashes p.text.toList) :=
  rfl

/-- What comes before the steps of a path, by its first piece and by whether there are others. -/
theorem ofPieces_cons (first : List Char) (others : List (List Char)) :
    ofPieces (first :: others) =
      (if first = [] ∧ others ≠ [] then [.root] else if first = ['.'] then [.here] else []) ++
        (first :: others).filterMap Component.ofPiece? := by
  unfold ofPieces
  split
  · rename_i next behind hpieces
    obtain ⟨rfl, rfl⟩ := List.cons.inj hpieces
    rw [if_pos ⟨rfl, List.cons_ne_nil next behind⟩]
    rfl
  · rename_i behind hpieces
    obtain ⟨rfl, rfl⟩ := List.cons.inj hpieces
    rfl
  · rename_i hroot hhere
    have hfirst : ¬(first = [] ∧ others ≠ []) := by
      rintro ⟨rfl, hothers⟩
      obtain ⟨next, behind, rfl⟩ := List.exists_cons_of_ne_nil hothers
      exact hroot next behind rfl
    have hdot : ¬first = ['.'] := by
      rintro rfl
      exact hhere others rfl
    rw [if_neg hfirst, if_neg hdot, List.nil_append]

/-- Further pieces are further components: the first piece alone says where a path starts, unless
it is empty and the only one. -/
theorem ofPieces_append {pieces : List (List Char)} (h : pieces ≠ [[]]) (hne : pieces ≠ [])
    (more : List (List Char)) :
    ofPieces (pieces ++ more) = ofPieces pieces ++ more.filterMap Component.ofPiece? := by
  obtain ⟨first, others, rfl⟩ := List.exists_cons_of_ne_nil hne
  have hroot : (first = [] ∧ others ++ more ≠ []) ↔ (first = [] ∧ others ≠ []) := by
    refine and_congr_right ?_
    rintro rfl
    have hothers : others ≠ [] := by
      rintro rfl
      exact h rfl
    simp only [ne_eq, List.append_eq_nil_iff, hothers, false_and, not_false_eq_true]
  simp only [List.cons_append, ofPieces_cons, hroot]
  rw [← List.cons_append, List.filterMap_append, List.append_assoc]

/-- A piece that says something says it in the components. -/
theorem mem_components {p : Path} {piece : List Char} {c : Component}
    (h : piece ∈ splitSlashes p.text.toList) (hc : Component.ofPiece? piece = some c) :
    c ∈ p.components := by
  rw [components_eq_ofPieces]
  obtain ⟨first, others, hpieces⟩ := List.exists_cons_of_ne_nil (splitSlashes_ne_nil p.text.toList)
  rw [hpieces] at h ⊢
  rw [ofPieces_cons]
  exact List.mem_append_right _ (List.mem_filterMap.mpr ⟨piece, h, hc⟩)

/-- The last piece that says something is the last component. -/
theorem getLast?_components {p : Path} {pieces : List (List Char)} {last : List Char}
    {c : Component} (h : splitSlashes p.text.toList = pieces ++ [last])
    (hc : Component.ofPiece? last = some c) : p.components.getLast? = some c := by
  have hone : [last].filterMap Component.ofPiece? = [c] := by
    rw [List.filterMap_cons_some hc, List.filterMap_nil]
  rw [components_eq_ofPieces, h]
  cases pieces with
  | nil => rw [List.nil_append, ofPieces_cons, hone, List.getLast?_concat]
  | cons first others =>
    rw [List.cons_append, ofPieces_cons, ← List.cons_append, List.filterMap_append, hone,
      ← List.append_assoc, List.getLast?_concat]

/-- An empty piece in the middle says nothing. -/
theorem ofPieces_append_nil {pieces more : List (List Char)} (hne : pieces ≠ [])
    (hmore : more ≠ []) : ofPieces (pieces ++ [[]] ++ more) = ofPieces (pieces ++ more) := by
  obtain ⟨first, others, rfl⟩ := List.exists_cons_of_ne_nil hne
  have hnil : Component.ofPiece? [] = none := rfl
  simp only [List.append_assoc, List.cons_append, List.nil_append, ofPieces_cons, ne_eq,
    List.append_eq_nil_iff, hmore, List.cons_ne_nil, and_false, not_false_eq_true,
    List.filterMap_cons, List.filterMap_append, hnil]

/-! ## Paths that are put together -/

/-- The pieces of a path that goes on are those of both, where a slash at the end of the first path
is the one that is put between them. -/
theorem splitSlashes_join {p : Path} (hp : p.text ≠ "") (name : String) :
    ∃ pieces, pieces ≠ [] ∧
      (splitSlashes p.text.toList = pieces ∨ splitSlashes p.text.toList = pieces ++ [[]]) ∧
        splitSlashes (p.join name).text.toList = pieces ++ splitSlashes name.toList := by
  unfold join
  split
  · rename_i hnone
    exact absurd (String.toList_eq_nil_iff.mp (List.getLast?_eq_none_iff.mp hnone)) hp
  · rename_i hslash
    obtain ⟨before, hbefore⟩ := List.getLast?_eq_some_iff.mp hslash
    refine ⟨splitSlashes before, splitSlashes_ne_nil before, Or.inr ?_, ?_⟩
    · rw [hbefore, splitSlashes_append]
      rfl
    · rw [String.toList_append, hbefore, List.append_assoc, List.singleton_append,
        splitSlashes_append]
  · refine ⟨splitSlashes p.text.toList, splitSlashes_ne_nil _, Or.inl rfl, ?_⟩
    rw [String.toList_append, String.toList_append, List.append_assoc]
    exact splitSlashes_append p.text.toList name.toList

/-- **A path that goes on by names has a further component for each of them.** -/
theorem components_join {p : Path} (hp : p.text ≠ "") {names : List String} (hne : names ≠ [])
    (h : ∀ n ∈ names, IsName n) :
    (p.join (String.intercalate "/" names)).components =
      p.components ++ names.map .entry := by
  obtain ⟨pieces, hpieces, hends, hjoin⟩ := splitSlashes_join hp (String.intercalate "/" names)
  rw [splitSlashes_intercalate hne h] at hjoin
  have hfirst : splitSlashes p.text.toList ≠ [[]] := fun hnil =>
    hp (String.toList_eq_nil_iff.mp (splitSlashes_eq_nil_singleton hnil))
  rw [components_eq_ofPieces, components_eq_ofPieces, hjoin, ← filterMap_ofPiece? h,
    ← ofPieces_append hfirst (splitSlashes_ne_nil _)]
  rcases hends with hends | hends
  · rw [hends]
  · have hmore : names.map String.toList ≠ [] := by rwa [ne_eq, List.map_eq_nil_iff]
    rw [hends, ofPieces_append_nil hpieces hmore]

/-- A path that goes on begins with the text of the path it goes on from. -/
theorem text_prefix_join (p : Path) (name : String) :
    p.text.toList <+: (p.join name).text.toList := by
  unfold join
  split
  · rename_i hnone
    rw [List.getLast?_eq_none_iff.mp hnone]
    exact List.nil_prefix
  · rw [String.toList_append]
    exact List.prefix_append _ _
  · rw [String.toList_append, String.toList_append, List.append_assoc]
    exact List.prefix_append _ _

/-! ## Extensions -/

/-- What follows the last dot of a name is its extension, if something stands before that dot. -/
theorem extensionOfName?_eq_some {name ext : List Char} :
    extensionOfName? name = some ext ↔
      ∃ stem, stem ≠ [] ∧ '.' ∉ ext ∧ name = stem ++ '.' :: ext := by
  rw [extensionOfName?, Option.ite_none_right_eq_some, Option.some.injEq]
  constructor
  · rintro ⟨hlength, rfl⟩
    -- seen from its end, a name is its extension, the dot, and what stands before the dot
    let isOther : Char → Bool := fun c => c ≠ '.'
    have hsplit : name.reverse.takeWhile isOther ++ name.reverse.dropWhile isOther = name.reverse :=
      List.takeWhile_append_dropWhile
    have hothers : ∀ c ∈ name.reverse.takeWhile isOther, isOther c = true :=
      List.all_eq_true.mp List.all_takeWhile
    have hdot := List.head?_dropWhile_not isOther name.reverse
    have hreverse : name.reverse.length = name.length := List.length_reverse
    rw [← hsplit, List.length_append] at hreverse
    change (name.reverse.takeWhile isOther).length + 1 < name.length at hlength
    cases hback : name.reverse.dropWhile isOther with
    | nil =>
      rw [hback, List.length_nil] at hreverse
      omega
    | cons c stem =>
      rw [hback] at hsplit hdot hreverse
      obtain rfl : c = '.' := Classical.not_not.mp (of_decide_eq_false hdot)
      refine ⟨stem.reverse, ?_, ?_, ?_⟩
      · rintro hnil
        rw [List.reverse_eq_nil_iff.mp hnil, List.length_singleton] at hreverse
        omega
      · rw [List.mem_reverse]
        intro hmem
        exact absurd (hothers '.' hmem) (by decide)
      · have hname := congrArg List.reverse hsplit
        rw [List.reverse_append, List.reverse_cons, List.append_assoc, List.singleton_append,
          List.reverse_reverse] at hname
        exact hname.symm
  · rintro ⟨stem, hstem, hext, rfl⟩
    have hback : (stem ++ '.' :: ext).reverse.takeWhile (fun c => decide (c ≠ '.')) =
        ext.reverse := by
      rw [List.reverse_append, List.reverse_cons, List.append_assoc, List.singleton_append,
        List.takeWhile_append_of_pos, List.takeWhile_cons_of_neg (by decide), List.append_nil]
      intro c hc
      rw [decide_eq_true_eq]
      rintro rfl
      exact hext (List.mem_reverse.mp hc)
    have hlength : 0 < stem.length := List.length_pos_iff.mpr hstem
    rw [hback]
    refine ⟨?_, List.reverse_reverse ext⟩
    rw [List.length_reverse, List.length_append, List.length_cons]
    omega

end Path

end SuffixLint
