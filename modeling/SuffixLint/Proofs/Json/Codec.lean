import SuffixLint.Json.Codec
import SuffixLint.Proofs.Json.Structure
/-!
# Codecs that restore what they encode

A codec restores a value when the value comes back both ways: from the document that the codec makes
of it, and from the text of that document in any layout. Codecs that are put together restore a
value when their parts restore its parts; the lemmas follow the operations that put them together.
-/

namespace SuffixLint

open Json Lexeme Text

/-- A codec gives a value back, from its document and from every text of its document. -/
structure Codec.Restores {α : Type} (c : Codec α) (x : α) : Prop where
  decode : ∀ s, c.decode s (c.encode x) = some x
  read : ReadsBack c.read x (c.encode x)

namespace Codec

variable {α β : Type} {c : Codec α}

/-! ## Whole texts -/

/-- A whole text may end in spaces. -/
theorem Restores.parse_render_spaces {x : α} (h : c.Restores x) (l : Layout) (level : Nat)
    {sp : List Char} (hsp : Spaces sp) :
    c.parse (l.render level (c.encode x) ++ sp) = .ok x := by
  have hends : EndsNumber sp := by
    rw [← List.append_nil sp]
    exact Layout.endsNumber_append hsp endsNumber_nil
  have hread := h.read l level [] sp spaces_nil hends
  rw [List.nil_append] at hread
  obtain ⟨r, hr, hval⟩ := hread
  have hend : atEnd sp = true := List.all_eq_true.mpr hsp
  rw [parse, hr]
  simp only [hval, hend, if_true]

theorem Restores.parse_render {x : α} (h : c.Restores x) (l : Layout) (level : Nat) :
    c.parse (l.render level (c.encode x)) = .ok x := by
  have hparse := h.parse_render_spaces l level spaces_nil
  rwa [List.append_nil] at hparse

theorem Restores.parse_write {x : α} (h : c.Restores x) : c.parse (c.encode x).write = .ok x := by
  rw [write_eq_render 0]
  exact h.parse_render .compact 0

theorem Restores.parse_pretty {x : α} (h : c.Restores x) (level : Nat) :
    c.parse ((c.encode x).pretty level) = .ok x := by
  rw [pretty_eq_render]
  exact h.parse_render .lines level

/-! ## Simple values -/

/-- A codec that is carried over restores what stands for a value that the codec restores. -/
theorem restores_imap {f : α → β} {g : β → α} {y : β} (h : c.Restores (g y)) (hfg : f (g y) = y) :
    (c.imap f g).Restores y where
  decode s := by
    change (c.decode s (c.encode (g y))).map f = some y
    rw [h.decode, Option.map_some, hfg]
  read l level sp rest hsp hrest := by
    obtain ⟨r, hr, hval⟩ := h.read l level sp rest hsp hrest
    refine ⟨r, ?_, hval⟩
    change (c.read (sp ++ (l.render level (c.encode (g y)) ++ rest))).map _ = _
    rw [hr]
    exact congrArg (fun z => Except.ok (z, r)) hfg

theorem restores_stringAs (wanted s : String) : (stringAs wanted).Restores s where
  decode _ := rfl
  read l level sp rest hsp _ := by
    change Reads _ (sp ++ (writeString s ++ rest)) s rest
    rw [writeString_append]
    refine reads_behind (by decide) (reads_string s rest) (fun text r r' hr hr' => ?_) hsp
    rw [stringAs]
    simp only [hr, if_true, hr']
    rfl

theorem restores_bool (b : Bool) : bool.Restores b where
  decode _ := rfl
  read l level sp rest hsp _ := by
    cases b with
    | true =>
      refine reads_of_word (c := 't') (by decide) (fun cs r hr => ?_) hsp rest
      rw [Codec.bool]
      simp only [hr, if_true]
      rfl
    | false =>
      refine reads_of_word (c := 'f') (by decide) (fun cs r hr => ?_) hsp rest
      rw [Codec.bool]
      simp only [hr, show ¬('f' = 't') by decide, if_false, if_true]
      rfl

theorem boundedNat_of_lt {n bound : Nat} (h : n < bound) (wanted : String) :
    boundedNat bound wanted (.whole n) = .ok n := by
  rw [boundedNat, if_pos ⟨Int.natCast_nonneg n, Int.ofNat_lt.mpr h⟩, Int.toNat_natCast]

/-- Numbers below a bound come back, as long as the bound fits 64 bits. -/
theorem restores_natBelow {n bound : Nat} (h : n < bound) (hbound : bound ≤ UInt64.size)
    (wanted : String) : (natBelow bound wanted).Restores n where
  decode s := by
    change (boundedNat bound wanted (.whole n)).toOption = some n
    rw [boundedNat_of_lt h]
    rfl
  read l level sp rest hsp hrest := by
    change Reads _ (sp ++ (Decimal.digits n ++ rest)) n rest
    obtain ⟨d, r, hdigit, hr, t, ht, hval⟩ :=
      next_digits hsp (Nat.lt_of_lt_of_le h hbound) hrest
    refine ⟨r.tail t, ?_, hval⟩
    rw [natBelow]
    simp only [hr, startsNumber, hdigit, Bool.or_true, if_true, ht, boundedNat_of_lt h]
    rfl

theorem restores_word32 (w : UInt32) : word32.Restores w :=
  restores_imap (restores_natBelow w.toNat_lt_size (by decide) _) (UInt32.ofNat_toNat)

theorem restores_count {n : Nat} (h : n < UInt64.size) : count.Restores n :=
  restores_natBelow h (Nat.le_refl _) _

/-! ## Optional values, lists and words -/

theorem restores_none (c : Codec α) : c.option.Restores none where
  decode _ := rfl
  read l level sp rest hsp _ := by
    refine reads_of_word (c := 'n') (by decide) (fun cs r hr => ?_) hsp rest
    rw [option]
    simp only [hr, if_true]
    rfl

/-- A value that is there comes back, as long as it is not written as its absence. -/
theorem restores_some {x : α} (h : c.Restores x) (hnull : c.encode x ≠ .null) :
    c.option.Restores (some x) where
  decode s := by
    change c.option.decode s (c.encode x) = _
    have hdecode := h.decode s
    unfold option
    cases hv : c.encode x with
    | null => exact absurd hv hnull
    | _ =>
      rw [hv] at hdecode
      exact congrArg (Option.map some) hdecode
  read l level sp rest hsp hrest := by
    -- the first character settles whether the value is there: only `null` begins with its letter
    obtain ⟨d, r, hd, hspace, -, hn⟩ := l.exists_render_eq_cons level (c.encode x)
    have hread := h.read l level sp rest hsp hrest
    change Reads c.option.read (sp ++ (l.render level (c.encode x) ++ rest)) _ _
    rw [hd, List.cons_append] at hread ⊢
    obtain ⟨q, hq, -⟩ := next_append hsp hspace (r ++ rest)
    obtain ⟨t, ht, hval⟩ := hread
    refine ⟨t, ?_, hval⟩
    rw [option]
    simp only [hq, show ¬ d = 'n' from fun hd => hnull (hn hd), if_false, ht]
    rfl

/-- Any optional value comes back whose codec restores it and writes no `null`. -/
theorem restores_option {o : Option α} (h : ∀ x ∈ o, c.Restores x)
    (hnull : ∀ x, c.encode x ≠ .null) : c.option.Restores o := by
  rcases o with _ | x
  · exact restores_none c
  · exact restores_some (h x rfl) (hnull x)

theorem mapM_map_eq_some {γ : Type} {f : β → Option γ} {g : α → β} {k : α → γ} {xs : List α}
    (h : ∀ x ∈ xs, f (g x) = some (k x)) : (xs.map g).mapM f = some (xs.map k) := by
  induction xs with
  | nil => rfl
  | cons x xs ih =>
    rw [List.map_cons, List.mapM_cons, h x List.mem_cons_self,
      ih fun y hy => h y (List.mem_cons_of_mem x hy)]
    rfl

theorem restores_list {xs : List α} (h : ∀ x ∈ xs, c.Restores x) : c.list.Restores xs where
  decode s := by
    have hmap := mapM_map_eq_some fun x hx => (h x hx).decode s
    rw [List.map_id'] at hmap
    exact hmap
  read l level sp rest hsp _ := by
    change Reads c.list.read (sp ++ (l.render level (.array (xs.map c.encode)) ++ rest)) xs rest
    rw [Layout.render, List.cons_append]
    have hxs := reads_items (fun x hx => (h x hx).read) l level true rest
    refine reads_behind (by decide) hxs (fun text r r' hr hr' => ?_) hsp
    rw [list]
    simp only [hr, if_true, hr']
    rfl

/-- The first value that has a word is the one that the word names, if no other value has it. -/
theorem chosen_name {all : List α} {name : α → String} {x : α} (hmem : x ∈ all)
    (hname : ∀ y ∈ all, name y = name x → y = x) : chosen all name (name x) = .ok x := by
  rw [chosen]
  cases hfind : all.find? fun y => name y = name x with
  | none =>
    have hnot := List.find?_eq_none.mp hfind x hmem
    simp at hnot
  | some y =>
    have hy := List.find?_some hfind
    rw [decide_eq_true_eq] at hy
    rw [hname y (List.mem_of_find?_eq_some hfind) hy]

theorem restores_choice {all : List α} {name : α → String} {x : α} (hmem : x ∈ all)
    (hname : ∀ y ∈ all, name y = name x → y = x) : (choice all name).Restores x where
  decode s := by
    change (chosen all name (name x)).toOption = some x
    rw [chosen_name hmem hname]
    rfl
  read l level sp rest hsp _ := by
    change Reads (choice all name).read (sp ++ (writeString (name x) ++ rest)) x rest
    rw [writeString_append]
    refine reads_behind (by decide) (reads_string (name x) rest) (fun text r r' hr hr' => ?_) hsp
    rw [choice]
    simp only [hr, show ¬ ('"' = '\x7b') by decide, if_false, if_true, hr', chosen_name hmem hname]
    rfl

end Codec

end SuffixLint
