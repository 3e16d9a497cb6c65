import SuffixLint.Proofs.Json.Lexeme
/-!
# Layouts of a document

A document is written on one line or over several, and the two texts differ in the spaces between
their tokens alone. Here the spaces are a parameter: a layout says what stands before an item, a
member or a closing bracket, by its level of nesting, and what stands behind a colon. Both ways of
writing are layouts (`write_eq_render`, `pretty_eq_render`), so what is proved of every layout holds
of both.

Arrays and objects are written here with a flag that says whether an item is the first. It settles
whether a comma comes before the item, as it does for the reader.
-/

namespace SuffixLint.Json

open Lexeme

/-- The spaces that stand between the tokens of a document. -/
structure Layout where
  /-- What stands before an item, a member or a closing bracket at a level of nesting. -/
  gap : Nat → List Char
  /-- What stands behind a colon. -/
  behindColon : List Char
  spaces_gap : ∀ level, Spaces (gap level)
  spaces_behindColon : Spaces behindColon

namespace Layout

/-- Everything on one line, without spaces. -/
def compact : Layout where
  gap _ := []
  behindColon := []
  spaces_gap _ _ hc := nomatch hc
  spaces_behindColon _ hc := nomatch hc

/-- Each item and each member on a line of its own. -/
def lines : Layout where
  gap := newLine
  behindColon := [' ']
  spaces_gap level c hc := by
    rcases List.mem_cons.mp hc with rfl | hc
    · rfl
    · rw [List.eq_of_mem_replicate hc]
      rfl
  spaces_behindColon c hc := by
    rw [List.mem_singleton.mp hc]
    rfl

/-- What stands before an item or a member: the gap, and a comma if it is not the first. -/
def lead (l : Layout) (level : Nat) (first : Bool) : List Char :=
  if first then l.gap (level + 1) else ',' :: l.gap (level + 1)

/-- What closes a bracket: the bracket alone if nothing stands in it. -/
def close (l : Layout) (level : Nat) (first : Bool) (bracket : Char) : List Char :=
  if first then [bracket] else l.gap level ++ [bracket]

mutual

/-- A document in a layout, where it stands at the given level of nesting. -/
def render (l : Layout) (level : Nat) : Json → List Char
  | .null => ['n', 'u', 'l', 'l']
  | .bool true => ['t', 'r', 'u', 'e']
  | .bool false => ['f', 'a', 'l', 's', 'e']
  | .number n => n.write
  | .string s => writeString s
  | .array vs => '[' :: renderItems l level true vs
  | .object ms => '\x7b' :: renderMembers l level true ms

/-- The items of an array and its end. -/
def renderItems (l : Layout) (level : Nat) (first : Bool) : List Json → List Char
  | [] => l.close level first ']'
  | v :: vs => l.lead level first ++ render l (level + 1) v ++ renderItems l level false vs

/-- The members of an object and its end. -/
def renderMembers (l : Layout) (level : Nat) (first : Bool) : List (String × Json) → List Char
  | [] => l.close level first '\x7d'
  | (k, v) :: ms =>
    l.lead level first ++ writeString k ++ ':' :: l.behindColon ++ render l (level + 1) v
      ++ renderMembers l level false ms

end

end Layout

/-! ## What stands at the seams of a text -/

namespace Layout

/-- The first character of a number, from which it cannot be taken for anything else. -/
theorem begins_write (n : Number) : Decimal.Begins n.write := by
  cases n with
  | whole i =>
    cases i with
    | ofNat n => exact Decimal.begins_digits n
    | negSucc n => exact ⟨'-', _, rfl, Or.inr rfl⟩
  | double x => exact Decimal.begins_text x

/-- A document begins with no space and no closing bracket, and only `null` with the letter of
`null`. -/
theorem exists_render_eq_cons (l : Layout) (level : Nat) (v : Json) :
    ∃ c r, l.render level v = c :: r ∧ isSpace c = false ∧ c ≠ ']' ∧ (c = 'n' → v = .null) := by
  cases v with
  | null => exact ⟨'n', _, rfl, by decide, by decide, fun _ => rfl⟩
  | bool b =>
    cases b with
    | true => exact ⟨'t', _, rfl, by decide, by decide, fun h => absurd h (by decide)⟩
    | false => exact ⟨'f', _, rfl, by decide, by decide, fun h => absurd h (by decide)⟩
  | number n =>
    obtain ⟨c, r, hn, hc⟩ := begins_write n
    refine ⟨c, r, hn, ?_, ?_, ?_⟩
    · refine Bool.eq_false_iff.mpr fun hspace => ?_
      simp only [isSpace, Bool.or_eq_true, decide_eq_true_eq] at hspace
      rcases hspace with ((rfl | rfl) | rfl) | rfl <;> exact absurd hc (by decide)
    · rintro rfl
      exact absurd hc (by decide)
    · rintro rfl
      exact absurd hc (by decide)
  | string s => exact ⟨'"', _, rfl, by decide, by decide, fun h => absurd h (by decide)⟩
  | array vs => exact ⟨'[', _, rfl, by decide, by decide, fun h => absurd h (by decide)⟩
  | object ms => exact ⟨'\x7b', _, rfl, by decide, by decide, fun h => absurd h (by decide)⟩

/-- Spaces in front of a text keep it from going on with a number. -/
theorem endsNumber_append {sp cs : List Char} (hsp : Spaces sp) (h : EndsNumber cs) :
    EndsNumber (sp ++ cs) := by
  cases sp with
  | nil => exact h
  | cons c sp => exact endsNumber_space (hsp c List.mem_cons_self) (sp ++ cs)

/-- A number ends before the next item and before the end of its array. -/
theorem endsNumber_renderItems (l : Layout) (level : Nat) (vs : List Json) (rest : List Char) :
    EndsNumber (l.renderItems level false vs ++ rest) := by
  cases vs with
  | nil =>
    rw [renderItems, close, if_neg Bool.false_ne_true, List.append_assoc]
    exact endsNumber_append (l.spaces_gap level) (endsNumber_cons (by decide) rest)
  | cons v vs => exact endsNumber_cons (by decide) _

/-- A number ends before the next member and before the end of its object. -/
theorem endsNumber_renderMembers (l : Layout) (level : Nat) (ms : List (String × Json))
    (rest : List Char) : EndsNumber (l.renderMembers level false ms ++ rest) := by
  cases ms with
  | nil =>
    rw [renderMembers, close, if_neg Bool.false_ne_true, List.append_assoc]
    exact endsNumber_append (l.spaces_gap level) (endsNumber_cons (by decide) rest)
  | cons m ms => exact endsNumber_cons (by decide) _

end Layout

/-! ## The two layouts that are used

What a printer writes is given in full at each step; the layout then has the same parts, put together
in another order. -/

mutual

/-- A document on one line is the document in the layout without spaces, at any level. -/
theorem write_eq_render (level : Nat) : ∀ v : Json, v.write = Layout.compact.render level v
  | .null => rfl
  | .bool true => rfl
  | .bool false => rfl
  | .number _ => rfl
  | .string _ => rfl
  | .array [] => rfl
  | .array (v :: vs) => by
    change '[' :: v.write ++ writeItems vs = _
    rw [write_eq_render (level + 1) v, writeItems_eq_render level vs]
    rfl
  | .object [] => rfl
  | .object ((k, v) :: ms) => by
    change '\x7b' :: writeString k ++ ':' :: v.write ++ writeMembers ms = _
    rw [write_eq_render (level + 1) v, writeMembers_eq_render level ms, Layout.render,
      Layout.renderMembers]
    simp [Layout.lead, Layout.compact]

theorem writeItems_eq_render (level : Nat) :
    ∀ vs : List Json, writeItems vs = Layout.compact.renderItems level false vs
  | [] => rfl
  | v :: vs => by
    change ',' :: v.write ++ writeItems vs = _
    rw [write_eq_render (level + 1) v, writeItems_eq_render level vs]
    rfl

theorem writeMembers_eq_render (level : Nat) :
    ∀ ms : List (String × Json), writeMembers ms = Layout.compact.renderMembers level false ms
  | [] => rfl
  | (k, v) :: ms => by
    change ',' :: writeString k ++ ':' :: v.write ++ writeMembers ms = _
    rw [write_eq_render (level + 1) v, writeMembers_eq_render level ms, Layout.renderMembers]
    simp [Layout.lead, Layout.compact]

end

mutual

/-- A document over several lines is the document in the layout with a line for each item. -/
theorem pretty_eq_render (level : Nat) : ∀ v : Json, v.pretty level = Layout.lines.render level v
  | .null => rfl
  | .bool true => rfl
  | .bool false => rfl
  | .number _ => rfl
  | .string _ => rfl
  | .array [] => rfl
  | .array (v :: vs) => by
    change '[' :: newLine (level + 1) ++ v.pretty (level + 1) ++ prettyItems level vs = _
    rw [pretty_eq_render (level + 1) v, prettyItems_eq_render level vs]
    rfl
  | .object [] => rfl
  | .object ((k, v) :: ms) => by
    change '\x7b' :: newLine (level + 1) ++ writeString k ++ ':' :: ' ' :: v.pretty (level + 1) ++
      prettyMembers level ms = _
    rw [pretty_eq_render (level + 1) v, prettyMembers_eq_render level ms, Layout.render,
      Layout.renderMembers]
    simp [Layout.lead, Layout.lines]

theorem prettyItems_eq_render (level : Nat) :
    ∀ vs : List Json, prettyItems level vs = Layout.lines.renderItems level false vs
  | [] => rfl
  | v :: vs => by
    change ',' :: newLine (level + 1) ++ v.pretty (level + 1) ++ prettyItems level vs = _
    rw [pretty_eq_render (level + 1) v, prettyItems_eq_render level vs]
    rfl

theorem prettyMembers_eq_render (level : Nat) :
    ∀ ms : List (String × Json),
      prettyMembers level ms = Layout.lines.renderMembers level false ms
  | [] => rfl
  | (k, v) :: ms => by
    change ',' :: newLine (level + 1) ++ writeString k ++ ':' :: ' ' :: v.pretty (level + 1) ++
      prettyMembers level ms = _
    rw [pretty_eq_render (level + 1) v, prettyMembers_eq_render level ms, Layout.renderMembers]
    simp [Layout.lead, Layout.lines]

end

end SuffixLint.Json
