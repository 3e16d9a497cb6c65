/-!
# Reading from the front of a text

A step of reading takes a text as the list of its characters and gives what it has read together
with what is left. That what is left is shorter, or no longer, is part of the type of what is left,
so whoever reads on needs no other reason to come to an end. Steps are put together by the
operations below, each of which keeps that promise.
-/

namespace SuffixLint.Text

/-- What is left of a text after something has been read from its front. -/
abbrev Rest (cs : List Char) := { r : List Char // r.length < cs.length }

/-- What is left of a text after something that may be empty. -/
abbrev Tail (cs : List Char) := { r : List Char // r.length ≤ cs.length }

/-- What is left behind the first character. -/
def behind {c : Char} (r : List Char) : Rest (c :: r) :=
  ⟨r, Nat.lt_succ_self r.length⟩

/-- All of a text is left. -/
def unread (cs : List Char) : Tail cs :=
  ⟨cs, Nat.le_refl cs.length⟩

/-- What is left behind the first characters, as many as there are of a number of them. -/
def dropped (n : Nat) (cs : List Char) : Tail cs :=
  ⟨cs.drop n, List.length_drop ▸ Nat.sub_le cs.length n⟩

namespace Rest

variable {cs : List Char}

/-- Forgets that something has been read. -/
def toTail (r : Rest cs) : Tail cs :=
  ⟨r.val, Nat.le_of_lt r.property⟩

/-- What is left of a rest is left of the whole. -/
def rest (r : Rest cs) (r' : Rest r.val) : Rest cs :=
  ⟨r'.val, Nat.lt_trans r'.property r.property⟩

/-- What is left of a rest, also if nothing more has been read, is left of the whole. -/
def tail (r : Rest cs) (t : Tail r.val) : Rest cs :=
  ⟨t.val, Nat.lt_of_le_of_lt t.property r.property⟩

/-- What is left of a text is left of the text with one more character at its front. -/
def past {c : Char} (r : Rest cs) : Rest (c :: cs) :=
  ⟨r.val, Nat.lt_succ_of_lt r.property⟩

/-- What is left once something has been read is left behind the first character. -/
def behindFirst {c : Char} (r : Rest (c :: cs)) : Tail cs :=
  ⟨r.val, Nat.le_of_lt_succ r.property⟩

end Rest

namespace Tail

variable {cs : List Char}

/-- What is left of a tail, once something more has been read, is left of the whole. -/
def rest (t : Tail cs) (r : Rest t.val) : Rest cs :=
  ⟨r.val, Nat.lt_of_lt_of_le r.property t.property⟩

/-- What is left of a tail is left of the whole. -/
def tail (t : Tail cs) (t' : Tail t.val) : Tail cs :=
  ⟨t'.val, Nat.le_trans t'.property t.property⟩

/-- What is left of a text is left of the text with one more character at its front, and then
something has been read. -/
def past {c : Char} (t : Tail cs) : Rest (c :: cs) :=
  ⟨t.val, Nat.lt_succ_of_le t.property⟩

/-- The next character, if there is one, and what is left behind it. -/
def next? (t : Tail cs) : Option (Char × Rest cs) :=
  match t with
  | ⟨[], _⟩ => none
  | ⟨c :: r, h⟩ => some (c, ⟨r, h⟩)

end Tail

end SuffixLint.Text
