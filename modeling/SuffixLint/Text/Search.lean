/-!
# Searching in a text

A text is searched as the list of its characters. `cut` divides a text at the first place where a
token stands, `occurs` says whether there is such a place, `eraseAll` removes the token wherever a
scan from the left meets it, and `trimFront` and `trimBack` remove it from an end for as long as
it stands there.
-/

namespace SuffixLint.Text

/-- Whether the token stands somewhere in the text. -/
def occurs (token : List Char) : List Char → Bool
  | [] => token.isEmpty
  | c :: r => token.isPrefixOf (c :: r) || occurs token r

/-- The parts of a text before and behind the first place where the token stands. -/
def cut (token : List Char) : List Char → Option (List Char × List Char)
  | [] => if token.isEmpty then some ([], []) else none
  | c :: r =>
    if token.isPrefixOf (c :: r) then some ([], (c :: r).drop token.length)
    else (cut token r).map fun parts => (c :: parts.1, parts.2)

/-- `eraseAll` with the number of characters that are still to be dropped, because they belong to
a token that has been met. Counting them down keeps the recursion on the text itself. -/
def eraseFrom (token : List Char) : Nat → List Char → List Char
  | _, [] => []
  | n + 1, _ :: r => eraseFrom token n r
  | 0, c :: r =>
    if token.isPrefixOf (c :: r) then eraseFrom token (token.length - 1) r
    else c :: eraseFrom token 0 r

/-- The text without the token, wherever a single scan from the left meets it. What the scan has
passed is not looked at again, so a token that forms at a seam stays. -/
def eraseAll (token text : List Char) : List Char :=
  eraseFrom token 0 text

/-- The text without the tokens that stand one behind the other at its front. -/
def trimFront (token text : List Char) : List Char :=
  if _h : token ≠ [] ∧ token.isPrefixOf text = true then
    trimFront token (text.drop token.length)
  else text
termination_by text.length
decreasing_by
  have hle := (List.isPrefixOf_iff_prefix.1 _h.2).length_le
  have hpos := List.length_pos_iff.2 _h.1
  simp only [List.length_drop]
  omega

/-- The text without the tokens that stand one before the other at its back. -/
def trimBack (token text : List Char) : List Char :=
  (trimFront token.reverse text.reverse).reverse

end SuffixLint.Text
