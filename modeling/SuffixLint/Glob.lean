import SuffixLint.Text.Search
/-!
# Path patterns

A pattern names paths whose declarations are left alone. It is read as one of four shapes: a
directory anywhere in the path, a start and an end with anything between them, one star between a
start and an end, or a start alone. The shapes are tests on the text of a path, so a star also runs
over slashes, and a start need not end at a slash.
-/

namespace SuffixLint

open Text

/-- A path pattern as it was written. -/
structure Glob where
  text : String
  deriving DecidableEq, Repr

namespace Glob

/-- What a pattern asks of a path. -/
inductive Shape where
  /-- The directory stands in the path, at its start or behind a slash. -/
  | within (dir : List Char)
  /-- The path starts with `lead`, and ends as `tail` says. -/
  | spanning (lead tail : List Char)
  /-- The path starts with `before` and ends with `after`. -/
  | star (before after : List Char)
  /-- The path starts with the text. -/
  | leading (text : List Char)
  deriving DecidableEq, Repr

/-- The shape of a pattern in which no pair of stars counts: with exactly one star that star stands
for anything, otherwise the pattern is a start. -/
def Shape.ofStar (pattern : List Char) : Shape :=
  match cut ['*'] pattern with
  | some (before, after) => if after.contains '*' then .leading pattern else .star before after
  | none => .leading pattern

/-- The shape of a pattern. A pair of stars counts where it is the only one. -/
def Shape.ofPattern (pattern : List Char) : Shape :=
  if "**/".toList.isPrefixOf pattern && "/**".toList.isSuffixOf pattern then
    .within (trimBack "/**".toList (trimFront "**/".toList pattern))
  else
    match cut ['*', '*'] pattern with
    | some (before, after) =>
      if occurs ['*', '*'] after then .ofStar pattern
      else .spanning (trimBack ['/'] before) (trimFront ['/'] after)
    | none => .ofStar pattern

/-- Whether a path ends as the part of a pattern behind a pair of stars says. A star in that part
asks for what stands before it anywhere in the path and for what stands behind it at the end. -/
def endsAs (tail path : List Char) : Bool :=
  match cut ['*'] tail with
  | some (before, after) => occurs before path && after.isSuffixOf path
  | none => tail.isSuffixOf path

/-- Whether a path is as a shape asks. -/
def Shape.accepts : Shape → List Char → Bool
  | within dir, path => occurs ('/' :: dir ++ ['/']) path || (dir ++ ['/']).isPrefixOf path
  | spanning lead tail, path => lead.isPrefixOf path && endsAs tail path
  | star before after, path => before.isPrefixOf path && after.isSuffixOf path
  | leading text, path => text.isPrefixOf path

/-- Whether a pattern names a path. -/
def accepts (g : Glob) (path : String) : Bool :=
  (Shape.ofPattern g.text.toList).accepts path.toList

end Glob

end SuffixLint
