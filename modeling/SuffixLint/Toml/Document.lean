import SuffixLint.Toml.Value
/-!
# TOML texts

A text is a list of statements: a header that opens a table, a header in double brackets that opens
one more table of a series, and a key with its value, which goes into the table that was opened
last. Each stands on a line of its own. A text gives a document if no two of its statements are in
each other's way.
-/

namespace SuffixLint.Toml

open Text

/-- A statement. A key is given by its parts before the last and its last. -/
inductive Statement where
  | openTable (key : List String × String)
  | openElement (key : List String × String)
  | pair (key : List String × String) (value : Json)

/-- A header, whose opening brackets have been read, up to its closing brackets. -/
def header (close : List Char) : Read (List String × String) := fun cs =>
  (key cs).bind fun found =>
    (word close found.2.val).map fun t => (found.1, found.2.tail t)

/-- A statement without the end of its line. -/
def statement : Read Statement
  | '[' :: '[' :: r =>
    (header [']', ']'] r).map fun found => (.openElement found.1, found.2.past.past)
  | '[' :: r => (header [']'] r).map fun found => (.openTable found.1, found.2.past)
  | cs => (pair (value depthLimit) cs).map fun found => (.pair found.1.1 found.1.2, found.2)

/-- The statements of a text. -/
def statements (cs : List Char) : Option (List Statement) :=
  let start := skipBlanks cs
  match start.next? with
  | none => some []
  | some (c, r) =>
    match newline start.val with
    | some r₁ => statements r₁.val
    | none =>
      if c = '#' then
        match commentEnd r.val with
        | none => none
        | some t => statements t.val
      else
        match statement start.val with
        | none => none
        | some (s, r₁) =>
          match lineEnd r₁.val with
          | none => none
          | some t => (statements t.val).map (s :: ·)
termination_by cs.length
decreasing_by
  · exact (start.rest r₁).property
  · exact (r.tail t).property
  · exact ((start.rest r₁).tail t).property

/-- The tables of a text so far, and the header that was read last. -/
structure Progress where
  root : Entries := []
  /-- The parts of the last header, none before the first. -/
  header : List String := []

/-- The tables of a text after one more statement. -/
def Progress.step (p : Progress) : Statement → Option Progress
  | .openTable (before, last) =>
    (p.root.within .way (Entries.openTable last) before .header).map fun es =>
      ⟨es, before ++ [last]⟩
  | .openElement (before, last) =>
    (p.root.within .way (Entries.openElement last) before .header).map fun es =>
      ⟨es, before ++ [last]⟩
  | .pair key v =>
    (p.root.within .way (fun _ es => es.insert key v) p.header .header).map fun es =>
      ⟨es, p.header⟩

/-- The document that statements make, if no two are in each other's way. -/
def documentOf (ss : List Statement) : Option Json :=
  (ss.foldlM Progress.step {}).map fun p => .object (membersOf p.root)

/-- A text without the byte order mark before it. -/
def dropOrderMark : List Char → List Char
  | '\ufeff' :: r => r
  | cs => cs

/-- The document that a text stands for, if it is well formed. -/
def ofText? (text : List Char) : Option Json :=
  (statements (dropOrderMark text)).bind documentOf

end SuffixLint.Toml
