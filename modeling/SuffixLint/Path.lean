/-!
# Paths

A path is kept as the text it was given as, and read as a list of components. Empty components and
every `.` but a leading one say nothing and vanish; `..` stays, since without a disk nobody knows
where it leads. Paths are ordered and compared component by component, so two spellings with the
same components are at the same place of the order.
-/

namespace SuffixLint

/-- A path as it was written. -/
structure Path where
  text : String
  deriving DecidableEq, Repr, Inhabited

namespace Path

/-- One step of a path. -/
inductive Component where
  /-- The leading slash of an absolute path. -/
  | root
  /-- A leading `.`. -/
  | here
  /-- The step `..` to the directory above. -/
  | up
  /-- The step to an entry of a directory. -/
  | entry (name : String)
  deriving DecidableEq, Repr

/-- The kinds of components in their order. -/
def Component.rank : Component → Nat
  | root => 0
  | here => 1
  | up => 2
  | entry _ => 3

/-- The name of a component, empty for one that is no entry. -/
def Component.name : Component → String
  | entry n => n
  | _ => ""

/-- Components are ordered by kind, and entries by the code points of their names. -/
instance : Ord Component where
  compare := compareLex (compareOn Component.rank) (compareOn Component.name)

/-- The pieces of a text between its slashes: one more than there are slashes. -/
def splitSlashes : List Char → List (List Char)
  | [] => [[]]
  | '/' :: r => [] :: splitSlashes r
  | c :: r =>
    match splitSlashes r with
    | [] => [[c]]
    | piece :: pieces => (c :: piece) :: pieces

/-- The component that a piece between slashes behind the first stands for, if any. -/
def Component.ofPiece? (piece : List Char) : Option Component :=
  if piece = [] ∨ piece = ['.'] then none
  else if piece = ['.', '.'] then some up
  else some (entry (String.ofList piece))

/-- The components of a path. -/
def components (p : Path) : List Component :=
  let pieces := splitSlashes p.text.toList
  let steps := pieces.filterMap Component.ofPiece?
  match pieces with
  | [] :: _ :: _ => .root :: steps
  | ['.'] :: _ => .here :: steps
  | _ => steps

/-- The order of paths: component by component, a path before those that go on from it. -/
def order (p q : Path) : Ordering :=
  compare p.components q.components

instance : Ord Path where
  compare := order

/-- The name of the entry that a path leads to, if its last step is to an entry. -/
def fileName? (p : Path) : Option String :=
  match p.components.getLast? with
  | some (.entry name) => some name
  | _ => none

/-- What follows the last dot of a name, if a dot stands behind the name's first character. -/
def extensionOfName? (name : List Char) : Option (List Char) :=
  let back := name.reverse
  let ext := back.takeWhile (· ≠ '.')
  if ext.length + 1 < name.length then some ext.reverse else none

/-- The extension of the entry that a path leads to. -/
def extension? (p : Path) : Option String :=
  p.fileName?.bind fun name => (extensionOfName? name.toList).map String.ofList

/-- A path followed by a relative one, with one slash between them. -/
def join (p : Path) (name : String) : Path :=
  match p.text.toList.getLast? with
  | none => ⟨name⟩
  | some '/' => ⟨p.text ++ name⟩
  | some _ => ⟨p.text ++ "/" ++ name⟩

end Path

end SuffixLint
