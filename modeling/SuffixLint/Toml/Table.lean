import SuffixLint.Json.Value
/-!
# Tables in the making

The tables of a TOML text are made piece by piece: a header opens a table, a key of several parts
makes the tables on its way, and a value stands at the end of a key. What a table may still take
depends on how it was made. A table with a header of its own takes nothing from outside, a table
that only lies on the way to a header may get a header later, and a table on the way of a key takes
further keys only.
-/

namespace SuffixLint.Toml

/-- How a table was made. -/
inductive Origin where
  /-- By a header of its own, or as the table of the whole text. -/
  | header
  /-- On the way to a header further in. -/
  | way
  /-- On the way of a key. -/
  | key
  deriving DecidableEq, Repr

/-- What stands under a key. -/
inductive Node where
  /-- A value, to which nothing can be added. -/
  | value (v : Json)
  | table (origin : Origin) (entries : List (String × Node))
  /-- Tables of which each has the same header in double brackets, from the last to the first. -/
  | series (last : List (String × Node)) (before : List (List (String × Node)))

/-- The entries of a table. -/
abbrev Entries := List (String × Node)

namespace Entries

/-- What stands under a key. -/
def get? (es : Entries) (key : String) : Option Node :=
  es.lookup key

/-- The entries with another node under a key that they have. -/
def set (es : Entries) (key : String) (n : Node) : Entries :=
  es.map fun e => if e.1 = key then (key, n) else e

/-- The entries with one more. -/
def add (es : Entries) (key : String) (n : Node) : Entries :=
  es ++ [(key, n)]

/-- Changes the table at the end of a path, where `change` also sees how that table was made. Tables
that are missing on the way are made as `made` says; of a series the last table is entered. Nothing
when the way is blocked. A path that makes its tables as a key does may not enter a table with a
header. -/
def within (made : Origin) (change : Origin → Entries → Option Entries) :
    List String → Origin → Entries → Option Entries
  | [], origin, es => change origin es
  | k :: ks, _, es =>
    match es.get? k with
    | none => (within made change ks made []).map fun sub => es.add k (.table made sub)
    | some (.value _) => none
    | some (.table origin sub) =>
      if made = .key ∧ origin = .header then none
      else (within made change ks origin sub).map fun sub => es.set k (.table origin sub)
    | some (.series last before) =>
      (within made change ks .header last).map fun sub => es.set k (.series sub before)

/-- The entries once a header has opened a table under a key. -/
def openTable (key : String) (_ : Origin) (es : Entries) : Option Entries :=
  match es.get? key with
  | none => some (es.add key (.table .header []))
  | some (.table .way sub) => some (es.set key (.table .header sub))
  | some _ => none

/-- The entries once a header in double brackets has opened one more table under a key. -/
def openElement (key : String) (_ : Origin) (es : Entries) : Option Entries :=
  match es.get? key with
  | none => some (es.add key (.series [] []))
  | some (.series last before) => some (es.set key (.series [] (last :: before)))
  | some _ => none

/-- The entries with a value under a key that has none yet. A key of several parts may only end in a
table that keys have made. -/
def addValue (severalParts : Bool) (key : String) (v : Json) (origin : Origin) (es : Entries) :
    Option Entries :=
  if severalParts ∧ origin ≠ .key then none
  else if (es.get? key).isSome then none
  else some (es.add key (.value v))

/-- The entries with a value at the end of a key. The key is given by its parts before the last and
its last. -/
def insert (key : List String × String) (v : Json) (es : Entries) : Option Entries :=
  es.within .key (addValue (!key.1.isEmpty) key.2 v) key.1 .header

end Entries

mutual

/-- A node as a document. -/
def Node.toJson : Node → Json
  | .value v => v
  | .table _ entries => .object (membersOf entries)
  | .series last before => .array ((itemsOf before).reverse ++ [.object (membersOf last)])

/-- Entries as the members of an object. -/
def membersOf : List (String × Node) → List (String × Json)
  | [] => []
  | (k, n) :: es => (k, n.toJson) :: membersOf es

/-- Tables as the items of an array. -/
def itemsOf : List (List (String × Node)) → List Json
  | [] => []
  | es :: ess => .object (membersOf es) :: itemsOf ess

end

/-- The object with the given values at the ends of the given keys, if no two are in each other's
way. -/
def tableOf (pairs : List ((List String × String) × Json)) : Option Json :=
  (pairs.foldlM (fun es pair => Entries.insert pair.1 pair.2 es) []).map fun es =>
    .object (membersOf es)

end SuffixLint.Toml
