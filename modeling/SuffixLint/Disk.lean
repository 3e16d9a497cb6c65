import SuffixLint.Path
/-!
# Disks

A disk as a value: what lies where, and the directory from which relative paths start. Only files
and empty directories are listed, since a directory also exists by what lies below it. A path is
followed step by step, and each step has to start from a directory, so a path may be refused before
its end; `..` leads to the directory above the one that has been reached.
-/

namespace SuffixLint

/-- Where something lies: the names on the way from the top. -/
abbrev Location := List String

/-- What lies at a location. -/
inductive Entry where
  | file (content : ByteArray)
  | directory

/-- Two files are the same when they hold the same bytes. -/
instance : DecidableEq Entry
  | .file a, .file b =>
    decidable_of_iff (a.data = b.data)
      ⟨fun h => congrArg Entry.file (ByteArray.ext h), fun h => by cases h; rfl⟩
  | .directory, .directory => .isTrue rfl
  | .file _, .directory => .isFalse nofun
  | .directory, .file _ => .isFalse nofun

/-- What lies where. -/
structure Disk where
  entries : List (Location × Entry) := []
  /-- The directory from which relative paths start. -/
  current : Location := []
  /-- At most one thing lies at a location. -/
  distinct : (entries.map Prod.fst).Nodup := by simp

namespace Disk

/-- Why something cannot be read or written. -/
inductive Refusal where
  | missing
  | isDirectory
  | notDirectory
  | notText
  deriving DecidableEq, Repr

/-- The text of a refusal. -/
def Refusal.message : Refusal → String
  | missing => "No such file or directory (os error 2)"
  | isDirectory => "Is a directory (os error 21)"
  | notDirectory => "Not a directory (os error 20)"
  | notText => "stream did not contain valid UTF-8"

/-! ## What lies where -/

/-- Whether a location is a directory because something lies below it. -/
def isAbove (d : Disk) (l : Location) : Bool :=
  l.isPrefixOf d.current || d.entries.any fun e => l.isPrefixOf e.1

/-- What lies at a location, if anything. -/
def at? (d : Disk) (l : Location) : Option Entry :=
  match d.entries.lookup l with
  | some e => some e
  | none => if d.isAbove l then some .directory else none

/-- What is listed once something has been laid at a location: nothing else lies there. -/
theorem nodup_replace (d : Disk) (l : Location) (e : Entry) :
    (((d.entries.filter fun x => x.1 ≠ l) ++ [(l, e)]).map Prod.fst).Nodup := by
  rw [List.map_append]
  refine List.nodup_append.2 ⟨?_, by simp, ?_⟩
  · exact d.distinct.sublist (List.filter_sublist.map Prod.fst)
  · intro a ha b hb hab
    obtain ⟨x, hx, rfl⟩ := List.mem_map.1 ha
    have hne := (List.mem_filter.1 hx).2
    simp only [List.map_cons, List.map_nil, List.mem_singleton] at hb
    simp [hab, hb] at hne

/-- The disk with an entry laid at a location, in place of what lay there. -/
def put (d : Disk) (l : Location) (e : Entry) : Disk where
  entries := (d.entries.filter fun x => x.1 ≠ l) ++ [(l, e)]
  current := d.current
  distinct := d.nodup_replace l e

/-! ## Following paths -/

/-- The location that one piece of a path leads to from a location, which has to be a directory. -/
def step (d : Disk) (l : Location) (piece : List Char) : Except Refusal Location :=
  match d.at? l with
  | none => .error .missing
  | some (.file _) => .error .notDirectory
  | some .directory =>
    match Path.Component.ofPiece? piece with
    | some (.entry name) => .ok (l ++ [name])
    | some .up => .ok l.dropLast
    | _ => .ok l

/-- The location that pieces of a path lead to, one after the other. -/
def follow (d : Disk) (l : Location) : List (List Char) → Except Refusal Location
  | [] => .ok l
  | piece :: pieces =>
    match d.step l piece with
    | .error e => .error e
    | .ok l' => d.follow l' pieces

/-- The location from which a path starts. -/
def start (d : Disk) (p : Path) : Location :=
  if p.text.startsWith "/" then [] else d.current

/-- The location that a path leads to, whether anything lies there or not. -/
def locate (d : Disk) (p : Path) : Except Refusal Location :=
  if p.text.isEmpty then .error .missing
  else d.follow (d.start p) (Path.splitSlashes p.text.toList)

/-- What a path leads to. -/
def find (d : Disk) (p : Path) : Except Refusal Entry :=
  match d.locate p with
  | .error e => .error e
  | .ok l =>
    match d.at? l with
    | none => .error .missing
    | some e => .ok e

/-- Whether a path leads to something. -/
def holds (d : Disk) (p : Path) : Bool :=
  (d.find p).toOption.isSome

/-- Whether a path leads to a directory. -/
def isDirectory (d : Disk) (p : Path) : Bool :=
  (d.find p).toOption = some .directory

/-- The path without `.` and `..` that leads where a path leads. -/
def canonical (d : Disk) (p : Path) : Except Refusal Path :=
  match d.find p with
  | .error e => .error e
  | .ok _ => (d.locate p).map fun l => ⟨"/" ++ String.intercalate "/" l⟩

/-! ## Reading and writing -/

/-- The text of bytes in UTF-8. -/
def decodeText (bytes : ByteArray) : Except Refusal String :=
  match String.fromUTF8? bytes with
  | some text => .ok text
  | none => .error .notText

/-- The text of the file that a path leads to. -/
def readText (d : Disk) (p : Path) : Except Refusal String :=
  match d.find p with
  | .error e => .error e
  | .ok .directory => .error .isDirectory
  | .ok (.file content) => decodeText content

/-- The location at which a file is to be written. Its directory has to be there, and the path has
to end in the file's own name. -/
def target (d : Disk) (p : Path) : Except Refusal Location :=
  let pieces := (Path.splitSlashes p.text.toList).reverse
  match pieces.dropWhile List.isEmpty with
  | [] => .error (if p.text.isEmpty then .missing else .isDirectory)
  | last :: before => do
    let parent ← d.follow (d.start p) before.reverse
    let l ← d.step parent last
    if pieces.head? ≠ some last ∨ d.at? l = some .directory then .error .isDirectory else .ok l

/-- The disk after a text has been written to the file that a path leads to. -/
def write (d : Disk) (p : Path) (text : String) : Except Refusal Disk :=
  (d.target p).map fun l => d.put l (.file text.toUTF8)

end Disk

end SuffixLint
