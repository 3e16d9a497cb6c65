import SuffixLint.DeclarationFile
import SuffixLint.Disk
import SuffixLint.Ignore.Rule
/-!
# Walks

The declaration files below a directory, in the order of their paths. A walk passes over hidden
names and over what the rules of the project's ignore files name, and does not enter a directory
that it passes over. A rule file speaks for everything below its directory, also where a walk starts
further down; nearer files come before those further up.
-/

namespace SuffixLint.Disk

open Ignore

/-- The directories above a location, from the nearest to the top. -/
def directoriesAbove (l : Location) : List Location :=
  (List.range l.length).reverse.map l.take

/-- What is left of a location below a directory, as the text of a path. -/
def pathBelow (dir l : Location) : String :=
  String.intercalate "/" (l.drop dir.length)

/-- The rules in the file at a location, none if no file lies there. -/
def rulesAt (d : Disk) (l : Location) : List Rule :=
  match d.at? l with
  | some (.file content) => rulesOf content
  | _ => []

/-- What the rule files of a name in directories say of a location: the nearest that names it
decides. -/
def choiceOf? (d : Disk) (dirs : List Location) (ruleFile l : Location) (isDirectory : Bool) :
    Option Choice :=
  dirs.findSome? fun dir =>
    decide? (d.rulesAt (dir ++ ruleFile)) (pathBelow dir l).toUTF8.data.toList isDirectory

/-- Whether a directory is the top of a repository. -/
def isRepository (d : Disk) (dir : Location) : Bool :=
  (d.at? (dir ++ [".git"])).isSome

/-- The directories up to the top of the repository they belong to, with it. -/
def upToRepository (d : Disk) : List Location → List Location
  | [] => []
  | dir :: dirs => if d.isRepository dir then [dir] else dir :: d.upToRepository dirs

/-- What the rule files say of a location. Those of a repository only count inside one, up to its
top, and come after those that always count. -/
def choice? (d : Disk) (l : Location) (isDirectory : Bool) : Option Choice :=
  let dirs := directoriesAbove l
  let inside := if dirs.any d.isRepository then d.upToRepository dirs else []
  (d.choiceOf? dirs [".ignore"] l isDirectory).or <|
    (d.choiceOf? inside [".gitignore"] l isDirectory).or <|
      d.choiceOf? inside [".git", "info", "exclude"] l isDirectory

/-- Whether a location is hidden by its name. -/
def isHidden (l : Location) : Bool :=
  (l.getLastD "").startsWith "."

/-- Whether a walk takes a location that it comes to. A rule that keeps it also keeps it from being
hidden. -/
def admits (d : Disk) (l : Location) (isDirectory : Bool) : Bool :=
  match d.choice? l isDirectory with
  | some .ignored => false
  | some .kept => true
  | none => !isHidden l

/-- Whether a walk from a directory comes to a location: it takes the location and every directory
on the way. -/
def isWalked (d : Disk) (root l : Location) : Bool :=
  root.isPrefixOf l && root.length < l.length
    && ((List.range l.length).drop (root.length + 1)).all
      (fun n => d.at? (l.take n) = some .directory && d.admits (l.take n) true)
    && d.admits l false

/-- The path of a listed entry that a walk from a directory comes to, if it is a file; `root` is
the path that leads to the directory. -/
def walkedFile? (d : Disk) (root : Path) (dir : Location) : Location × Entry → Option Path
  | (l, .file _) => if d.isWalked dir l then some (root.join (pathBelow dir l)) else none
  | (_, .directory) => none

/-- The files that a walk from a path comes to. A walk from a file comes to that file alone. The
path `-` stands for standard input, where no file is found. -/
def walkedFiles (d : Disk) (root : Path) : List Path :=
  if root.components = [.entry "-"] then []
  else
    match d.locate root, d.find root with
    | .ok dir, .ok .directory => d.entries.filterMap (d.walkedFile? root dir)
    | .ok _, .ok (.file _) => [root]
    | _, _ => []

/-- The declaration files that a walk from a path comes to, in the order of their paths. -/
def declarationFiles (d : Disk) (root : Path) : List Path :=
  ((d.walkedFiles root).filter DeclarationFile.isSupported).mergeSort fun p q => (p.order q).isLE

end SuffixLint.Disk
