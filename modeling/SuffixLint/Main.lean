import SuffixLint.Command
import SuffixLint.Moment
import Std.Time.DateTime.Timestamp
/-!
# The program

The outer layer: it takes from the real disk what a command may look at, runs the command on that,
and carries out what the command has written. It decides nothing else.
-/

namespace SuffixLint.Program

/-- A location as the text of a path from the top. -/
def pathText (l : Location) : String :=
  "/" ++ String.intercalate "/" l

/-- The location that the text of a path from the top names. -/
def locationOf (text : String) : Location :=
  ((Path.splitSlashes text.toList).filter (!·.isEmpty)).map String.ofList

/-- Takes what lies at a location, if anything does. -/
def take (d : Disk) (l : Location) : IO Disk := do
  try
    let real ← IO.FS.realPath (pathText l)
    if ← real.isDir then return d.put l .directory
    else if ← real.pathExists then return d.put l (.file (← IO.FS.readBinFile real))
    else return d
  catch _ => return d

/-- The names of files whose rules or settings count for what lies around them. -/
def ruleFiles : List Location :=
  [[".ignore"], [".gitignore"], [".git"], [".git", "info"], [".git", "info", "exclude"]]

/-- Takes the files of rules in a directory. -/
def takeRules (d : Disk) (dir : Location) : IO Disk :=
  ruleFiles.foldlM (fun d name => take d (dir ++ name)) d

/-- Takes everything below a directory that a walk may look at. -/
partial def takeTree (d : Disk) (dir : Location) : IO Disk := do
  let real ← IO.FS.realPath (pathText dir)
  let mut d ← takeRules (d.put dir .directory) dir
  for e in ← real.readDir do
    let l := dir ++ [e.fileName]
    if ← e.path.isDir then
      if e.fileName ≠ ".git" then d ← takeTree d l
    else if DeclarationFile.isSupported ⟨e.fileName⟩ then d ← take d l
  return d

/-- Takes what lies on the way of a path. -/
def takeWay (d : Disk) (p : Path) : IO (Disk × Location) :=
  (Path.splitSlashes p.text.toList).foldlM (fun (d, l) piece => do
    let next := match Path.Component.ofPiece? piece with
      | some (.entry name) => l ++ [name]
      | some .up => l.dropLast
      | _ => l
    return (← take d next, next)) (d, d.start p)

/-- Takes what a walk from a path may look at. -/
def takeInput (d : Disk) (p : Path) : IO Disk := do
  let (d, l) ← takeWay d p
  let d ← (Disk.directoriesAbove l).foldlM takeRules d
  if d.at? l = some .directory then takeTree d l else return d

/-- Takes what a task may look at. -/
def takeFor (d : Disk) (i : Command.Invocation) : IO Disk := do
  match i.task with
  | .scan inputs _ output _ =>
    let settings := [i.config.join Settings.tomlFileName, i.config.join Settings.jsonFileName]
    let d ← (settings ++ output.toList).foldlM (fun d p => return (← takeWay d p).1) d
    inputs.foldlM takeInput d
  | .init dir => return (← takeWay d (dir.join Settings.tomlFileName)).1
  | _ => return d

/-- Writes the files that are not on the disk from before. -/
def carryOut (before after : Disk) : IO Unit := do
  for (l, e) in after.entries do
    match e with
    | .file content =>
      if before.at? l ≠ some e then IO.FS.writeBinFile (pathText l) content
    | .directory => pure ()

/-- Whether texts are shown with styles: on a terminal that has them, or when it is asked for. -/
def wantsColors : IO Bool := do
  let set (name other : String) : IO Bool := do
    return (← IO.getEnv name).getD other ≠ "0"
  if ← set "CLICOLOR_FORCE" "0" then return true
  let plain := (← IO.getEnv "NO_COLOR").isSome || (← IO.getEnv "TERM") = some "dumb"
  return (← (← IO.getStdout).isTty) && !plain && (← set "CLICOLOR" "1")

/-- The present moment. -/
def now : IO Moment := do
  let t ← Std.Time.Timestamp.now
  return ⟨t.val.second.val.toNat, t.val.nano.val.toNat⟩

/-- Whether a task reads standard input. -/
def readsInput (i : Command.Invocation) : Bool :=
  match i.task with
  | .scan inputs _ _ _ => inputs.contains Input.standard
  | _ => false

/-- Everything on standard input. -/
partial def readAll (input : ByteArray) : IO ByteArray := do
  let more ← (← IO.getStdin).read 65536
  if more.isEmpty then return input else readAll (input ++ more)

/-- The variable of the environment that says which log records are shown. Other programs heed it as
well, so a user sets it once. -/
def logVariable : String := "RUST_LOG"

/-- What a command finds around it. -/
def surroundings (arguments : List String) : IO Command.Surroundings := do
  let start : Disk := { current := locationOf (← IO.currentDir).toString }
  let (disk, stdin) ← match Command.parseArguments arguments with
    | .ok (.run i) =>
      pure (← takeFor start i, ← if readsInput i then readAll .empty else pure .empty)
    | _ => pure (start, .empty)
  return {
    disk := disk
    stdin := stdin
    colors := ← wantsColors
    logFilter := ← IO.getEnv logVariable
    time := (← now).text }

end SuffixLint.Program

open SuffixLint in
/-- Runs the program. -/
def main (arguments : List String) : IO UInt32 := do
  let s ← Program.surroundings arguments
  let done := Command.run s arguments
  Program.carryOut s.disk done.value.disk
  for r in done.records do
    IO.eprintln (r.level.name ++ ": " ++ r.text)
  IO.print done.value.stdout
  IO.eprint done.value.stderr
  return done.value.exit.toUInt32
