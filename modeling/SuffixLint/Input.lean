import SuffixLint.Log
import SuffixLint.Walk
/-!
# Inputs

Declarations are loaded from files, from directories and from standard input. A file that is named
has to load; a file that a walk through a directory comes to is skipped, with a warning, when it
does not. Declarations keep the order of the inputs, of the files in a directory and of each file.
-/

namespace SuffixLint

open Log

/-- Why an input does not load. -/
inductive InputError where
  | unreadable (path : Path) (cause : Disk.Refusal)
  | badDocument (path : Path) (cause : Json.Error)
  | badLine (path : Path) (line : Nat) (cause : Json.Error)
  | unsupported (path : Path)
  deriving DecidableEq, Repr

namespace InputError

/-- The path of the input that does not load. -/
def path : InputError → Path
  | unreadable p _ => p
  | badDocument p _ => p
  | badLine p _ _ => p
  | unsupported p => p

/-- What lies behind an error. -/
def cause? : InputError → Option String
  | unreadable _ e => some e.message
  | badDocument _ e => some e.message
  | badLine _ _ e => some e.message
  | unsupported _ => none

/-- The text of an error. -/
def message : InputError → String
  | unreadable p e => "Failed to read " ++ p.text ++ ": " ++ e.message
  | badDocument p e => "Invalid declarations in " ++ p.text ++ ": " ++ e.message
  | badLine p n e =>
    "Invalid declaration at " ++ p.text ++ ":" ++ toString n ++ ": " ++ e.message
  | unsupported p =>
    "Unsupported declaration file " ++ p.text ++ " (expected .json, .jsonl or .ndjson)"

end InputError

namespace Input

/-- The input that stands for standard input. -/
def standard : Path := ⟨"-"⟩

/-- The name of standard input in errors. -/
def standardName : Path := ⟨"<stdin>"⟩

/-- The declarations in a document; `p` names it in errors. -/
def parseDocument (p : Path) (text : String) : Except InputError (List Declaration) :=
  (DeclarationFile.ofDocument text.toList).mapError (.badDocument p)

/-- The declarations in lines; `p` names them in errors. -/
def parseLines (p : Path) (text : String) : Except InputError (List Declaration) :=
  (DeclarationFile.ofLines text.toList).mapError fun e => .badLine p e.line e.cause

/-- The declarations in a file, whose extension tells its form. -/
def loadFile (d : Disk) (p : Path) : Except InputError (List Declaration) :=
  match DeclarationFile.Form.ofPath? p with
  | none => .error (.unsupported p)
  | some form =>
    match d.readText p with
    | .error e => .error (.unreadable p e)
    | .ok text =>
      match form with
      | .document => parseDocument p text
      | .lines => parseLines p text

/-- The declarations on standard input, which holds lines. -/
def loadStandard (bytes : ByteArray) : Except InputError (List Declaration) :=
  match Disk.decodeText bytes with
  | .error e => .error (.unreadable standardName e)
  | .ok text => parseLines standardName text

/-- The declarations in those files that load. -/
def loadThose (d : Disk) : List Path → Logged (List Declaration)
  | [] => return []
  | p :: ps =>
    match loadFile d p with
    | .error e => do
      note .warn ("Skipping " ++ e.message)
      loadThose d ps
    | .ok ds => do
      let more ← loadThose d ps
      return ds ++ more

/-- The declarations below a directory. -/
def loadDirectory (d : Disk) (root : Path) : Logged (List Declaration) := do
  let files := d.declarationFiles root
  note .debug ("Found " ++ toString files.length ++ " declaration files under " ++ root.text)
  loadThose d files

/-- The declarations in one input; `stdin` is what is left of standard input. -/
def loadOne (d : Disk) (stdin : ByteArray) (p : Path) :
    Logged (Except InputError (List Declaration)) := do
  if p = standard then
    match loadStandard stdin with
    | .error e => return .error e
    | .ok ds =>
      note .debug ("Read " ++ toString ds.length ++ " declarations from stdin")
      return .ok ds
  else if d.isDirectory p then
    return .ok (← loadDirectory d p)
  else
    match loadFile d p with
    | .error e => return .error e
    | .ok ds =>
      note .debug ("Read " ++ toString ds.length ++ " declarations from " ++ p.text)
      return .ok ds

/-- The declarations in inputs, up to the first that does not load. Standard input is read to its
end, so nothing is left of it afterwards. -/
def loadEach (d : Disk) (stdin : ByteArray) :
    List Path → Logged (Except InputError (List Declaration))
  | [] => return .ok []
  | p :: ps => do
    match ← loadOne d stdin p with
    | .error e => return .error e
    | .ok ds =>
      match ← loadEach d (if p = standard then .empty else stdin) ps with
      | .error e => return .error e
      | .ok more => return .ok (ds ++ more)

/-- The declarations in inputs. -/
def load (d : Disk) (stdin : ByteArray) (inputs : List Path) :
    Logged (Except InputError (List Declaration)) := do
  match ← loadEach d stdin inputs with
  | .error e => return .error e
  | .ok ds =>
    note .info ("Loaded " ++ toString ds.length ++ " declarations")
    return .ok ds

end Input

end SuffixLint
