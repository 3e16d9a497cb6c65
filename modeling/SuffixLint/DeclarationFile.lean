import SuffixLint.Declaration
import SuffixLint.Text.Blank
import SuffixLint.Text.Lines
/-!
# Declaration files

Declarations are listed in one of two forms: as one document, which is a list or an object with a
list under `declarations`, or as lines of which each that is not blank is a declaration of its own.
The name of a file says by its extension which form it has.

A document is read into memory before its declarations are looked for, so a fault in its syntax is
reported before anything else. A line is read in one pass, so what comes first is reported.
-/

namespace SuffixLint.DeclarationFile

/-- The form in which a file lists declarations. -/
inductive Form where
  | document
  | lines
  deriving DecidableEq, Repr

/-- The extensions of declaration files, with the form that each stands for. -/
def forms : List (String × Form) :=
  [("json", .document), ("jsonl", .lines), ("ndjson", .lines)]

/-- The extensions of declaration files. -/
def extensions : List String :=
  forms.map Prod.fst

/-- The form of a file by its name; nothing for a file that is no declaration file. -/
def Form.ofPath? (p : Path) : Option Form :=
  p.extension?.bind fun e => (forms.find? fun f => f.1 = e).map Prod.snd

/-- Whether a file is a declaration file by its name. -/
def isSupported (p : Path) : Bool :=
  (Form.ofPath? p).isSome

/-! ## Documents -/

/-- The declarations in a list. -/
def listed? (v : Json) : Option (List Declaration) :=
  Declaration.codec.list.decode .refused v

/-- The declarations in a document: in the document itself, or in the one list of its member
`declarations`. -/
def declarations? : Json → Option (List Declaration)
  | .object members =>
    match members.filter fun m => m.1 = "declarations" with
    | [m] => listed? m.2
    | _ => none
  | v => listed? v

/-- The declarations in a text that is a document. Text behind the document is refused only when
the document lists declarations. -/
def ofDocument (text : List Char) : Except Json.Error (List Declaration) :=
  match Json.read Json.depthLimit text with
  | .error e => .error e
  | .ok (v, r) =>
    match declarations? v with
    | none => .error .noForm
    | some ds => if Json.atEnd r.val then .ok ds else .error .trailingCharacters

/-! ## Lines -/

/-- Why a line is refused, and which. -/
structure LineError where
  /-- The number of the line, counted from one. -/
  line : Nat
  cause : Json.Error
  deriving DecidableEq, Repr

/-- The declarations in lines of which the first has a given number. The first line that is refused
decides. -/
def readLines (number : Nat) : List (List Char) → Except LineError (List Declaration)
  | [] => .ok []
  | l :: ls =>
    if Text.allBlank l then readLines (number + 1) ls
    else
      match Declaration.codec.parse l with
      | .error e => .error ⟨number, e⟩
      | .ok d => (readLines (number + 1) ls).map (d :: ·)

/-- The declarations in a text of lines. -/
def ofLines (text : List Char) : Except LineError (List Declaration) :=
  readLines 1 (Text.lines text)

end SuffixLint.DeclarationFile
